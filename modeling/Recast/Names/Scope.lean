import Recast.Table

/-!
# Scopes

A scope is a chain of frames, the innermost first.  Each frame has the names declared in one block,
by the position of their binding.  A name means what the innermost frame that declares it says; a
declaration goes into the innermost frame and hides whatever the frame said before.
-/

namespace Recast

/-- The names that one block declares. -/
abbrev Frame := Table String Nat

/-- A chain of frames, innermost first. -/
abbrev Scope := List Frame

namespace Scope

/-- What a name means. -/
def lookup (name : String) : Scope → Option Nat
  | [] => none
  | frame :: outer =>
    match frame.find? name with
    | some b => some b
    | none => lookup name outer

/-- What the innermost frame alone says about a name. -/
def lookupHere (name : String) : Scope → Option Nat
  | [] => none
  | frame :: _ => frame.find? name

/-- Declares a name in the innermost frame. -/
def declare (name : String) (binding : Nat) : Scope → Scope
  | [] => [Table.insert {} name binding]
  | frame :: outer => frame.insert name binding :: outer

/-- A scope inside another one. -/
def nested (scope : Scope) : Scope := {} :: scope

/-- A new scope declares nothing of its own. -/
theorem lookup_nested (name : String) (scope : Scope) :
    lookup name scope.nested = lookup name scope := rfl

/-- A declared name means what it was declared as, and every other name what it meant before. -/
theorem lookup_declare (name name' : String) (binding : Nat) (scope : Scope) :
    lookup name' (scope.declare name binding) =
      if name = name' then some binding else lookup name' scope := by
  cases scope with
  | nil => by_cases h : name = name' <;> simp [declare, lookup, Table.find?_insert, h]
  | cons frame outer => by_cases h : name = name' <;> simp [declare, lookup, Table.find?_insert, h]

end Scope

end Recast
