import Recast.Names.Binding

/-!
# What is known about a unit

The result of resolving a unit: the type of each node, the binding that each identifier declares or
refers to, the bindings themselves, and what its named types stand for.  Nodes are known by their
numbers.
-/

namespace Recast

/-- Types and bindings of one unit. -/
structure Info where
  /-- The types of nodes, type expressions included. -/
  types : Table Nat Ty := {}
  /-- The bindings that identifiers declare. -/
  defs : Table Nat Nat := {}
  /-- The bindings that identifiers refer to. -/
  uses : Table Nat Nat := {}
  /-- All bindings, by number. -/
  bindings : Array Binding := #[]
  /-- What named types stand for. -/
  underlying : Underlying := {}
  deriving Repr, Inhabited

namespace Info

/-- The type of a node; what was not resolved has none that is valid. -/
def typeOf (info : Info) (n : Node) : Ty := (info.types.find? n.id).getD .invalid

/-- The number of the binding that an identifier declares or refers to. -/
def bindingOf? (info : Info) (i : Ident) : Option Nat :=
  match info.defs.find? i.mark.id with
  | some b => some b
  | none => info.uses.find? i.mark.id

/-- The binding with this number. -/
def binding (info : Info) (b : Nat) : Binding := info.bindings.getD b default

end Info

end Recast
