import Recast.Types.Basic

/-!
# Shapes of records

A *header* is a record that describes a slice or a string in memory: an address, a length and, for a
slice, a capacity.  What counts is the shape alone; the name of the record, its package and any
chain of declarations in between do not.

* `Ty.headerShape?` — the header shape of a type, or of what it points to.
* `Ty.isGenuineReference` — a pointer to a slice or to a string: all that a header may be derived
  from.
* `Ty.platformFields` — how many fields of a struct change their width with the machine.
-/

namespace Recast

/-- The names and basic types of which a record must consist. -/
structure Shape where
  name : String
  fields : List (String × Basic)
  deriving Repr, DecidableEq

namespace Shape

def sliceHeader : Shape := ⟨"slice header", [("Data", .uintptr), ("Len", .int), ("Cap", .int)]⟩

def stringHeader : Shape := ⟨"string header", [("Data", .uintptr), ("Len", .int)]⟩

/-- The shapes that make a header. -/
def headers : List Shape := [sliceHeader, stringHeader]

/-- Whether fields are exactly these, in this order and none embedded. -/
def fit : List (String × Basic) → List (Member Ty) → Bool
  | [], [] => true
  | (name, kind) :: specs, f :: fs =>
    !f.embedded && f.name == name && f.type.any (·.isBasic [kind]) && fit specs fs
  | _, _ => false

/-- Whether a type is a struct of this shape. -/
def isShapeOf (s : Shape) : Ty → Bool
  | .struct _ fields => fit s.fields fields
  | _ => false

/-- Whether comparing fields with these comes to a field without a type, of which there is nothing
to say. -/
def stalls : List (String × Basic) → List (Member Ty) → Bool
  | (name, kind) :: specs, f :: fs =>
    !f.embedded && f.name == name &&
      (f.type.isNone || f.type.any (·.isBasic [kind]) && stalls specs fs)
  | _, _ => false

/-- Whether comparing a type with this shape comes to a field without a type. -/
def stallsOn (s : Shape) : Ty → Bool
  | .struct _ fields => fields.length == s.fields.length && stalls s.fields fields
  | _ => false

end Shape

namespace Ty

/-- The header shape of a type, seen through one pointer. -/
def headerShape? (env : Underlying) (t : Ty) : Option Shape :=
  Shape.headers.find? (·.isShapeOf (t.target env))

/-- A header, or a pointer to one. -/
def isHeaderShaped (env : Underlying) (t : Ty) : Bool := (t.headerShape? env).isSome

/-- A slice or a string. -/
def isSequence : Ty → Bool
  | .slice .. => true
  | t => t.isBasic [.string]

/-- A pointer to a slice or to a string. -/
def isGenuineReference (env : Underlying) (t : Ty) : Bool :=
  !t.isHeaderShaped env &&
    match t.pointee? env with
    | some elem => (elem.underlying env).isSequence
    | none => false

end Ty

/-- A field whose declared type is a basic integer as wide as an address.  A named type does not
count, whatever it stands for. -/
def Member.isPlatformDependent (f : Member Ty) : Bool :=
  match f.type with
  | some (.basic k) => k.isPlatformDependent
  | _ => false

/-- The number of platform-dependent fields of a struct type. -/
def Ty.platformFields (env : Underlying) (t : Ty) : Nat :=
  (t.underlying env).fields.countP Member.isPlatformDependent

end Recast
