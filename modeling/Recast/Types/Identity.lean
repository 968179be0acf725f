import Recast.Types.Basic

/-!
# Identity and assignability of types

**Identity.**  A type is identical to itself, the invalid type excepted.  Two types that are not one
and the same are identical when they are built alike from identical types; two different named types
never are, and neither are two types that lack a part.

**Assignability.**  A value may be assigned to a variable of an identical type, of a type with an
identical underlying type if one of the two is not named, and, for a constant without a declared
type, of any type its kind fits.
-/

namespace Recast.Ty

mutual

/-- Whether two types are identical. -/
def identical : Ty → Ty → Bool
  | .invalid, _ => false
  | .basic k, .basic l => k == l
  | .pointer s a, .pointer t b => s == t || identicalOption a b
  | .slice s a, .slice t b => s == t || identicalOption a b
  | .array s a m, .array t b n => s == t || (m == n && identicalOption a b)
  | .struct s fs, .struct t gs => s == t || identicalFields fs gs
  | .named d _ _, .named e _ _ => d == e
  | .func s ps rs, .func t qs ss => s == t || (identicalAll ps qs && identicalAll rs ss)
  | _, _ => false

/-- Types that may be missing are identical only if both are there. -/
def identicalOption : Option Ty → Option Ty → Bool
  | some a, some b => identical a b
  | _, _ => false

/-- Whether two lists hold pairwise identical types. -/
def identicalAll : List (Option Ty) → List (Option Ty) → Bool
  | [], [] => true
  | a :: as, b :: bs => identicalOption a b && identicalAll as bs
  | _, _ => false

/-- Whether two lists of fields agree in names, types and embedding. -/
def identicalFields : List (Member Ty) → List (Member Ty) → Bool
  | [], [] => true
  | ⟨m, a, e⟩ :: fs, g :: gs =>
    m == g.name && e == g.embedded && identicalOption a g.type && identicalFields fs gs
  | _, _ => false

end

/-- Whether the value `nil` fits an underlying type. -/
def acceptsNil : Ty → Bool
  | .pointer .. => true
  | .slice .. => true
  | .func .. => true
  | t => t.isBasic [.unsafePointer]

/-- Whether a constant without a declared type fits a basic type. -/
def constantFits (constant target : Basic) : Bool :=
  match constant with
  | .untypedInt => target.isInteger || target.isFloat
  | .untypedFloat => target.isFloat
  | .untypedString => target == .string
  | .untypedBool => target == .bool
  | _ => false

/-- Whether a value of type `v` may be assigned to a variable of type `t`. -/
def assignable (env : Underlying) (v t : Ty) : Bool :=
  if v.isInvalid || t.isInvalid then false
  else if v.identical t then true
  else
    let u := t.underlying env
    if (v.underlying env).identical u && (!v.isNamed || !t.isNamed) then true
    else
      match v, u with
      | .basic .untypedNil, u => u.acceptsNil
      | .basic k, .basic l => constantFits k l
      | _, _ => false

/-- The type that a variable takes from its initial value: a constant without a declared type gets
the type that is usual for its kind. -/
def defaulted : Ty → Ty
  | .basic .untypedBool => .basic .bool
  | .basic .untypedInt => .basic .int
  | .basic .untypedFloat => .basic .float64
  | .basic .untypedString => .basic .string
  | t => t

end Recast.Ty
