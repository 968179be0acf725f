import Recast.Checker.Basic
import Recast.Idiom

/-!
# Casts between structs of different layout

A cast from one struct to another goes wrong on some machines when the two do not have the same
number of fields whose width follows the address width.  This checker finds such casts, in
pre-order.
-/

namespace Recast.StructCast

/-- A cast between two structs with different numbers of platform-dependent fields. -/
structure Mismatch where
  loc : Loc
  source : Nat
  target : Nat
  deriving Repr, DecidableEq

/-- The finding that a mismatch leads to. -/
def Mismatch.draft (m : Mismatch) : Draft where
  id := "structCastPlatformFields"
  message := "unsafe cast between structs with mismatching platform-dependent field counts"
  loc := m.loc
  extra := toString m.source ++ " vs " ++ toString m.target

/-- The mismatch in a cast from one type to another. -/
def mismatch? (env : Underlying) (loc : Loc) (source target : Ty) : Option Mismatch :=
  match source.underlying env, target.underlying env with
  | .struct .., .struct .. =>
    let m := source.platformFields env
    let n := target.platformFields env
    if m = n then none else some ⟨loc, m, n⟩
  | _, _ => none

/-- The mismatch at one node, if it is a cast. -/
def mismatchAt? (info : Info) : Node → Option Mismatch
  | .call m fn args =>
    match (Node.call m fn args).recordCast? with
    | some cast => mismatch? info.underlying m.loc (info.typeOf cast.source) (info.typeOf cast.type)
    | none => none
  | _ => none

/-- The kind of nodes that casts are among. -/
def isSite : Node → Bool
  | .call .. => true
  | _ => false

/-- The checker for casts between structs. -/
def checker : Checker where
  name := "struct-cast-size"
  description := "Casts between structs with differently sized layouts"
  ids := ["structCastPlatformFields"]
  requires := [.syntaxTree, .typeInfo]
  examine unit _ :=
    return ((unit.file.node.walk isSite).filterMap (mismatchAt? unit.info ·.node)).map
      Mismatch.draft

end Recast.StructCast
