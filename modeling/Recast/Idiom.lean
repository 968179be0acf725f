import Recast.Names.Info
import Recast.Syntax.Spelling
import Recast.Types.Shape

/-!
# Casts through a raw pointer

Memory is reinterpreted by a conversion in two steps, `(*T)(unsafe.Pointer(x))`, which may stand
under one dereference.  The inner step has to be the conversion to the raw pointer itself; a cast by
any other way is not recognised.

* **Header derivation** — the target `T` is a header.  It is sound only if the operand refers to a
  slice or a string, which is not judged here.
* **Record cast** — any target at all.  The source is the operand without its address operator.
-/

namespace Recast

/-- The argument of a conversion `unsafe.Pointer(x)`. -/
def Node.rawOperand? : Node → Option Node
  | .call _ fn [x] => if fn.isQualified "unsafe" "Pointer" then some x else none
  | _ => none

/-- A conversion `(*type)(unsafe.Pointer(operand))`. -/
structure PointerCast where
  /-- The whole conversion. -/
  call : Node
  type : Node
  operand : Node

/-- Takes apart a conversion to a pointer type by way of the raw pointer. -/
def Node.callCast? : Node → Option PointerCast
  | .call m (.paren p (.star s type)) [x] =>
    x.rawOperand?.map fun operand => ⟨.call m (.paren p (.star s type)) [x], type, operand⟩
  | _ => none

/-- Takes apart such a conversion, or a dereference of one. -/
def Node.pointerCast? : Node → Option PointerCast
  | .star _ x => x.callCast?
  | n => n.callCast?

/-- A cast that makes a header. -/
structure HeaderDerivation extends PointerCast where
  targetType : Ty
  operandType : Ty

/-- Recognises a cast that makes a header. -/
def Node.headerDerivation? (info : Info) (n : Node) : Option HeaderDerivation :=
  match n.pointerCast? with
  | none => none
  | some cast =>
    let target := info.typeOf cast.type
    if target.isHeaderShaped info.underlying then
      some { cast with targetType := target, operandType := info.typeOf cast.operand }
    else none

/-- A cast from one record to another. -/
structure RecordCast where
  call : Node
  source : Node
  type : Node

/-- An expression without its address operator. -/
def Node.addressed : Node → Node
  | .unary m op x => if op == "&" then x else .unary m op x
  | n => n

/-- Recognises a cast from one record to another. -/
def Node.recordCast? (n : Node) : Option RecordCast :=
  n.pointerCast?.map fun cast => ⟨cast.call, cast.operand.addressed, cast.type⟩

end Recast
