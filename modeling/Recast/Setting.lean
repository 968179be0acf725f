import Recast.Decimal.Numeral
import Recast.Table

/-!
# Settings

A run takes options by name, each with a value of some loose kind.  `Setting.toInteger` is the one
way in which a setting is used: as a whole number, for which a fraction is cut off, a flag counts 0
or 1, and a text must be a whole numeral.
-/

namespace Recast

/-- The value of an option.  What is inside a list or a dictionary never matters. -/
inductive Setting where
  | integer (n : Int)
  | real (x : Binary64)
  | flag (b : Bool)
  | text (s : String)
  | nothing
  | list
  | dictionary
  deriving Repr, DecidableEq, Inhabited

/-- Options by name. -/
abbrev Options := Table String Setting

namespace Setting

/-- Why a setting is no whole number. -/
inductive Fault where
  /-- A text that is no whole numeral. -/
  | numeral (fault : Numeral.Fault)
  /-- A real number beyond all bounds. -/
  | infinite
  /-- A real number that is not a number. -/
  | nan
  /-- A value of a kind that no number can be made of. -/
  | wrongKind (name : String)
  deriving Repr, DecidableEq

/-- What is wrong, in words. -/
def Fault.message : Fault → String
  | .numeral fault => fault.message
  | .infinite => "cannot convert float infinity to integer"
  | .nan => "cannot convert float NaN to integer"
  | .wrongKind name =>
    "int() argument must be a string, a bytes-like object or a real number, not '" ++ name ++ "'"

/-- A setting as a whole number. -/
def toInteger : Setting → Except Fault Int
  | .integer n => .ok n
  | .real x =>
    match x, x.truncate? with
    | _, some n => .ok n
    | .nan, none => .error .nan
    | _, none => .error .infinite
  | .flag b => .ok (if b then 1 else 0)
  | .text s =>
    match Numeral.readInteger s with
    | .ok n => .ok n
    | .error fault => .error (.numeral fault)
  | .nothing => .error (.wrongKind "NoneType")
  | .list => .error (.wrongKind "list")
  | .dictionary => .error (.wrongKind "dict")

end Setting

end Recast
