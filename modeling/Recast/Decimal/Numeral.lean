import Recast.Decimal.Binary64
import Recast.Text.Blank
import Recast.Text.Digit
import Recast.Text.Quoted

/-!
# Numerals

How a text is read as a number.

* A **whole numeral** is a sign and digits, where single underscores may stand between digits.
  Padding around it is ignored.  It may have 4300 digits; a longer one is refused as a whole number.
* A **real numeral** is a sign and either a word (`inf`, `infinity`, `nan`, in any case) or digits
  with a point and an exponent, of which the point, the exponent and the digits on one side of the
  point may be missing.
-/

namespace Recast.Numeral

/-- The greatest number of digits of a whole numeral. -/
def digitLimit : Nat := 4300

/-- Why a text is no whole numeral. -/
inductive Fault where
  /-- Something other than a sign, digits and single underscores. -/
  | malformed (text : String)
  /-- More digits than the limit. -/
  | tooLong (digits : Nat)
  deriving Repr, DecidableEq

/-- How much of a text that is no numeral is shown, counted with its quotes and escapes. -/
def shownLimit : Nat := 200

/-- What is wrong, in words. -/
def Fault.message : Fault → String
  | .malformed s =>
    "invalid literal for int() with base 10: " ++
      String.ofList ((Text.quote s).toList.take shownLimit)
  | .tooLong digits =>
    "Exceeds the limit (" ++ toString digitLimit ++
      " digits) for integer string conversion: value has "
      ++ toString digits ++ " digits; use sys.set_int_max_str_digits() to increase the limit"

/-- Digits, between which single underscores may stand. -/
def grouped : List Char → Option (List Nat)
  | [] => none
  | [c] => (Text.digit? c).map ([·])
  | c :: '_' :: rest => do
    let d ← Text.digit? c
    let ds ← grouped rest
    return d :: ds
  | c :: rest => do
    let d ← Text.digit? c
    let ds ← grouped rest
    return d :: ds

/-- The number that a list of digits spells. -/
def value (digits : List Nat) : Nat := digits.foldl (fun n d => 10 * n + d) 0

/-- Splits off a sign; `true` means negative. -/
def signed : List Char → Bool × List Char
  | '-' :: cs => (true, cs)
  | '+' :: cs => (false, cs)
  | cs => (false, cs)

/-- The digits up to a character that is neither digit nor underscore.  A missing run is an empty
one; a run that is not well grouped is none. -/
def run? (cs : List Char) : Option (List Nat × List Char) :=
  let inRun := fun c => (Text.digit? c).isSome || c == '_'
  match cs.takeWhile inRun with
  | [] => some ([], cs)
  | body => (grouped body).map fun ds => (ds, cs.dropWhile inRun)

/-- Reads a whole numeral.  The digits are counted before anything behind them is looked at. -/
def readInteger (s : String) : Except Fault Int :=
  let (negative, body) := signed (Text.stripBoth Text.isPadding s.toList)
  match run? body with
  | none => .error (.malformed s)
  | some (digits, rest) =>
    if digitLimit < digits.length then .error (.tooLong digits.length)
    else if digits.isEmpty || !rest.isEmpty then .error (.malformed s)
    else .ok (if negative then -(value digits : Int) else value digits)

/-- Reads a whole numeral, or nothing. -/
def integer? (s : String) : Option Int := (readInteger s).toOption

/-- The power of ten after the digits of a real numeral, up to the end of the text. -/
def exponent? : List Char → Option Int
  | [] => some 0
  | c :: cs =>
    if c == 'e' || c == 'E' then
      let (negative, body) := signed cs
      (grouped body).map fun ds => if negative then -(value ds : Int) else value ds
    else none

/-- Reads digits with a point and an exponent. -/
def decimal? (negative : Bool) (cs : List Char) : Option Binary64 := do
  let (whole, rest) ← run? cs
  let (fraction, rest) ←
    match rest with
    | '.' :: rest => run? rest
    | rest => some ([], rest)
  if whole.isEmpty && fraction.isEmpty then none
  else
    let power ← exponent? rest
    return .ofDecimal negative (value (whole ++ fraction)) (power - (fraction.length : Int))

/-- Reads a real numeral, or nothing. -/
def real? (s : String) : Option Binary64 :=
  let (negative, body) := signed (Text.stripBoth Text.isPadding s.toList)
  let word := String.ofList (body.map Char.toLower)
  if word == "inf" || word == "infinity" then some (.infinite negative)
  else if word == "nan" then some .nan
  else decimal? negative body

end Recast.Numeral
