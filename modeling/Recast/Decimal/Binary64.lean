/-!
# Binary floating-point numbers of 64 bits

A number with a fraction is held as the nearest binary64 value: a sign, a significand below `2 ^ 53`
and a power of two.  Everything here is exact arithmetic on natural numbers.

* `Binary64` — the values.  A finite one is `± significand * 2 ^ exponent`.
* `Binary64.ofRatio` — the value nearest to a positive quotient, a tie going to the even
  significand.
* `Binary64.ofDecimal` — the value nearest to `± coefficient * 10 ^ power`.  A power far outside the
  range is answered without being computed.
* `Binary64.truncate?` — the whole part of a finite value.
-/

namespace Recast

/-- A binary64 value.  A finite value has its significand below `2 ^ 53` and its exponent from
`-1074` to `971`; a significand below `2 ^ 52` goes with the least exponent. -/
inductive Binary64 where
  /-- Not a number. -/
  | nan
  /-- Beyond every finite value. -/
  | infinite (negative : Bool)
  /-- The value `± significand * 2 ^ exponent`. -/
  | finite (negative : Bool) (significand : Nat) (exponent : Int)
  deriving Repr, DecidableEq

namespace Binary64

/-- The least exponent of a finite value. -/
def leastExponent : Int := -1074

/-- The greatest exponent of a finite value. -/
def greatestExponent : Int := 971

/-- Zero, which keeps its sign. -/
def zero (negative : Bool) : Binary64 := .finite negative 0 leastExponent

/-- A quotient rounded to a whole number, a half going to the even neighbour. -/
def roundQuotient (num den : Nat) : Nat :=
  let whole := num / den
  let twice := 2 * (num % den)
  if twice < den then whole
  else if den < twice then whole + 1
  else whole + whole % 2

/-- A power of two. -/
def twoTo (n : Nat) : Nat := Nat.pow 2 n

/-- A power of ten. -/
def tenTo (n : Nat) : Nat := Nat.pow 10 n

/-- A quotient multiplied by a power of two, as numerator and denominator. -/
def scaleTwo (num den : Nat) (power : Int) : Nat × Nat :=
  (num * twoTo power.toNat, den * twoTo (-power).toNat)

/-- The exponent of the greatest power of two that is at most a positive quotient. -/
def floorLogTwo (num den : Nat) : Int :=
  let guess : Int := (Nat.log2 num : Int) - (Nat.log2 den : Int)
  let (n, d) := scaleTwo num den (-guess)
  if n < d then guess - 1 else guess

/-- The value nearest to a positive quotient. -/
def ofRatio (negative : Bool) (num den : Nat) : Binary64 :=
  let exponent := max (floorLogTwo num den - 52) leastExponent
  let (n, d) := scaleTwo num den (-exponent)
  let significand := roundQuotient n d
  let (significand, exponent) :=
    if significand == twoTo 53 then (twoTo 52, exponent + 1) else (significand, exponent)
  if greatestExponent < exponent then .infinite negative else .finite negative significand exponent

/-- The number of decimal digits of a number; zero has none. -/
def decimalLength (n : Nat) : Nat :=
  if n == 0 then 0 else (Nat.toDigits 10 n).length

/-- The value nearest to `± coefficient * 10 ^ power`.  Above `10 ^ 310` every quotient overflows
and below `10 ^ -330` every quotient is zero, so the power is only computed between the two. -/
def ofDecimal (negative : Bool) (coefficient : Nat) (power : Int) : Binary64 :=
  let top := (decimalLength coefficient : Int) + power
  if coefficient == 0 then zero negative
  else if 310 < top then .infinite negative
  else if top < -330 then zero negative
  else ofRatio negative (coefficient * tenTo power.toNat) (tenTo (-power).toNat)

/-- The whole part of a finite value, rounded toward zero. -/
def truncate? : Binary64 → Option Int
  | .finite negative significand exponent =>
    let whole := significand * twoTo exponent.toNat / twoTo (-exponent).toNat
    some (if negative then -(whole : Int) else whole)
  | _ => none

end Binary64

end Recast
