import Recast.Decimal.Binary64

/-!
# The shortest decimal of a binary number

A binary64 value is written with the fewest decimal digits that read back as the same value; among
those of least length with the nearest, and of two equally near with the one whose last digit is
even.

* `Decimal.shortest` finds the digits.  The decimals that read back fill an interval around the
  value, whose ends belong to it when the significand is even.  For one digit, then two, and so on,
  the two neighbours of the value on that decimal grid are tried; seventeen digits always suffice.
* `Decimal.Layout` says how digits and a power of ten are laid out as text, and `Binary64.text`
  applies the layout that literals have.
-/

namespace Recast

/-- The decimal `digits * 10 ^ power`. -/
structure Decimal where
  digits : Nat
  power : Int
  deriving Repr, DecidableEq

namespace Decimal

/-- A value on a grid, with the ends of the interval that reads back as it: everything in one unit
of which `unit` make a step of the grid. -/
structure Grid where
  low : Nat
  value : Nat
  high : Nat
  unit : Nat
  closed : Bool

/-- The neighbour of the value on its grid that lies in the interval, if one does: the nearer of
two. -/
def Grid.neighbour? (g : Grid) : Option Nat :=
  let below := g.value / g.unit
  let above := below + 1
  let lowIn := if g.closed then g.low ≤ below * g.unit else g.low < below * g.unit
  let highIn := if g.closed then above * g.unit ≤ g.high else above * g.unit < g.high
  if lowIn then
    if highIn then
      let down := g.value - below * g.unit
      let up := above * g.unit - g.value
      if down < up then some below
      else if up < down then some above
      else some (below + below % 2)
    else some below
  else if highIn then some above
  else none

/-- The exponent of the greatest power of ten that is at most a positive quotient. -/
def floorLogTen (num den : Nat) : Int :=
  if den ≤ num then (Binary64.decimalLength (num / den) : Int) - 1
  else -(Binary64.decimalLength ((den + num - 1) / num - 1) : Int)

/-- The grid of `10 ^ power` around `significand * 2 ^ exponent`.  The interval reaches half a step
of the binary grid to both sides, and only a quarter down from a power of two. -/
def grid (significand : Nat) (exponent power : Int) : Grid :=
  let two := Binary64.twoTo (exponent - 2).toNat
  let ten := Binary64.tenTo (-power).toNat
  let scale := two * ten
  let down := if significand == Binary64.twoTo 52 && Binary64.leastExponent < exponent then 1 else 2
  { low := (4 * significand - down) * scale
    value := 4 * significand * scale
    high := (4 * significand + 2) * scale
    unit := Binary64.twoTo (2 - exponent).toNat * Binary64.tenTo power.toNat
    closed := significand % 2 == 0 }

/-- The exponent of ten of the first digit of `significand * 2 ^ exponent`. -/
def leading (significand : Nat) (exponent : Int) : Int :=
  floorLogTen (significand * Binary64.twoTo exponent.toNat) (Binary64.twoTo (-exponent).toNat)

/-- The shortest decimal that reads back as `significand * 2 ^ exponent`, for a positive
significand. -/
def shortest (significand : Nat) (exponent : Int) : Decimal :=
  let top := leading significand exponent
  let found := (List.range 17).findSome? fun (i : Nat) =>
    let power := top - (i : Int)
    ((grid significand exponent power).neighbour?).map fun digits => Decimal.mk digits power
  found.getD ⟨0, 0⟩

/-- How digits and a power of ten are laid out.  A first digit at an exponent of ten from `least` to
`greatest` gives positional notation with at least one place after the point; any other gives an
exponent with a sign and at least `exponentWidth` digits. -/
structure Layout where
  least : Int
  greatest : Int
  exponentWidth : Nat

/-- The digits of a decimal without the zeros at its end, and the exponent of ten of the first. -/
def leadingDigits (d : Decimal) : List Char × Int :=
  let ds := Nat.toDigits 10 d.digits
  let kept := (ds.reverse.dropWhile (· == '0')).reverse
  (kept, (ds.length : Int) - 1 + d.power)

/-- A positive decimal as text. -/
def Layout.text (l : Layout) (d : Decimal) : List Char :=
  let (ds, e) := leadingDigits d
  if l.least ≤ e && e ≤ l.greatest then
    if e < 0 then '0' :: '.' :: (List.replicate (-e - 1).toNat '0' ++ ds)
    else
      let whole := ds.take (e.toNat + 1)
      let fraction := ds.drop (e.toNat + 1)
      whole ++ List.replicate (e.toNat + 1 - whole.length) '0' ++
        '.' :: (if fraction.isEmpty then ['0'] else fraction)
  else
    let power := Nat.toDigits 10 e.natAbs
    ds.take 1 ++ (if ds.length ≤ 1 then [] else '.' :: ds.drop 1) ++
      'e' :: (if e < 0 then '-' else '+') ::
        (List.replicate (l.exponentWidth - power.length) '0' ++ power)

end Decimal

/-- The layout of floating-point literals: positional from `0.0001` up to sixteen places before the
point. -/
def Binary64.layout : Decimal.Layout := { least := -4, greatest := 15, exponentWidth := 2 }

/-- A binary64 value as text.  Zero keeps its sign, and what is not a number has none. -/
def Binary64.text : Binary64 → String
  | .nan => "nan"
  | .infinite negative => if negative then "-inf" else "inf"
  | .finite negative significand exponent =>
    let sign := if negative then "-" else ""
    if significand == 0 then sign ++ "0.0"
    else sign ++ String.ofList (layout.text (Decimal.shortest significand exponent))

end Recast
