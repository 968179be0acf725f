/-!
# White space

Two classes of white space meet in this library, and they differ on four control characters.

* `isSpace` is the Unicode property: what `trim` removes at the ends of a text.
* `isPadding` is what may surround a numeral.  It leaves out the four information separators
  (U+001C to U+001F), which are spaces by the property but never padding.
-/

namespace Recast.Text

/-- White space by the Unicode property, with the information separators counted in. -/
def isSpace (c : Char) : Bool :=
  let n := c.toNat
  (0x09 ≤ n && n ≤ 0x0d) || (0x1c ≤ n && n ≤ 0x20) || n == 0x85 || n == 0xa0 || n == 0x1680 ||
    (0x2000 ≤ n && n ≤ 0x200a) || n == 0x2028 || n == 0x2029 || n == 0x202f || n == 0x205f ||
    n == 0x3000

/-- White space that may stand before and after a numeral. -/
def isPadding (c : Char) : Bool :=
  isSpace c && !(0x1c ≤ c.toNat && c.toNat ≤ 0x1f)

/-- Drops the characters of a class from both ends. -/
def stripBoth (p : Char → Bool) (cs : List Char) : List Char :=
  ((cs.dropWhile p).reverse.dropWhile p).reverse

/-- Drops white space at the end of a text. -/
def trimEnd (s : String) : String :=
  String.ofList (s.toList.reverse.dropWhile isSpace).reverse

/-- Drops white space at both ends of a text. -/
def trim (s : String) : String :=
  String.ofList (stripBoth isSpace s.toList)

end Recast.Text
