import Recast.Text.Printable

/-!
# Quoted text in messages

A message shows a text between quotes, on one line and free of invisible characters.

* The quote is `'`, unless the text has a `'` and no `"`.
* A backslash, the quote in use, newline, return and tab are written with a backslash.
* Any other character that is not printable is written by its number, in two, four or eight
  hexadecimal digits.
-/

namespace Recast.Text

/-- The lower-case hexadecimal digits of a number, filled up with zeros to a least width. -/
def hex (width n : Nat) : List Char :=
  let ds := Nat.toDigits 16 n
  List.replicate (width - ds.length) '0' ++ ds

/-- A character that is not printable, by its number. -/
def escapeByNumber (c : Char) : List Char :=
  let n := c.toNat
  if n < 0x100 then '\\' :: 'x' :: hex 2 n
  else if n < 0x10000 then '\\' :: 'u' :: hex 4 n
  else '\\' :: 'U' :: hex 8 n

/-- One character of a text quoted with `q`. -/
def quoteChar (q c : Char) : List Char :=
  if c == '\\' || c == q then ['\\', c]
  else if c == '\n' then ['\\', 'n']
  else if c == '\r' then ['\\', 'r']
  else if c == '\t' then ['\\', 't']
  else if isPrintable c then [c]
  else escapeByNumber c

/-- The quote a text takes. -/
def quoteFor (cs : List Char) : Char :=
  if cs.contains '\'' && !cs.contains '"' then '"' else '\''

/-- A text between quotes, as messages show it. -/
def quote (s : String) : String :=
  let cs := s.toList
  let q := quoteFor cs
  String.ofList (q :: (cs.flatMap (quoteChar q) ++ [q]))

end Recast.Text
