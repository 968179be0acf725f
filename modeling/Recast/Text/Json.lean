import Recast.Text.Quoted

/-!
# Text in JSON

A JSON text is written in ASCII alone: whatever lies outside U+0020 to U+007E is escaped, above
U+FFFF as the two surrogates of UTF-16.
-/

namespace Recast.Text

/-- One UTF-16 unit as a JSON escape. -/
def jsonUnit (n : Nat) : List Char := '\\' :: 'u' :: hex 4 n

/-- One character of a JSON text. -/
def jsonChar (c : Char) : List Char :=
  if c == '"' then ['\\', '"']
  else if c == '\\' then ['\\', '\\']
  else if c == '\n' then ['\\', 'n']
  else if c == '\r' then ['\\', 'r']
  else if c == '\t' then ['\\', 't']
  else if c.toNat == 0x0c then ['\\', 'f']
  else if c.toNat == 0x08 then ['\\', 'b']
  else if 0x20 ≤ c.toNat && c.toNat ≤ 0x7e then [c]
  else if c.toNat < 0x10000 then jsonUnit c.toNat
  else
    let n := c.toNat - 0x10000
    jsonUnit (0xd800 + n / 0x400) ++ jsonUnit (0xdc00 + n % 0x400)

/-- A text as a JSON string, with its quotes. -/
def json (s : String) : String :=
  String.ofList ('"' :: (s.toList.flatMap jsonChar ++ ['"']))

end Recast.Text
