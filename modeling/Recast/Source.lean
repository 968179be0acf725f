/-!
# Source bytes

The text of a source file.  Its bytes are UTF-8, and every way to end a line is read as a line feed.
-/

namespace Recast.Source

/-- A text in which a carriage return, alone or before a line feed, is a line feed. -/
def lineFeeds : List Char → List Char
  | [] => []
  | '\r' :: '\n' :: cs => '\n' :: lineFeeds cs
  | '\r' :: cs => '\n' :: lineFeeds cs
  | c :: cs => c :: lineFeeds cs

/-- The text of a source file, unless its bytes are not UTF-8. -/
def text? (bytes : ByteArray) : Option String :=
  (String.fromUTF8? bytes).map fun s => String.ofList (lineFeeds s.toList)

end Recast.Source
