import Recast.Text.Blank
import Recast.Types.Basic

/-!
# The text of a type

A type is written the way the analysed language spells it, down to twenty levels; what lies deeper
is cut off.  A named type is written by its name alone, so the text of a recursive type ends.
-/

namespace Recast.Ty

/-- The depth down to which types are written. -/
def depthLimit : Int := 20

mutual

/-- The text of a type that stands `depth` levels deep. -/
def textAt (depth : Int) (t : Ty) : String :=
  if depthLimit < depth then "..."
  else
    match t with
    | .invalid => "invalid type"
    | .basic k => k.name
    | .named _ name package => if package.isEmpty then name else package ++ "." ++ name
    | .pointer _ elem => "*" ++ optionText (depth + 1) elem
    | .slice _ elem => "[]" ++ optionText (depth + 1) elem
    | .array _ elem length => "[" ++ toString length ++ "]" ++ optionText (depth + 1) elem
    | .struct _ fields => "struct\x7b" ++ "; ".intercalate (fieldTexts (depth + 1) fields) ++ "\x7d"
    | .func _ params results =>
      let out := ", ".intercalate (texts (depth + 1) results)
      let out := if 1 < results.length then "(" ++ out ++ ")" else out
      Text.trimEnd ("func(" ++ ", ".intercalate (texts (depth + 1) params) ++ ") " ++ out)

/-- The text of a type that may be missing. -/
def optionText (depth : Int) : Option Ty → String
  | none => "<nil>"
  | some t => textAt depth t

def texts (depth : Int) : List (Option Ty) → List String
  | [] => []
  | t :: ts => optionText depth t :: texts depth ts

/-- The texts of fields: an embedded field is written without its name. -/
def fieldTexts (depth : Int) : List (Member Ty) → List String
  | [] => []
  | ⟨name, type, embedded⟩ :: fs =>
    (if embedded then optionText depth type else name ++ " " ++ optionText depth type) ::
      fieldTexts depth fs

end

/-- The text of a type. -/
def text (t : Ty) : String := textAt 0 t

end Recast.Ty
