import Recast.Decimal.Shortest
import Recast.Text.Quoted

/-!
# Forms

A unit description is a sequence of forms: atoms, and lists of forms.  An atom is a symbol, a text
between quotes, or a number.  Two more shapes can be written and are never part of a well-formed
description: a form behind an apostrophe, and a list in square brackets.
-/

namespace Recast

/-- A form of a unit description. -/
inductive Form where
  | symbol (name : String)
  | text (value : String)
  | integer (value : Int)
  | real (value : Binary64)
  | list (items : List Form)
  /-- A form behind an apostrophe. -/
  | quoted (form : Form)
  /-- A list in square brackets. -/
  | brackets (items : List Form)
  deriving Repr, Inhabited

namespace Form

/-- Whether a form is the symbol with this name. -/
def isSymbol (name : String) : Form → Bool
  | .symbol s => s == name
  | _ => false

/-- Whether a form is the placeholder `_`. -/
def isBlank : Form → Bool := isSymbol "_"

/-- The name messages use for the shape of a form. -/
def shapeName : Form → String
  | .symbol _ => "Symbol"
  | .text _ => "str"
  | .integer _ => "int"
  | .real _ => "float"
  | .list _ => "list"
  | .quoted _ => "Quoted"
  | .brackets _ => "Brackets"

mutual

/-- A form as messages show it. -/
def shown : Form → String
  | .symbol name => "Symbol(" ++ Text.quote name ++ ")"
  | .text value => Text.quote value
  | .integer value => toString value
  | .real value => value.text
  | .list items => "[" ++ ", ".intercalate (shownAll items) ++ "]"
  | .quoted form => "Quoted(" ++ form.shown ++ ")"
  | .brackets items => "Brackets(I=[" ++ ", ".intercalate (shownAll items) ++ "])"

/-- The forms of a list as messages show them. -/
def shownAll : List Form → List String
  | [] => []
  | form :: forms => form.shown :: shownAll forms

end

end Form

end Recast
