import Recast.Form.Reader

/-!
# Malformed descriptions

Why a description cannot be read as a unit, and the words for it.  A cause that arises while the
tree is built comes with the line reached so far; a text that cannot even be read as forms has no
line.
-/

namespace Recast

/-- Why a description is refused. -/
inductive Malformed where
  /-- The text is not a sequence of forms. -/
  | unreadable (text : String) (fault : Form.Fault)
  /-- A list is needed, in some places one with a given head. -/
  | expectedList (tag : Option String) (got : Form)
  /-- A list has fewer items than its head asks for. -/
  | tooShort (least : Nat) (got : List Form)
  /-- A list has the wrong head. -/
  | expectedTag (tag : String) (got : List Form)
  /-- A symbol is needed. -/
  | expectedSymbol (got : Form)
  /-- An annotation holds something other than texts. -/
  | wantText (got : Form)
  | unknownTop (tag : String)
  | unknownStatement (tag : String)
  | unknownExpression (tag : String)
  | importPath (got : Form)
  /-- A name with a point where a plain one is needed. -/
  | dotted (name : String)
  /-- A name with nothing before, after or between its points. -/
  | incomplete (name : String)
  /-- A variable with neither a type nor a value. -/
  | bareVar
  | ifShape
  | forShape
  | switchShape
  deriving Repr

/-- A list of forms as messages show it. -/
def Form.shownList (forms : List Form) : String := (Form.list forms).shown

/-- The words for a cause. -/
def Malformed.message : Malformed → String
  | .unreadable text fault => "S-expression syntax error: " ++ fault.describe text
  | .expectedList none got => "Expected list, got " ++ got.shown
  | .expectedList (some tag) got => "Expected list (" ++ tag ++ " ...), got " ++ got.shown
  | .tooShort least got =>
    "List too short: expected at least " ++ toString least ++ " elements, got " ++
      toString got.length ++
      ": " ++ Form.shownList got
  | .expectedTag tag got => "Expected (" ++ tag ++ " ...), got " ++ Form.shownList got
  | .expectedSymbol got => "Expected symbol, got " ++ got.shapeName ++ ": " ++ got.shown
  | .wantText got => "want expects strings, got " ++ got.shown
  | .unknownTop tag => "Unknown top-level form: (" ++ tag ++ " ...)"
  | .unknownStatement tag => "Unknown statement form: (" ++ tag ++ " ...)"
  | .unknownExpression tag => "Unknown expression form: (" ++ tag ++ " ...)"
  | .importPath got => "Bad import path: " ++ got.shown
  | .dotted name => "Expected plain identifier, got " ++ Text.quote name
  | .incomplete name => "Malformed name " ++ Text.quote name
  | .bareVar => "var needs a type or a value"
  | .ifShape => "if expects a condition, a block and an optional else"
  | .forShape => "for expects (init cond post body), (cond body) or (body)"
  | .switchShape => "switch expects a tag (or _)"

/-- A refused description: the cause, the line it was found on and the file, both unknown for a text
that is not a sequence of forms. -/
structure Refusal where
  cause : Malformed
  line : Nat := 0
  file : String := ""
  deriving Repr

/-- The message of a refusal, behind its place if it has one. -/
def Refusal.message (r : Refusal) : String :=
  if r.line == 0 then r.cause.message
  else (if r.file.isEmpty then "<unit>" else r.file) ++ ":" ++ toString r.line ++
    ": " ++ r.cause.message

end Recast
