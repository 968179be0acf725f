import Recast.Syntax.Node
import Recast.Text.Json

/-!
# Findings

What a checker has found: what is wrong, how serious it is, where it stands and who found it.  A
finding is written as a line in the manner of compilers, or as a JSON object on one line.
-/

namespace Recast

/-- How serious a finding is. -/
inductive Severity where
  | error
  | warning
  | style
  | portability
  | information
  deriving Repr, DecidableEq, Inhabited

namespace Severity

def all : List Severity := [.error, .warning, .style, .portability, .information]

/-- The name of a severity. -/
def name : Severity → String
  | .error => "error"
  | .warning => "warning"
  | .style => "style"
  | .portability => "portability"
  | .information => "information"

/-- The severity with this name. -/
def ofName? (s : String) : Option Severity := all.find? (·.name == s)

end Severity

/-- A place as findings show it: without the column if that is zero. -/
def Loc.brief (loc : Loc) : String :=
  if loc.column == 0 then s!"{loc.file}:{loc.line}" else loc.shown

/-- One finding of a checker. -/
structure Finding where
  /-- What kind of finding it is; suppressions go by this. -/
  id : String
  message : String
  severity : Severity
  loc : Loc
  /-- The name of the checker. -/
  checker : String := ""
  /-- Something more to say, if it is not empty. -/
  extra : String := ""
  deriving Repr, DecidableEq, Inhabited

namespace Finding

/-- A finding on one line: place, severity, message and kind. -/
def line (f : Finding) : String :=
  f.loc.brief ++ ": " ++ f.severity.name ++ ": " ++ f.message ++ " [" ++ f.id ++ "]"

/-- A value in the JSON form of a finding. -/
inductive Value where
  | number (n : Int)
  | text (s : String)
  deriving Repr, DecidableEq

/-- A value as JSON. -/
def Value.json : Value → String
  | .number n => toString n
  | .text s => Text.json s

/-- The members of a finding as a JSON object, in their order.  There is an extra member only if it
has something to say. -/
def members (f : Finding) : List (String × Value) :=
  [("file", .text f.loc.file), ("linenr", .number f.loc.line), ("column", .number f.loc.column),
    ("severity", .text f.severity.name), ("message", .text f.message), ("errorId", .text f.id),
    ("checker", .text f.checker)]
    ++ if f.extra.isEmpty then [] else [("extra", .text f.extra)]

/-- A finding as a JSON object on one line. -/
def json (f : Finding) : String :=
  "\x7b" ++ ", ".intercalate
    (f.members.map fun (name, value) => Text.json name ++ ": " ++ value.json) ++ "\x7d"

end Finding

end Recast
