import Recast.CompilationUnit
import Recast.Finding
import Recast.Flow.Cache
import Recast.Flow.Search
import Recast.Setting

/-!
# Checkers

A checker looks at a unit and says what it finds.  What it says is a list of *drafts*; the checker's
name and, where a draft does not say otherwise, its severity are added to make findings of them, so
that every finding names the checker it comes from.

**Sessions.**  The checkers of one run share a `Session`: the graphs made so far, the statistics and
the log.  A checker may fail.  What it did to the session until then stays done.
-/

namespace Recast

/-- What the checkers of one run share. -/
structure Session where
  cache : Flow.Cache := {}
  stats : Table String Nat := {}
  log : Log := []
  deriving Inhabited

namespace Session

/-- Makes an entry in the log. -/
def note (channel : Log.Channel) (text : String) : StateM Session Unit := modify fun s =>
  { s with log := s.log ++ [{ channel := channel, text := text }] }

/-- Gives a statistic its value. -/
def count (key : String) (n : Nat) : StateM Session Unit := modify fun s =>
  { s with stats := s.stats.insert key n }

/-- The graph of a function. -/
def graphOf (fn : Node) : StateM Session Flow.Graph := modifyGet fun s =>
  let (g, cache, log) := s.cache.get fn
  (g, { s with cache := cache, log := s.log ++ log })

/-- The nodes on the way through a function to a node.  A search that runs out of budget is
noted. -/
def pathTo? (g : Flow.Graph) (target : Mark) (budget : Int) :
    StateM Session (Option (List Node)) := do
  match g.search target.id budget with
  | .found path => return some path
  | .unreachable => return none
  | .exhausted =>
    note .flow ("CFG search budget of " ++ toString budget ++ " exhausted in " ++ g.name)
    return none

end Session

/-- Why a checker cannot do its work. -/
inductive Failure where
  /-- An option is not what it has to be. -/
  | option (fault : Setting.Fault)
  /-- The checker was told to fail. -/
  | told (message : String)
  deriving Repr, DecidableEq

/-- A failure in words. -/
def Failure.message : Failure → String
  | .option fault => fault.message
  | .told message => message

/-- The work of a checker. -/
abbrev Check := ExceptT Failure (StateM Session)

/-- What a checker has found, before it is put to the checker's name. -/
structure Draft where
  id : String
  message : String
  loc : Loc
  /-- The severity, if it is not the usual one of the checker. -/
  severity : Option Severity := none
  extra : String := ""
  deriving Repr, DecidableEq, Inhabited

/-- What a checker needs to know about a unit. -/
inductive Requirement where
  | syntaxTree
  | typeInfo
  | controlFlow
  deriving Repr, DecidableEq

/-- The name of a requirement. -/
def Requirement.name : Requirement → String
  | .syntaxTree => "SYNTAX_TREE"
  | .typeInfo => "TYPE_INFO"
  | .controlFlow => "CONTROL_FLOW"

/-- A checker. -/
structure Checker where
  name : String
  description : String := ""
  /-- The kinds of its findings. -/
  ids : List String := []
  requires : List Requirement := [.syntaxTree]
  /-- The usual severity of its findings. -/
  severity : Severity := .warning
  examine : CompilationUnit → Options → Check (List Draft)

namespace Checker

/-- The finding that a draft of a checker becomes. -/
def finding (c : Checker) (d : Draft) : Finding where
  id := d.id
  message := d.message
  severity := d.severity.getD c.severity
  loc := d.loc
  checker := c.name
  extra := d.extra

/-- The finding that stands for all of a checker's findings when it fails. -/
def failed (c : Checker) (file : String) (failure : Failure) : Finding where
  id := "checkerInternalError"
  message := "Checker '" ++ c.name ++ "' failed: " ++ failure.message
  severity := .information
  loc := ⟨file, 0, 0⟩
  checker := c.name

end Checker

end Recast
