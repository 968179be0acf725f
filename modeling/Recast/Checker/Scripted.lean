import Recast.Checker.Basic

/-!
# Scripted checkers

A checker that does what it is told: it counts the nodes of the unit, finds what its script says,
and fails in the phase its script says.  With it one can try how a run treats the checkers in its
table.
-/

namespace Recast

/-- The phases of a checker's work. -/
inductive Phase where
  | configure
  | collect
  | diagnose
  | report
  deriving Repr, DecidableEq

/-- What a scripted checker is to do. -/
structure Script where
  name : String
  severity : Severity := .warning
  drafts : List Draft := []
  /-- The phase at whose end it fails. -/
  failsIn : Option Phase := none
  /-- What it says when it fails. -/
  message : String := ""

namespace Script

/-- Fails if a phase is the one to fail in. -/
def finish (s : Script) (phase : Phase) : Check Unit :=
  if s.failsIn = some phase then throw (.told s.message) else return

/-- The checker that follows a script.  Places in its drafts are in the unit, whatever file they
name. -/
def checker (s : Script) : Checker where
  name := s.name
  severity := s.severity
  examine unit _ := do
    s.finish .configure
    Session.count (s.name ++ "_seen") unit.file.node.preorder.length
    s.finish .collect
    s.finish .diagnose
    s.finish .report
    return s.drafts.map fun d => { d with loc := { d.loc with file := unit.name } }

end Script

end Recast
