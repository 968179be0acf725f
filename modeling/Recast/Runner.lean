import Recast.Checker.Catalogue
import Recast.Report
import Recast.Suppression

/-!
# Runs

A run puts a unit to the checkers of a table, one after the other, and collects what they find in a
report.

* Names may select some checkers of the table; they run in the order of the table all the same.
* A checker that fails does not disturb the others.  One finding takes the place of its own, and
  that one is never suppressed.
* Several units are run one by one, and their reports are merged.
-/

namespace Recast

/-- How to run checkers. -/
structure Runner where
  /-- The checkers to run; all of them if there are none. -/
  table : List Checker := []
  suppressions : Suppressions := {}
  options : Options := {}

namespace Runner

/-- The checkers of a runner. -/
def checkers (r : Runner) : List Checker := if r.table.isEmpty then Checker.all else r.table

/-- The checkers that names select. -/
def select (r : Runner) : Option (List String) → List Checker
  | none => r.checkers
  | some names => r.checkers.filter (names.contains ·.name)

/-- The names that no checker has, sorted and without repetition. -/
def unknown (r : Runner) : Option (List String) → List String
  | none => []
  | some names =>
    (names.filter fun name => !r.checkers.any (·.name == name)).eraseDups.mergeSort
      fun a b => decide (a ≤ b)

/-- What there is to say about names that no checker has. -/
def selectLog (r : Runner) (names : Option (List String)) : Log :=
  match r.unknown names with
  | [] => []
  | unknown =>
    [{ channel := .checking, text := "ignoring unknown checkers: " ++ ", ".intercalate unknown }]

/-- The findings of one checker. -/
def check (r : Runner) (unit : CompilationUnit) (c : Checker) : StateM Session (List Finding) := do
  match ← (c.examine unit r.options).run with
  | .ok drafts => return r.suppressions.keep (drafts.map c.finding)
  | .error failure =>
    modify fun s => { s with log := s.log ++
      [{ channel := .checking, level := .error
         text := "checker " ++ c.name ++ " failed on " ++ unit.name }] }
    return [c.failed unit.name failure]

/-- Adds the findings of checkers to a report, from left to right. -/
def checkAll (r : Runner) (unit : CompilationUnit) : List Checker → Report → StateM Session Report
  | [], report => return report
  | c :: cs, report => do
    let found ← r.check unit c
    checkAll r unit cs (report.addChecker c.name found)

/-- The session in which the checkers of a unit start. -/
def start (unit : CompilationUnit) : Session := { cache := { graphs := unit.graphs } }

/-- The statistics of a report at the end of a session: the times that the checkers took, and what
was counted in the session.  A count gives way to a time of the same name. -/
def stats (times : Table String Stat) (s : Session) : Table String Stat :=
  let counted := s.stats.entries.foldl
    (fun t e => if t.contains e.1 then t else t.insert e.1 (Stat.count e.2)) times
  counted.insert "cfgs_built" (.count s.cache.built)

/-- Runs the checkers that names select, or all, on one unit. -/
def run (r : Runner) (unit : CompilationUnit) (names : Option (List String)) : Report × Log :=
  let (report, s) := (r.checkAll unit (r.select names) {}).run (start unit)
  let last : Log.Entry :=
    { channel := .checking, text := unit.name ++ ": " ++ toString report.findings.length ++
      " diagnostics" }
  ({ report with stats := stats report.stats s }, r.selectLog names ++ s.log ++ [last])

/-- Runs the checkers on several units, one after the other. -/
def runAll (r : Runner) (units : List CompilationUnit) (names : Option (List String)) : Report :=
  units.foldl (fun report unit => report.merge (r.run unit names).1) {}

end Runner

end Recast
