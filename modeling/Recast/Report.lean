import Recast.Finding
import Recast.Table

/-!
# Reports

The result of a run: all findings in order, the same by checker, the statistics and the names of the
checkers that ran.  Reports of several units are merged into one.

There is a statistic for the time each checker took.  Times are taken as zero, also where a summary
shows them.
-/

namespace Recast

/-- The value of a statistic.  The checkers only count, but a statistic may be given any value. -/
inductive Stat where
  | count (n : Int)
  | flag (b : Bool)
  | text (s : String)
  | nothing
  /-- A list, as JSON text. -/
  | list (json : String)
  /-- A dictionary, as JSON text. -/
  | dictionary (json : String)
  deriving Repr, DecidableEq, Inhabited

namespace Stat

/-- A statistic as a number; a flag counts 0 or 1. -/
def toInt? : Stat → Option Int
  | .count n => some n
  | .flag b => some (if b then 1 else 0)
  | _ => none

/-- What a statistic becomes when a value is added to it.  Two numbers give their sum, even if both
are flags; otherwise the new value takes the place of the old one. -/
def add (old new : Stat) : Stat :=
  match old.toInt?, new.toInt? with
  | some m, some n => .count (m + n)
  | _, _ => new

/-- The name of the kind of a value in messages. -/
def kind : Stat → String
  | .count _ => "int"
  | .flag _ => "bool"
  | .text _ => "str"
  | .nothing => "NoneType"
  | .list _ => "list"
  | .dictionary _ => "dict"

/-- What speaks against adding a value to a statistic: a number cannot be added to what is none. -/
def clash? (old new : Stat) : Option String :=
  if new.toInt?.isNone then none
  else
    match old with
    | .count _ | .flag _ => none
    | .text _ => some ("can only concatenate str (not \"" ++ new.kind ++ "\") to str")
    | .list _ => some ("'" ++ new.kind ++ "' object is not iterable")
    | old =>
      some ("unsupported operand type(s) for +=: '" ++ old.kind ++ "' and '" ++ new.kind ++ "'")

end Stat

/-- The result of a run. -/
structure Report where
  findings : List Finding := []
  /-- The findings of each checker. -/
  byChecker : Table String (List Finding) := {}
  stats : Table String Stat := {}
  /-- The names of the checkers that ran. -/
  checkers : List String := []
  deriving Repr, DecidableEq, Inhabited

namespace Report

/-- The findings of a severity. -/
def ofSeverity (r : Report) (s : Severity) : List Finding := r.findings.filter (·.severity == s)

/-- The findings in a file. -/
def inFile (r : Report) (file : String) : List Finding := r.findings.filter (·.loc.file == file)

/-- The findings of a kind. -/
def ofId (r : Report) (id : String) : List Finding := r.findings.filter (·.id == id)

/-- The findings of the checker with this name. -/
def ofChecker (r : Report) (name : String) : List Finding := (r.byChecker.find? name).getD []

def errorCount (r : Report) : Nat := (r.ofSeverity .error).length

def warningCount (r : Report) : Nat := (r.ofSeverity .warning).length

/-! ## Text -/

/-- All findings, one on each line. -/
def lines (r : Report) : String := "\n".intercalate (r.findings.map Finding.line)

/-- All findings as JSON objects, one on each line. -/
def jsonLines (r : Report) : String := "\n".intercalate (r.findings.map Finding.json)

/-- How many findings there are, in all and by checker. -/
def summary (r : Report) : String :=
  let head := "Checker run complete: " ++ toString r.findings.length ++
    " diagnostics (" ++ toString r.errorCount
    ++ " errors, " ++ toString r.warningCount ++ " warnings)"
  let line := fun (name : String) =>
    "  " ++ name ++ ": " ++ toString (r.ofChecker name).length ++ " findings (0.0ms)"
  "\n".intercalate (head :: r.checkers.map line)

/-! ## Putting reports together -/

/-- Adds the findings of one checker; those that a checker of the same name had on its own give way
to them, and so does its time. -/
def addChecker (r : Report) (name : String) (found : List Finding) : Report :=
  { r with
    findings := r.findings ++ found
    byChecker := r.byChecker.insert name found
    stats := r.stats.insert (name ++ "_elapsed_ms") (.count 0)
    checkers := r.checkers ++ [name] }

/-- Gives a statistic its value. -/
def setStat (r : Report) (key : String) (value : Stat) : Report :=
  { r with stats := r.stats.insert key value }

/-- Adds a value to a statistic. -/
def mergeStat (stats : Table String Stat) (key : String) (value : Stat) : Table String Stat :=
  match stats.find? key with
  | some old => stats.insert key (old.add value)
  | none => stats.insert key value

/-- Adds findings to those of a checker. -/
def mergeFindings (t : Table String (List Finding)) (name : String) (found : List Finding) :
    Table String (List Finding) :=
  t.insert name ((t.find? name).getD [] ++ found)

/-- Adds a name unless it is there. -/
def mergeName (names : List String) (name : String) : List String :=
  if name ∈ names then names else names ++ [name]

/-- What speaks against merging two reports: the first statistic of the second that cannot be
added. -/
def clash? (r s : Report) : Option String :=
  s.stats.entries.findSome? fun e => (r.stats.find? e.1).bind (·.clash? e.2)

/-- One report after another: findings are joined, statistics are added up. -/
def merge (r s : Report) : Report where
  findings := r.findings ++ s.findings
  byChecker := s.byChecker.entries.foldl (fun t e => mergeFindings t e.1 e.2) r.byChecker
  stats := s.stats.entries.foldl (fun t e => mergeStat t e.1 e.2) r.stats
  checkers := s.checkers.foldl mergeName r.checkers

end Report

end Recast
