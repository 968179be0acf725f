import Recast.Checker.Scripted
import Recast.Proofs.Checker.Findings

/-!
# Runs of several checkers

The checkers of one run share a session, and one of them may fail.  None of this reaches the others:
what each contributes to the report is what it contributes when it runs alone.

**Contributions.**  `Runner.contribution` is what a checker contributes on its own: its findings
without the suppressed ones or, if it fails, the one finding that says so.

**Sharing.**  A checker *keeps apart* if its outcome does not depend on the session, as long as that
gives every function its own graph, and if it leaves the session so (`Checker.KeepsApart`).  All
checkers of the catalogue do, and so does one that follows a script, which may fail in any phase.
-/

namespace Recast

open List
open Recast.Flow

section Runs

variable {file : File} {unit : CompilationUnit} {c : Checker} {r : Runner}

/-- What a checker contributes to a report: what it finds and is not suppressed, or the finding that
it failed. -/
def Runner.contribution (r : Runner) (unit : CompilationUnit) (c : Checker) : List Finding :=
  match c.found unit r.options with
  | .ok found => r.suppressions.keep found
  | .error failure => [c.failed unit.name failure]

/-! ## Checkers that keep apart -/

/-- **Keeping apart**: the outcome is that of a run alone, and the session goes on serving the
unit. -/
def Checker.KeepsApart (c : Checker) (unit : CompilationUnit) : Prop :=
  ∀ options, Answers unit (c.examine unit options).run
    ((c.examine unit options).run.run (Runner.start unit)).1

/-- It is enough that there is one answer for all sessions. -/
lemma Checker.keepsApart_of_answers
    (h : ∀ options, ∃ outcome, Answers unit (c.examine unit options).run outcome) :
    c.KeepsApart unit := by
  intro options
  obtain ⟨outcome, houtcome⟩ := h options
  rwa [(houtcome _ (Runner.serves_start unit)).1]

/-- To count something does not concern the graphs. -/
lemma Session.Serves.counted {s : Session} (h : s.Serves unit)
    (found : List HeaderMisuse.Evidence) :
    (HeaderMisuse.counted s found).Serves unit := h

lemma HeaderMisuse.keepsApart (hfile : unit.file = file.numbered) :
    HeaderMisuse.checker.KeepsApart unit := by
  refine Checker.keepsApart_of_answers fun options => ?_
  cases hbudget : budget options with
  | error failure =>
    refine ⟨.error failure, fun s hs => ?_⟩
    rw [run_examine_error hbudget]
    exact ⟨rfl, hs⟩
  | ok n =>
    refine ⟨.ok ((unit.file.node.walk.filterMap (evidence? unit n)).map Evidence.draft),
      fun s hs => ?_⟩
    have hfound := answers_evidence n hfile (fun _ hv _ ha => Node.above_mem_preorder hv ha) s hs
    rw [run_examine hbudget]
    exact ⟨by rw [← hfound.1], hfound.2.counted _⟩

lemma StructCast.keepsApart : StructCast.checker.KeepsApart unit := fun _ _ hs => ⟨rfl, hs⟩

lemma Checker.keepsApart_of_mem_all (hfile : unit.file = file.numbered) (hc : c ∈ Checker.all) :
    c.KeepsApart unit := by
  rcases mem_cons.mp hc with rfl | hc
  · exact HeaderMisuse.keepsApart hfile
  · rw [mem_singleton.mp hc]
    exact StructCast.keepsApart

/-- A script may say that a phase fails; nothing else depends on it. -/
lemma Script.keepsApart (script : Script) : script.checker.KeepsApart unit := by
  intro options s hs
  obtain ⟨name, severity, drafts, failsIn, message⟩ := script
  match failsIn with
  | none => exact ⟨rfl, hs⟩
  | some .configure => exact ⟨rfl, hs⟩
  | some .collect => exact ⟨rfl, hs⟩
  | some .diagnose => exact ⟨rfl, hs⟩
  | some .report => exact ⟨rfl, hs⟩

/-! ## Reports -/

/-- One checker adds its contribution, in whatever session. -/
lemma Runner.answers_check (hc : c.KeepsApart unit) :
    Answers unit (r.check unit c) (r.contribution unit c) := by
  rw [check]
  refine (hc r.options).bind ?_
  rw [contribution, Checker.found]
  cases ((c.examine unit r.options).run.run (start unit)).1 with
  | ok drafts => exact answers_return _
  | error failure => exact Answers.bind (a := ()) (fun _ hs => ⟨rfl, hs⟩) (answers_return _)

/-- The checkers add their contributions from left to right. -/
lemma Runner.findings_checkAll {cs : List Checker} (hcs : ∀ c ∈ cs, c.KeepsApart unit)
    (report : Report) {s : Session} (hs : s.Serves unit) :
    ((r.checkAll unit cs report).run s).1.findings = report.findings ++
      cs.flatMap (r.contribution unit) := by
  induction cs generalizing report s with
  | nil =>
    rw [flatMap_nil, append_nil]
    rfl
  | cons c cs ih =>
    obtain ⟨hfound, hs'⟩ := answers_check (r := r) (hcs c mem_cons_self) s hs
    show ((r.checkAll unit cs (report.addChecker c.name ((r.check unit c).run s).1)).run
      ((r.check unit c).run s).2).1.findings = _
    rw [ih (fun c hc => hcs c (mem_cons_of_mem _ hc)) _ hs', hfound, flatMap_cons, ← append_assoc]
    rfl

lemma Runner.findings_run (names : Option (List String))
    (h : ∀ c ∈ r.select names, c.KeepsApart unit) :
    (r.run unit names).1.findings = (r.select names).flatMap (r.contribution unit) :=
  findings_checkAll h {} (serves_start unit)

/-- The selected checkers are those with a selected name, in the order of the table. -/
lemma Runner.select_eq (r : Runner) (names : Option (List String)) :
    r.select names = r.checkers.filter fun c => names.all (·.contains c.name) := by
  cases names with
  | none => exact (filter_true _).symm
  | some names => rfl

/-- A checker that the library knows: one of the catalogue, or one that follows a script. -/
def Checker.Known (c : Checker) : Prop := c ∈ Checker.all ∨ ∃ script : Script, c = script.checker

lemma Checker.Known.keepsApart (hc : c.Known) (hfile : unit.file = file.numbered) :
    c.KeepsApart unit := by
  rcases hc with hc | ⟨script, rfl⟩
  · exact keepsApart_of_mem_all hfile hc
  · exact script.keepsApart

lemma Runner.known_of_mem (htable : ∀ c ∈ r.table, c.Known) : ∀ c ∈ r.checkers, c.Known := by
  intro c hc
  rw [checkers] at hc
  split at hc
  · exact Or.inl hc
  · exact htable c hc

/-- **Runs are put together from runs of single checkers.**  The findings of a run are those that
the selected checkers contribute, in the order of the table.  Each contributes what it contributes
when it runs alone: what it finds and is not suppressed or, if it fails, one finding that says so,
whatever is suppressed. -/
theorem Runner.run_decomposes (r : Runner) (names : Option (List String))
    (hfile : unit.file = file.numbered) (htable : ∀ c ∈ r.table, c.Known) :
    (r.run unit names).1.findings =
      (r.checkers.filter fun c => names.all (·.contains c.name)).flatMap (r.contribution unit) ∧
    ∀ c ∈ r.checkers,
      ({ r with table := [c] }.run unit none).1.findings = r.contribution unit c ∧
      (∀ found, c.found unit r.options = .ok found →
        r.contribution unit c = r.suppressions.keep found) ∧
      ∀ failure, c.found unit r.options = .error failure → r.contribution unit c =
        [{ id := "checkerInternalError", message := "Checker '" ++ c.name ++
          "' failed: " ++ failure.message
           severity := .information, loc := ⟨unit.name, 0, 0⟩, checker := c.name }] := by
  have hknown := known_of_mem htable
  constructor
  · rw [← select_eq]
    refine findings_run names fun c hc => (hknown c ?_).keepsApart hfile
    rw [select_eq] at hc
    exact List.mem_of_mem_filter hc
  · intro c hc
    refine ⟨?_, ?_, ?_⟩
    · have hapart : ∀ d ∈ Runner.select { r with table := [c] } none, d.KeepsApart unit := by
        intro d hd
        rw [List.mem_singleton.mp hd]
        exact (hknown c hc).keepsApart hfile
      rw [findings_run none hapart]
      exact List.flatMap_singleton ..
    · intro found hfound
      rw [contribution, hfound]
    · intro failure hfailure
      rw [contribution, hfailure]
      rfl

end Runs

/-- With everything suppressed and a budget that is no number, a checker that fails is reported all
the same, once; the names that no checker has do not matter. -/
theorem Runner.run_decomposes_failing :
    let r : Runner :=
      { table := [StructCast.checker, HeaderMisuse.checker], suppressions := { everywhere := ["*"] }
        options := ⟨[("cfg_search_budget", .real .nan)]⟩ }
    (r.run HeaderMisuse.Mixed.unit
      (some ["nobody", "header-misuse", "struct-cast-size"])).1.findings =
      [{ id := "checkerInternalError"
         message := "Checker 'header-misuse' failed: cannot convert float NaN to integer"
         severity := .information, loc := ⟨"mixed", 0, 0⟩, checker := "header-misuse" }] := by
  intro r
  have htable : ∀ c ∈ r.table, c.Known := by
    intro c hc
    rcases List.mem_cons.mp hc with rfl | hc
    · exact Or.inl (List.mem_cons_of_mem _ List.mem_cons_self)
    · exact Or.inl (List.mem_singleton.mp hc ▸ List.mem_cons_self)
  have hfile : HeaderMisuse.Mixed.unit.file = HeaderMisuse.Mixed.file.numbered := rfl
  obtain ⟨hrun, hparts⟩ :=
    r.run_decomposes (some ["nobody", "header-misuse", "struct-cast-size"]) hfile htable
  have hstruct : r.contribution HeaderMisuse.Mixed.unit StructCast.checker = [] :=
    (hparts _ List.mem_cons_self).2.1 [] (congrArg Except.ok (by decide +kernel))
  have hheader := (hparts HeaderMisuse.checker (List.mem_cons_of_mem _ List.mem_cons_self)).2.2
    (.option .nan) rfl
  have hselected : (r.checkers.filter fun c =>
      (some ["nobody", "header-misuse", "struct-cast-size"]).all (·.contains c.name)) =
        [StructCast.checker, HeaderMisuse.checker] := rfl
  have hmessage : "Checker '" ++ HeaderMisuse.checker.name ++ "' failed: " ++
    Setting.Fault.nan.message =
      "Checker 'header-misuse' failed: cannot convert float NaN to integer" := by
    decide +kernel
  rw [hrun, hselected, List.flatMap_cons, List.flatMap_singleton, hstruct, hheader, List.nil_append,
    Failure.message, hmessage]
  rfl

end Recast
