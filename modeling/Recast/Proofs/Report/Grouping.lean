import Mathlib.Algebra.Order.BigOperators.Group.List
import Mathlib.Algebra.Order.Ring.Nat
import Mathlib.Data.List.Dedup
import Recast.Checker.Scripted
import Recast.Proofs.Report.Merging

/-!
# Findings by checker

A report lists all findings, and once more those of each checker by its name.  The two lists agree
as long as no checker takes the place of another one.

**Outcomes.**  `Runner.outcomes` lists what the checkers of a run find, one after the other, each
with its name.  All outcomes go into the list of findings, but of several outcomes under one name
only the last one is kept as the group of that name.

**Groups.**  A report is *grouped* if the group of every name has exactly the findings of that name,
in their order (`Report.Grouped`).  A run gives a grouped report if and only if all outcomes but the
last one of each name are empty (`Runner.grouped_run_iff`), which is so whenever the selected
checkers have different names.

* `Runner.grouped_iff_nothing_replaced` — when the report of a batch is grouped, and what the groups
  add up to.
-/

namespace Recast

open List

/-- **A grouped report**: the group of every name has the findings of that name, in their order. -/
def Report.Grouped (r : Report) : Prop :=
  ∀ name, r.ofChecker name = r.findings.filter (·.checker == name)

/-! ## Outcomes -/

/-- What a checker found, with its name. -/
abbrev Outcome := String × List Finding

namespace Outcome

/-- The findings of some outcomes, in their order. -/
def findings (os : List Outcome) : List Finding := os.flatMap Prod.snd

/-- The outcomes under a name. -/
def named (name : String) (os : List Outcome) : List Outcome := os.filter (·.1 == name)

/-- The last outcome under a name. -/
def group (name : String) (os : List Outcome) : List Finding :=
  ((named name os).getLast?.map Prod.snd).getD []

/-- Every finding has the name of its outcome. -/
def Signed (os : List Outcome) : Prop := ∀ o ∈ os, ∀ f ∈ o.2, f.checker = o.1

/-- Nothing is lost: of several outcomes under one name, only the last has findings. -/
def Kept (os : List Outcome) : Prop := ∀ name, ∀ o ∈ (named name os).dropLast, o.2 = []

variable {os : List Outcome}

lemma filter_findings (h : Signed os) (name : String) :
    (findings os).filter (·.checker == name) = findings (named name os) := by
  induction os with
  | nil => rfl
  | cons o os ih =>
    have hrest : Signed os := fun o' ho' => h o' (mem_cons_of_mem _ ho')
    have hcons : named name (o :: os) = if o.1 == name then o :: named name os else named name os :=
      filter_cons
    rw [findings, flatMap_cons, filter_append, ← findings, ih hrest, hcons]
    by_cases hname : o.1 = name
    · have hall : o.2.filter (·.checker == name) = o.2 :=
        filter_eq_self.mpr fun f hf => beq_iff_eq.mpr ((h o mem_cons_self f hf).trans hname)
      rw [hall, if_pos (beq_iff_eq.mpr hname)]
      rfl
    · have hnone : o.2.filter (·.checker == name) = [] :=
        filter_eq_nil_iff.mpr fun f hf => by simpa [h o mem_cons_self f hf] using hname
      rw [hnone, if_neg (by simpa using hname)]
      rfl

/-- The findings under a name are those of the group behind those that give way. -/
lemma findings_named (name : String) (os : List Outcome) :
    findings (named name os) = findings (named name os).dropLast ++ group name os := by
  rw [group]
  rcases eq_nil_or_concat (named name os) with hnil | ⟨front, last, hlast⟩
  · rw [hnil]
    rfl
  · rw [hlast]
    simp [findings]

lemma group_isSuffix (h : Signed os) (name : String) :
    group name os <:+ (findings os).filter (·.checker == name) := by
  rw [filter_findings h, findings_named]
  exact suffix_append _ _

lemma group_eq_iff (h : Signed os) (name : String) :
    group name os = (findings os).filter (·.checker == name) ↔
      ∀ o ∈ (named name os).dropLast, o.2 = [] := by
  rw [filter_findings h, findings_named, self_eq_append_left]
  exact flatMap_eq_nil_iff

/-- Different names leave everything in its place. -/
lemma kept_of_nodup (h : (os.map Prod.fst).Nodup) : Kept os := by
  intro name o ho
  have hcount : (named name os).length ≤ 1 := by
    have hone := nodup_iff_count_le_one.mp h name
    rwa [count, countP_map, countP_eq_length_filter] at hone
  have hlength := length_pos_of_mem ho
  rw [length_dropLast] at hlength
  omega

end Outcome

/-! ## The report of a run -/

section Run

variable (r : Runner) (unit : CompilationUnit)

/-- What checkers find one after the other, in the session that each leaves to the next. -/
def Runner.outcomes : List Checker → Session → List Outcome
  | [], _ => []
  | c :: cs, s => (c.name, ((r.check unit c).run s).1) :: outcomes cs ((r.check unit c).run s).2

/-- The outcomes of a run. -/
def Runner.runOutcomes (names : Option (List String)) : List Outcome :=
  r.outcomes unit (r.select names) (Runner.start unit)

/-- Adds an outcome to a report. -/
def Report.add (report : Report) (o : Outcome) : Report := report.addChecker o.1 o.2

namespace Runner

lemma checkAll_eq (cs : List Checker) (report : Report) (s : Session) :
    ((r.checkAll unit cs report).run s).1 = (r.outcomes unit cs s).foldl Report.add report := by
  induction cs generalizing report s with
  | nil => rfl
  | cons c cs ih => exact ih _ _

lemma map_fst_outcomes (cs : List Checker) (s : Session) :
    (r.outcomes unit cs s).map Prod.fst = cs.map Checker.name := by
  induction cs generalizing s with
  | nil => rfl
  | cons c cs ih => exact congrArg (c.name :: ·) (ih _)

/-- A checker signs what it finds, and also that it failed. -/
lemma checker_of_mem_check {c : Checker} {s : Session} {f : Finding}
    (hf : f ∈ ((r.check unit c).run s).1) :
    f.checker = c.name := by
  rw [check, StateT.run_bind] at hf
  generalize (c.examine unit r.options).run.run s = p at hf
  obtain ⟨outcome, s'⟩ := p
  cases outcome with
  | ok drafts =>
    obtain ⟨d, -, rfl⟩ := mem_map.mp (mem_of_mem_filter hf)
    rfl
  | error failure =>
    rw [mem_singleton.mp hf]
    rfl

lemma signed_outcomes (cs : List Checker) (s : Session) :
    Outcome.Signed (r.outcomes unit cs s) := by
  induction cs generalizing s with
  | nil => exact nofun
  | cons c cs ih =>
    intro o ho f hf
    rcases mem_cons.mp ho with rfl | ho
    · exact r.checker_of_mem_check unit hf
    · exact ih _ o ho f hf

end Runner

namespace Report

variable {os : List Outcome} (report : Report)

lemma findings_foldl_add :
    (os.foldl add report).findings = report.findings ++ Outcome.findings os := by
  induction os generalizing report with
  | nil => exact (append_nil _).symm
  | cons o os ih =>
    rw [foldl_cons, ih]
    exact append_assoc report.findings o.2 (Outcome.findings os)

lemma checkers_foldl_add : (os.foldl add report).checkers = report.checkers ++ os.map Prod.fst := by
  induction os generalizing report with
  | nil => exact (append_nil _).symm
  | cons o os ih =>
    rw [foldl_cons, ih, map_cons, ← singleton_append, ← append_assoc]
    rfl

/-- The last outcome under a name is kept. -/
lemma find?_foldl_add (name : String) : (os.foldl add report).byChecker.find? name =
    ((Outcome.named name os).getLast?.map Prod.snd).or (report.byChecker.find? name) := by
  induction os generalizing report with
  | nil => rfl
  | cons o os ih =>
    have hcons : Outcome.named name (o :: os) =
        if o.1 == name then o :: Outcome.named name os else Outcome.named name os := filter_cons
    have hadd : (report.add o).byChecker.find? name = if o.1 = name then some o.2
        else report.byChecker.find? name :=
      Table.find?_insert ..
    rw [foldl_cons, ih, hcons, hadd]
    by_cases hname : o.1 = name
    · rw [if_pos hname, if_pos (beq_iff_eq.mpr hname), getLast?_cons]
      cases (Outcome.named name os).getLast? <;> rfl
    · rw [if_neg hname, if_neg (by simpa using hname)]

end Report

namespace Runner

variable (names : Option (List String))

lemma findings_run_eq :
    (r.run unit names).1.findings = Outcome.findings (r.runOutcomes unit names) := by
  show ((r.checkAll unit (r.select names) {}).run (start unit)).1.findings = _
  rw [checkAll_eq, Report.findings_foldl_add]
  rfl

lemma checkers_run : (r.run unit names).1.checkers = (r.runOutcomes unit names).map Prod.fst := by
  show ((r.checkAll unit (r.select names) {}).run (start unit)).1.checkers = _
  rw [checkAll_eq, Report.checkers_foldl_add]
  rfl

lemma find?_byChecker_run (name : String) : (r.run unit names).1.byChecker.find? name =
    (Outcome.named name (r.runOutcomes unit names)).getLast?.map Prod.snd := by
  show ((r.checkAll unit (r.select names) {}).run (start unit)).1.byChecker.find? name = _
  rw [checkAll_eq, Report.find?_foldl_add, Table.find?_empty, Option.or_none]
  rfl

lemma ofChecker_run (name : String) :
    (r.run unit names).1.ofChecker name = Outcome.group name (r.runOutcomes unit names) := by
  rw [Report.ofChecker, find?_byChecker_run, Outcome.group]

/-- **When the report of one unit is grouped.** -/
lemma grouped_run_iff : (r.run unit names).1.Grouped ↔ Outcome.Kept (r.runOutcomes unit names) := by
  refine forall_congr' fun name => ?_
  rw [ofChecker_run, findings_run_eq]
  exact Outcome.group_eq_iff (r.signed_outcomes unit _ _) name

lemma kept_runOutcomes (h : ((r.select names).map Checker.name).Nodup) :
    Outcome.Kept (r.runOutcomes unit names) :=
  Outcome.kept_of_nodup (by rwa [runOutcomes, map_fst_outcomes])

end Runner

end Run

/-! ## Batches -/

/-- Lists put together from ends of others are those put together from the others only if each is
the whole. -/
lemma flatMap_eq_iff_of_suffix {α β : Type} {f g : α → List β} {xs : List α}
    (h : ∀ x ∈ xs, f x <:+ g x) :
    xs.flatMap f = xs.flatMap g ↔ ∀ x ∈ xs, f x = g x := by
  refine ⟨fun heq => ?_, fun heq => flatMap_congr heq⟩
  induction xs with
  | nil => exact nofun
  | cons x xs ih =>
    obtain ⟨hx, hxs⟩ := forall_mem_cons.mp h
    have hlength : (xs.flatMap f).length ≤ (xs.flatMap g).length := by
      rw [length_flatMap, length_flatMap]
      exact sum_le_sum fun y hy => (hxs y hy).length_le
    rw [flatMap_cons, flatMap_cons] at heq
    have hwhole := congrArg length heq
    rw [length_append, length_append] at hwhole
    have hfirst := hx.length_le
    obtain ⟨hhead, htail⟩ := append_inj heq (by omega)
    exact forall_mem_cons.mpr ⟨hhead, ih hxs htail⟩

namespace Report

lemma ofChecker_merge (r : Report) {s : Report} (hs : s.Orderly) (name : String) :
    (r.merge s).ofChecker name = r.ofChecker name ++ s.ofChecker name := by
  rw [ofChecker, merge_byChecker, Table.find?_join _ hs.byChecker, ofChecker, ofChecker]
  cases r.byChecker.find? name <;> cases s.byChecker.find? name <;> simp

/-- Every finding is filed under a name of the report. -/
def Filed (r : Report) : Prop :=
  ∀ f ∈ r.findings, f.checker ∈ r.checkers ∧ f.checker ∈ r.byChecker.keys

lemma Filed.merge {r s : Report} (hr : r.Filed) (hs : s.Filed) (horderly : s.Orderly) :
    (r.merge s).Filed := by
  intro f hf
  rw [merge_byChecker, Table.keys_join _ horderly.byChecker, mem_append, mem_filter]
  rcases mem_append.mp hf with hf | hf
  · exact ⟨mem_foldl_mergeName.mpr (Or.inl (hr f hf).1), Or.inl (hr f hf).2⟩
  · refine ⟨mem_foldl_mergeName.mpr (Or.inr (hs f hf).1), ?_⟩
    by_cases hold : f.checker ∈ r.byChecker.keys
    · exact Or.inl hold
    · exact Or.inr ⟨(hs f hf).2, decide_eq_true hold⟩

/-- **The groups add up**: their sizes, and the numbers that a summary gives for the different
names, are together the number of findings. -/
def AddsUp (r : Report) : Prop :=
  (r.byChecker.entries.map (·.2.length)).sum = r.findings.length ∧
    (r.checkers.dedup.map fun name => (r.ofChecker name).length).sum = r.findings.length

/-- Findings are counted once if they are counted by different names, all of theirs among them. -/
lemma sum_length_filter {fs : List Finding} {names : List String} (hnodup : names.Nodup)
    (hnames : ∀ f ∈ fs, f.checker ∈ names) :
    (names.map fun name => (fs.filter (·.checker == name)).length).sum = fs.length := by
  induction fs with
  | nil => simp
  | cons f fs ih =>
    obtain ⟨hf, hfs⟩ := forall_mem_cons.mp hnames
    have hsplit : ∀ name, ((f :: fs).filter (·.checker == name)).length =
        (if name = f.checker then 1 else 0) + (fs.filter (·.checker == name)).length := by
      intro name
      rw [filter_cons]
      by_cases hname : name = f.checker
      · simp [hname, Nat.add_comm]
      · simp [hname, Ne.symm hname]
    have hone : (names.map fun name => if name = f.checker then 1 else 0).sum = 1 := by
      rw [sum_map_eq_nsmul_single f.checker _ fun name hne _ => if_neg hne,
        count_eq_one_of_mem hnodup hf]
      simp
    simp only [hsplit]
    rw [sum_map_add, hone, ih hfs, length_cons, Nat.add_comm]

lemma Grouped.addsUp {r : Report} (h : r.Grouped) (hfiled : r.Filed) (horderly : r.Orderly) :
    r.AddsUp := by
  have hentries : r.byChecker.entries.map (·.2.length) = r.byChecker.keys.map fun name =>
      (r.ofChecker name).length := by
    rw [Table.keys, map_map]
    refine map_congr_left fun e he => ?_
    rw [Function.comp_apply, ofChecker, Table.find?_of_mem horderly.byChecker he, Option.getD_some]
  constructor
  · rw [hentries]
    simp only [h _]
    exact sum_length_filter horderly.byChecker fun f hf => (hfiled f hf).2
  · simp only [h _]
    exact sum_length_filter (nodup_dedup _) fun f hf => mem_dedup.mpr (hfiled f hf).1

end Report

namespace Runner

variable (r : Runner) (names : Option (List String))

lemma filed_run (unit : CompilationUnit) : (r.run unit names).1.Filed := by
  intro f hf
  rw [findings_run_eq] at hf
  obtain ⟨o, ho, hf⟩ := mem_flatMap.mp hf
  have hname := r.signed_outcomes unit _ _ o ho f hf
  rw [checkers_run, Table.mem_keys_iff, find?_byChecker_run, hname]
  refine ⟨mem_map_of_mem ho, ?_⟩
  have hnonempty : Outcome.named o.1 (r.runOutcomes unit names) ≠ [] :=
    ne_nil_of_mem (mem_filter.mpr ⟨ho, beq_self_eq_true _⟩)
  rw [Option.isSome_map]
  exact getLast?_isSome.mpr hnonempty

lemma filed_runAll (units : List CompilationUnit) : (r.runAll units names).Filed := by
  induction units using reverseRecOn with
  | nil => exact nofun
  | append_singleton units unit ih =>
    rw [runAll_concat]
    exact ih.merge (r.filed_run names unit) (r.orderly_run names unit)

lemma ofChecker_runAll (units : List CompilationUnit) (name : String) :
    (r.runAll units names).ofChecker name =
      units.flatMap fun unit => (r.run unit names).1.ofChecker name := by
  induction units using reverseRecOn with
  | nil => rfl
  | append_singleton units unit ih =>
    rw [runAll_concat, Report.ofChecker_merge _ (r.orderly_run names unit), ih,
      flatMap_append, flatMap_singleton]

/-- A batch is grouped if the report of each unit is. -/
lemma grouped_runAll_iff (units : List CompilationUnit) :
    (r.runAll units names).Grouped ↔ ∀ unit ∈ units, (r.run unit names).1.Grouped := by
  have hname : ∀ name, (r.runAll units names).ofChecker name =
    (r.runAll units names).findings.filter (·.checker == name) ↔
      ∀ unit ∈ units, (r.run unit names).1.ofChecker name =
          (r.run unit names).1.findings.filter (·.checker == name) := by
    intro name
    rw [ofChecker_runAll, findings_runAll, filter_flatMap]
    refine flatMap_eq_iff_of_suffix fun unit _ => ?_
    rw [ofChecker_run, findings_run_eq]
    exact Outcome.group_isSuffix (r.signed_outcomes unit _ _) name
  constructor
  · intro h unit hunit name
    exact (hname name).mp (h name) unit hunit
  · intro h name
    exact (hname name).mpr fun unit hunit => h unit hunit name

/-- **When grouping loses nothing.**  The groups of a run have exactly the findings of their names,
in their order, if and only if every outcome that a later one of the same name takes the place of is
empty; and the groups of a batch do if that is so for each of its units.  It is so if the selected
checkers have different names.  Then the sizes of the groups add up to the number of findings, and
so do the numbers in the summary. -/
theorem grouped_iff_nothing_replaced (units : List CompilationUnit) :
    (∀ unit, (r.run unit names).1.Grouped ↔ Outcome.Kept (r.runOutcomes unit names)) ∧
    ((r.runAll units names).Grouped ↔ ∀ unit ∈ units, Outcome.Kept (r.runOutcomes unit names)) ∧
    (((r.select names).map Checker.name).Nodup → ∀ unit, Outcome.Kept (r.runOutcomes unit names)) ∧
    (∀ unit, (r.run unit names).1.Grouped → (r.run unit names).1.AddsUp) ∧
    ((r.runAll units names).Grouped → (r.runAll units names).AddsUp) := by
  refine ⟨fun unit => r.grouped_run_iff unit names, ?_,
    fun h unit => r.kept_runOutcomes unit names h, fun unit h => ?_, fun h => ?_⟩
  · rw [grouped_runAll_iff]
    exact forall₂_congr fun unit _ => r.grouped_run_iff unit names
  · exact h.addsUp (r.filed_run names unit) (r.orderly_run names unit)
  · exact h.addsUp (r.filed_runAll names units) (r.orderly_runAll names units)

end Runner

/-! ## Two checkers of one name -/

namespace Namesakes

/-- A checker that always finds one thing. -/
def script (id message : String) (line : Int) : Script where
  name := "dup"
  drafts := [{ id := id, message := message, loc := ⟨"", line, 1⟩ }]

def runner : Runner :=
  { table := [(script "a" "first" 1).checker, (script "b" "second" 2).checker] }

/-- A unit with nothing in it. -/
def unit : CompilationUnit := { name := "<unit>", file := ⟨{}, ⟨{}, "p"⟩, [], []⟩, info := {} }

end Namesakes

/-- Of two checkers of one name, both find something, but only what the second finds is left in the
group. -/
theorem Runner.group_replaced :
    let report := (Namesakes.runner.run Namesakes.unit none).1
    report.findings.map Finding.id = ["a", "b"] ∧ (∀ f ∈ report.findings, f.checker = "dup") ∧
    (report.ofChecker "dup").map Finding.id = ["b"] ∧ ¬report.Grouped := by
  have hfindings : (Namesakes.runner.run Namesakes.unit none).1.findings.map Finding.id =
    ["a", "b"] := by decide +kernel
  have hsigned : ∀ f ∈ (Namesakes.runner.run Namesakes.unit none).1.findings, f.checker =
    "dup" := by decide +kernel
  have hgroup : ((Namesakes.runner.run Namesakes.unit none).1.ofChecker "dup").map Finding.id =
    ["b"] := by decide +kernel
  refine ⟨hfindings, hsigned, hgroup, fun h => ?_⟩
  have hall : (Namesakes.runner.run Namesakes.unit none).1.findings.filter (·.checker == "dup") =
      (Namesakes.runner.run Namesakes.unit none).1.findings :=
    List.filter_eq_self.mpr fun f hf => beq_iff_eq.mpr (hsigned f hf)
  rw [h "dup", hall, hfindings] at hgroup
  simp at hgroup

end Recast
