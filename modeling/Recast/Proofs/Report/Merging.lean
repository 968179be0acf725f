import Mathlib.Data.List.Induction
import Recast.Proofs.Tables
import Recast.Runner

/-!
# Batches of units

The reports of several units are merged, one after the other.  A report of a run is *orderly*: no
name comes twice in its tables, and its statistics are counts.  On orderly reports merging is
associative (`Report.merge_assoc`), and so it does not matter how a batch of units is divided
(`Runner.runAll_append`).
-/

namespace Recast

open List

/-! ## Merging names -/

namespace Report

lemma mem_foldl_mergeName {names more : List String} {name : String} :
    name ∈ more.foldl mergeName names ↔ name ∈ names ∨ name ∈ more := by
  induction more generalizing names with
  | nil => simp
  | cons first more ih =>
    rw [foldl_cons, ih, mergeName]
    split
    · rename_i h
      constructor
      · rintro (hn | hn)
        · exact Or.inl hn
        · exact Or.inr (mem_cons_of_mem _ hn)
      · rintro (hn | hn)
        · exact Or.inl hn
        · rcases mem_cons.mp hn with rfl | hn
          · exact Or.inl h
          · exact Or.inr hn
    · simp [or_assoc]

lemma nodup_foldl_mergeName {names : List String} (h : names.Nodup) (more : List String) :
    (more.foldl mergeName names).Nodup := by
  induction more generalizing names with
  | nil => exact h
  | cons first more ih =>
    refine ih ?_
    rw [mergeName]
    split
    · exact h
    · rename_i hnew
      exact h.append (nodup_singleton first) (by simpa [disjoint_singleton] using hnew)

/-- To merge names in is to merge in what others have been merged into. -/
lemma foldl_mergeName_assoc (names more most : List String) :
    (most.foldl mergeName more).foldl mergeName names =
      most.foldl mergeName (more.foldl mergeName names) := by
  induction most generalizing more with
  | nil => rfl
  | cons first most ih =>
    rw [foldl_cons, ih, foldl_cons]
    congr 1
    by_cases h : first ∈ more
    · have hthere : first ∈ more.foldl mergeName names := mem_foldl_mergeName.mpr (Or.inr h)
      rw [mergeName, if_pos h, mergeName, if_pos hthere]
    · rw [mergeName, if_neg h, foldl_append]
      rfl

lemma foldl_mergeName_nil {names : List String} (h : names.Nodup) :
    names.foldl mergeName [] = names := by
  have happend : ∀ front, (front ++ names).Nodup →
      names.foldl mergeName front = front ++ names := by
    intro front hfront
    induction names generalizing front with
    | nil => rw [append_nil]; rfl
    | cons first names ih =>
      have hnew : first ∉ front := fun hmem =>
        (nodup_append.mp hfront).2.2 first hmem first mem_cons_self rfl
      rw [← singleton_append, ← append_assoc] at hfront ⊢
      rw [singleton_append, foldl_cons, mergeName, if_neg hnew, ih (Nodup.of_cons h) _ hfront]
  exact happend [] h

/-! ## Merging reports -/

lemma merge_byChecker (r s : Report) :
    (r.merge s).byChecker = r.byChecker.join (· ++ ·) s.byChecker := by
  have hput :
    (fun (t : Table String (List Finding)) (e : String × List Finding) => mergeFindings t e.1 e.2) =
      fun t e => t.put (· ++ ·) e.1 e.2 := by
    funext t e
    rw [mergeFindings, Table.put]
    cases t.find? e.1 <;> rfl
  rw [merge, hput, Table.join]

lemma merge_stats (r s : Report) : (r.merge s).stats = r.stats.join Stat.add s.stats := by
  have hput : (fun (t : Table String Stat) (e : String × Stat) => mergeStat t e.1 e.2) =
      fun t e => t.put Stat.add e.1 e.2 := by
    funext t e
    rw [mergeStat, Table.put]
    cases t.find? e.1 <;> rfl
  rw [merge, hput, Table.join]

/-- A statistic that is a count. -/
def IsCount (value : Stat) : Prop := ∃ n, value = .count n

/-- A table of counts, in which no key comes twice. -/
structure Counting (t : Table String Stat) : Prop where
  nodup : t.keys.Nodup
  counts : ∀ {key value}, t.find? key = some value → IsCount value

lemma counting_empty : Counting {} := ⟨nodup_nil, nofun⟩

lemma Counting.insert {t : Table String Stat} (h : Counting t) (key : String) (n : Int) :
    Counting (t.insert key (.count n)) where
  nodup := Table.nodup_keys_insert h.nodup _ _
  counts {key' value} hvalue := by
    rw [Table.find?_insert] at hvalue
    split at hvalue
    · exact ⟨n, (Option.some.inj hvalue).symm⟩
    · exact h.counts hvalue

lemma Counting.join {t s : Table String Stat} (ht : Counting t) (hs : Counting s) :
    Counting (t.join Stat.add s) where
  nodup := Table.nodup_keys_join ht.nodup s
  counts {key value} h := by
    rw [Table.find?_join _ hs.nodup] at h
    cases hkt : t.find? key with
    | none =>
      rw [hkt, Option.merge_none_left] at h
      exact hs.counts h
    | some old =>
      obtain ⟨m, rfl⟩ := ht.counts hkt
      cases hks : s.find? key with
      | none =>
        rw [hkt, hks] at h
        exact ⟨m, (Option.some.inj h).symm⟩
      | some new =>
        obtain ⟨n, rfl⟩ := hs.counts hks
        rw [hkt, hks] at h
        exact ⟨m + n, (Option.some.inj h).symm⟩

/-- **An orderly report**: no name comes twice in its tables, and its statistics are counts. -/
structure Orderly (r : Report) : Prop where
  byChecker : r.byChecker.keys.Nodup
  stats : Counting r.stats

lemma orderly_empty : Orderly {} := ⟨nodup_nil, counting_empty⟩

lemma Orderly.merge {r s : Report} (hr : r.Orderly) (hs : s.Orderly) : (r.merge s).Orderly where
  byChecker := by
    rw [merge_byChecker]
    exact Table.nodup_keys_join hr.byChecker _
  stats := by
    rw [merge_stats]
    exact hr.stats.join hs.stats

lemma add_assoc_of_isCount {a b c : Stat} (ha : IsCount a) (hb : IsCount b) (hc : IsCount c) :
    (a.add b).add c = a.add (b.add c) := by
  obtain ⟨m, rfl⟩ := ha
  obtain ⟨n, rfl⟩ := hb
  obtain ⟨k, rfl⟩ := hc
  exact congrArg Stat.count (Int.add_assoc m n k)

lemma eq_of_parts {r s : Report} (hfindings : r.findings = s.findings)
    (hbyChecker : r.byChecker = s.byChecker)
    (hstats : r.stats = s.stats) (hcheckers : r.checkers = s.checkers) : r = s := by
  cases r
  cases s
  exact (Report.mk.injEq ..).mpr ⟨hfindings, hbyChecker, hstats, hcheckers⟩

/-- **Merging is associative** on orderly reports. -/
lemma merge_assoc {r s t : Report} (hr : r.Orderly) (hs : s.Orderly) (ht : t.Orderly) :
    (r.merge s).merge t = r.merge (s.merge t) := by
  have hfindings : ((r.merge s).merge t).findings = (r.merge (s.merge t)).findings :=
    append_assoc ..
  have hbyChecker : ((r.merge s).merge t).byChecker = (r.merge (s.merge t)).byChecker := by
    simp only [merge_byChecker]
    exact Table.join_assoc (P := fun _ => True) (fun _ _ _ => append_assoc ..) hr.byChecker
      hs.byChecker ht.byChecker
      (fun _ => trivial) (fun _ => trivial) fun _ => trivial
  have hstats : ((r.merge s).merge t).stats = (r.merge (s.merge t)).stats := by
    simp only [merge_stats]
    exact Table.join_assoc add_assoc_of_isCount hr.stats.nodup hs.stats.nodup ht.stats.nodup
      hr.stats.counts hs.stats.counts
      ht.stats.counts
  have hcheckers : ((r.merge s).merge t).checkers = (r.merge (s.merge t)).checkers :=
    (foldl_mergeName_assoc ..).symm
  exact eq_of_parts hfindings hbyChecker hstats hcheckers

lemma merge_empty (r : Report) : r.merge {} = r := by
  obtain ⟨findings, byChecker, stats, checkers⟩ := r
  simp only [merge, append_nil]
  rfl

lemma empty_merge {r : Report} (h : r.Orderly) (hnames : r.checkers.Nodup) :
    ({} : Report).merge r = r :=
  eq_of_parts rfl ((merge_byChecker ..).trans (Table.empty_join h.byChecker))
    ((merge_stats ..).trans (Table.empty_join h.stats.nodup)) (foldl_mergeName_nil hnames)

/-- Nothing speaks against adding to counts. -/
lemma clash?_eq_none {r : Report} (h : r.Orderly) (s : Report) : r.clash? s = none := by
  rw [clash?, findSome?_eq_none_iff]
  intro e _
  cases hkey : r.stats.find? e.1 with
  | none => rfl
  | some old =>
    obtain ⟨n, rfl⟩ := h.stats.counts hkey
    show Stat.clash? (.count n) e.2 = none
    rw [Stat.clash?]
    split <;> rfl

end Report

/-! ## Runs -/

namespace Runner

variable (r : Runner) (names : Option (List String))

lemma orderly_checkAll (unit : CompilationUnit) (cs : List Checker) {report : Report}
    (h : report.Orderly) (s : Session) :
    ((r.checkAll unit cs report).run s).1.Orderly := by
  induction cs generalizing report s with
  | nil => exact h
  | cons c cs ih => exact ih ⟨Table.nodup_keys_insert h.byChecker _ _, h.stats.insert _ _⟩ _

lemma counting_stats {times : Table String Stat} (h : Report.Counting times) (s : Session) :
    Report.Counting (stats times s) := by
  have hfold : ∀ (es : List (String × Nat)) {t : Table String Stat}, Report.Counting t →
      Report.Counting
          (es.foldl
              (fun t e => if t.contains e.1 then t else t.insert e.1 (Stat.count e.2)) t) := by
    intro es
    induction es with
    | nil => exact fun ht => ht
    | cons e es ih =>
      intro t ht
      refine ih ?_
      dsimp only
      split
      · exact ht
      · exact ht.insert e.1 e.2
  exact (hfold s.stats.entries h).insert _ _

/-- The report of a run is orderly. -/
lemma orderly_run (unit : CompilationUnit) : (r.run unit names).1.Orderly :=
  have h := r.orderly_checkAll unit (r.select names) Report.orderly_empty (start unit)
  ⟨h.byChecker, counting_stats h.stats _⟩

lemma orderly_runAll (units : List CompilationUnit) : (r.runAll units names).Orderly := by
  have hfold : ∀ {report : Report}, report.Orderly →
      (units.foldl (fun report unit => report.merge (r.run unit names).1) report).Orderly := by
    induction units with
    | nil => exact fun h => h
    | cons unit units ih => exact fun h => ih (h.merge (r.orderly_run names unit))
  exact hfold Report.orderly_empty

lemma runAll_concat (units : List CompilationUnit) (unit : CompilationUnit) :
    r.runAll (units ++ [unit]) names = (r.runAll units names).merge (r.run unit names).1 := by
  rw [runAll, foldl_append]
  rfl

lemma nodup_checkers_runAll (units : List CompilationUnit) :
    (r.runAll units names).checkers.Nodup := by
  induction units using reverseRecOn with
  | nil => exact nodup_nil
  | append_singleton units unit ih =>
    rw [runAll_concat]
    exact Report.nodup_foldl_mergeName ih _

/-- A batch in two parts. -/
lemma runAll_append_eq (us vs : List CompilationUnit) :
    r.runAll (us ++ vs) names = (r.runAll us names).merge (r.runAll vs names) := by
  induction vs using reverseRecOn with
  | nil =>
    rw [append_nil]
    exact (Report.merge_empty _).symm
  | append_singleton vs v ih =>
    rw [← append_assoc, runAll_concat, ih, runAll_concat]
    exact Report.merge_assoc (r.orderly_runAll names us) (r.orderly_runAll names vs)
      (r.orderly_run names v)

lemma findings_runAll (units : List CompilationUnit) :
    (r.runAll units names).findings = units.flatMap fun unit => (r.run unit names).1.findings := by
  induction units using reverseRecOn with
  | nil => rfl
  | append_singleton units unit ih =>
    rw [runAll_concat, flatMap_append, flatMap_singleton, ← ih]
    rfl

/-- **Batches of units can be split and merged freely.**  The report of a batch is that of its first
part merged with that of its second part, with nothing that speaks against it.  On such reports
merging is associative, the empty report changes nothing on either side, and the findings are those
of the single units, one unit after the other. -/
theorem runAll_append (us vs ws : List CompilationUnit) :
    let report := fun units => r.runAll units names
    report (us ++ vs) = (report us).merge (report vs) ∧
    (report us).clash? (report vs) = none ∧
    ((report us).merge (report vs)).merge (report ws) =
      (report us).merge ((report vs).merge (report ws)) ∧
    ({} : Report).merge (report us) = report us ∧
    (report us).merge {} = report us ∧
    (report us).findings = us.flatMap fun unit => (r.run unit names).1.findings :=
  ⟨r.runAll_append_eq names us vs, Report.clash?_eq_none (r.orderly_runAll names us) _,
    Report.merge_assoc (r.orderly_runAll names us) (r.orderly_runAll names vs)
      (r.orderly_runAll names ws),
    Report.empty_merge (r.orderly_runAll names us) (r.nodup_checkers_runAll names us),
    Report.merge_empty _, r.findings_runAll names us⟩

end Runner

end Recast
