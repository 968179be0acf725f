import Recast.Proofs.Checker.Findings
import Recast.Proofs.Checker.HeaderWrites
import Recast.Proofs.Flow.Budget

/-!
# Findings and the budget

How the findings of the checker for headers depend on its search budget.

A larger budget only ever finds more ways, and the same way once it finds one
(`Flow.Graph.pathTo?_mono`); so what is safe within a budget is safe within any larger one, and
fewer assignments are unsafe.  Literals have nothing to do with ways.  From one unit for each block
on, nothing changes any more.
-/

namespace Recast.HeaderMisuse

open List
open Recast.Flow

section Budgets

variable {file : File} {unit : CompilationUnit} {n n' : Int} {stmt : Mark}
  {above : List Node} {v : Visit}

/-! ## Verdicts -/

/-- What is safe within a budget is safe within any larger one. -/
lemma isSafe_mono (hle : n ≤ n') {b : Nat} (h : isSafe unit n stmt above b = true) :
    isSafe unit n' stmt above b = true := by
  rw [isSafe] at h ⊢
  cases hfn : Node.enclosingFunction above with
  | none =>
    rw [hfn] at h
    cases h
  | some fn =>
    rw [hfn] at h
    dsimp only at h ⊢
    cases hpath : (unit.graphOf fn).pathTo? stmt.id n with
    | none =>
      rw [hpath] at h
      cases h
    | some path =>
      rw [hpath] at h
      rw [Graph.pathTo?_mono hle hpath]
      exact h

/-- From one unit for each block of the function on, a larger budget makes nothing safe. -/
lemma isSafe_saturated (hle : n ≤ n')
    (hblocks : ∀ fn ∈ Node.enclosingFunction above, ((unit.graphOf fn).blocks.length : Int) ≤ n)
    (b : Nat) : isSafe unit n' stmt above b = isSafe unit n stmt above b := by
  rw [isSafe, isSafe]
  cases hfn : Node.enclosingFunction above with
  | none => rfl
  | some fn =>
    dsimp only
    rw [Graph.pathTo?_saturated (hblocks fn hfn) hle]

/-- The fewer variables are safe, the more assignments are unsafe. -/
lemma isUnsafe_of_isUnsafe
    (hsafe : ∀ b, isSafe unit n stmt above b = true → isSafe unit n' stmt above b = true)
    {targets : List Node} (h : isUnsafe unit n' stmt above targets = true) :
    isUnsafe unit n stmt above targets = true := by
  fun_induction isUnsafe unit n stmt above targets with
  | case1 sm base name targets hbase => rfl
  | case2 sm base name targets b hbase hheader =>
    rw [isUnsafe, hbase] at h
    dsimp only at h
    rw [if_pos hheader, Bool.not_eq_true'] at h
    cases hn : isSafe unit n stmt above b with
    | false => rfl
    | true => rw [hsafe b hn] at h; cases h
  | case3 sm base name targets b hbase hheader ih =>
    rw [isUnsafe, hbase] at h
    dsimp only at h
    rw [if_neg hheader] at h
    exact ih h
  | case4 sm base name targets hident =>
    rw [isUnsafe] at h
    · exact h
    · exact hident
  | case5 targets hident hselect =>
    rw [isUnsafe] at h
    · exact h
    all_goals assumption

/-- What is found at a visit within a larger budget is found within a smaller one. -/
lemma evidence?_of_evidence?
    (hsafe : ∀ m b, isSafe unit n m v.above b = true → isSafe unit n' m v.above b = true)
    {e : Evidence} (h : evidence? unit n' v = some e) : evidence? unit n v = some e := by
  obtain ⟨node, above⟩ := v
  cases node with
  | composite m type elements => exact h
  | assign m targets op values =>
    simp only [evidence?] at h ⊢
    split at h
    next hverdict => rw [if_pos (isUnsafe_of_isUnsafe (hsafe m) hverdict), h]
    next => cases h
  | _ => cases h

/-- The literals among the evidence do not depend on the budget. -/
lemma filter_evidence? (n : Int) (v : Visit) :
    (evidence? unit n v).filter Evidence.isLiteral =
      if isHeaderLiteral unit.info v.node then some (.literal v.node.loc (findingAt v.node).extra)
        else none := by
  rw [evidence?_eq]
  cases isHeaderLiteral unit.info v.node <;> cases isUnsafeAssignment unit n v <;> rfl

/-! ## Findings -/

/-- Partial functions of which one extends the other. -/
lemma filterMap_sublist {α β : Type} {f f' : α → Option β} {xs : List α}
    (h : ∀ x ∈ xs, ∀ y, f' x = some y → f x = some y) :
    (xs.filterMap f').Sublist (xs.filterMap f) := by
  induction xs with
  | nil => exact Sublist.refl _
  | cons x xs ih =>
    have hrest := ih fun y hy => h y (mem_cons_of_mem x hy)
    cases hx : f' x with
    | none =>
      rw [filterMap_cons_none hx]
      refine hrest.trans ?_
      rw [filterMap_cons]
      split
      · exact Sublist.refl _
      · exact sublist_cons_self _ _
    | some y =>
      rw [filterMap_cons_some hx, filterMap_cons_some (h x mem_cons_self y hx)]
      exact hrest.cons_cons y

/-- The function around a visited node is one of the functions of the tree. -/
lemma mem_functions {root fn : Node} (hv : v ∈ root.walk)
    (hfn : Node.enclosingFunction v.above = some fn) :
    fn ∈ root.functions :=
  mem_filter.mpr ⟨Node.above_mem_preorder hv (mem_of_find?_eq_some hfn), find?_some hfn⟩

/-- A finding about a literal. -/
def isLiteralFinding (f : Finding) : Bool := f.id == "headerLiteral"

lemma filter_findings (es : List Evidence) :
    (es.map (checker.finding ∘ Evidence.draft)).filter isLiteralFinding =
      (es.filter Evidence.isLiteral).map (checker.finding ∘ Evidence.draft) := by
  rw [filter_map]
  congr 1
  refine filter_congr fun e _ => ?_
  cases e <;> rfl

/-- **The budget of the search is monotone and saturates.**  In every graph and for every node,
either no budget is enough or there is a cost below which nothing is found and from which on the
same way is found.  Hence the findings within a larger budget are among those within a smaller one,
in the same order, the literals are the same, and all findings are once the smaller budget is one
unit for each block of the largest graph. -/
theorem found_monotone_in_budget :
    (∀ (g : Graph) (id : Nat), (∀ budget, g.pathTo? id budget = none) ∨
      ∃ k path, g.Costs id k path) ∧
    ∀ (unit : CompilationUnit) (file : File) (options options' : Options) (n n' : Int),
      unit.file = file.numbered →
      budget options = .ok n → budget options' = .ok n' → n ≤ n' →
      ∃ found found', checker.found unit options = .ok found ∧
      checker.found unit options' = .ok found' ∧
        found'.Sublist found ∧ found'.filter isLiteralFinding = found.filter isLiteralFinding ∧
        ((∀ fn ∈ unit.file.node.functions, ((unit.graphOf fn).blocks.length : Int) ≤ n) →
          found' = found) := by
  refine ⟨Graph.pathTo?_threshold, ?_⟩
  intro unit file options options' n n' hfile hn hn' hle
  refine ⟨_, _, found_eq hfile hn, found_eq hfile hn', ?_, ?_, ?_⟩
  · exact (filterMap_sublist fun v _ e => evidence?_of_evidence? fun m b => isSafe_mono hle).map _
  · rw [filter_findings, filter_findings, List.filter_filterMap, List.filter_filterMap]
    simp only [filter_evidence?]
  · intro hblocks
    have hsafe : ∀ v ∈ unit.file.node.walk, ∀ m b, isSafe unit n' m v.above b =
        isSafe unit n m v.above b :=
      fun v hv m b => isSafe_saturated hle (fun fn hfn => hblocks fn (mem_functions hv hfn)) b
    have hsame : ∀ v ∈ unit.file.node.walk, evidence? unit n' v = evidence? unit n v := by
      intro v hv
      refine Option.ext fun e =>
        ⟨evidence?_of_evidence? fun m b => ?_, evidence?_of_evidence? fun m b => ?_⟩
      · exact isSafe_mono hle
      · rw [hsafe v hv]
        exact fun h => h
    rw [List.filterMap_congr hsame]

end Budgets

/-- In the sample there is one block, so with one unit to spend the same is found as with five, and
no more than with nothing. -/
theorem found_monotone_in_budget_sample :
    let options := fun n => (⟨[("cfg_search_budget", .integer n)]⟩ : Options)
    ∃ found found₀, checker.found Sample.unit (options 1) = .ok found ∧
      checker.found Sample.unit (options 5) = .ok found ∧
      checker.found Sample.unit (options 0) = .ok found₀ ∧ found.Sublist found₀ := by
  intro options
  have hfile : Sample.unit.file = Sample.file.numbered := rfl
  obtain ⟨found₀, found, hzero, hone, hsub, -⟩ :=
    found_monotone_in_budget.2 Sample.unit _ (options 0) (options 1) 0 1 hfile rfl rfl (by decide)
  obtain ⟨found₁, found₅, hone', hfive, -, -, hsame⟩ :=
    found_monotone_in_budget.2 Sample.unit _ (options 1) (options 5) 1 5 hfile rfl rfl (by decide)
  obtain rfl := Except.ok.inj (hone.symm.trans hone')
  exact ⟨found, found₀, hone, hsame (by decide +kernel) ▸ hfive, hzero, hsub⟩

end Recast.HeaderMisuse
