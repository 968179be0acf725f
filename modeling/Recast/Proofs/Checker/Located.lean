import Recast.Proofs.Checker.Findings
import Recast.Proofs.Checker.Relabeling
import Recast.Proofs.Checker.StructCasts
import Recast.Proofs.Syntax.Preorder

/-!
# Findings and their nodes

A finding says a place in a file, and two nodes may have the same place.  Here each finding comes
with the number of the node that it is about.

**Mirrored visits.**  Two walks through trees of which one is the other relabeled make visits that
mirror each other: the node is relabeled, and so are the nodes above it up to where the two trees
begin (`Visit.Mirrors`).  What is above the two trees may be different, as long as it makes no
difference to the ways through the function that encloses them.

* `HeaderMisuse.located`, `StructCast.located` — the findings of a checker, each with the number of
  its node.
* `HeaderMisuse.found_eq_located`, `StructCast.found_eq_located` — these are the findings.
* `HeaderMisuse.locate?_mirrors`, `StructCast.locate?_relabel` — what is found at nodes that mirror
  each other.
-/

namespace Recast

open List

/-! ## Located findings -/

namespace StructCast

/-- What the checker finds at a node, with the number of the node. -/
def locate? (info : Info) (n : Node) : Option (Nat × Finding) :=
  (mismatchAt? info n).map fun m => (n.id, checker.finding m.draft)

/-- **The findings of the checker for casts between structs**, each with the number of its node. -/
def located (unit : CompilationUnit) : List (Nat × Finding) :=
  unit.file.node.preorder.filterMap (locate? unit.info)

lemma found_eq_located (unit : CompilationUnit) (options : Options) :
    checker.found unit options = .ok ((located unit).map Prod.snd) := by
  show Except.ok (((filterMap _ _).map Mismatch.draft).map checker.finding) = _
  rw [filterMap_sites, located, map_map, map_filterMap, map_filterMap]
  simp only [locate?, Option.map_map, Function.comp_def]

end StructCast

/-! ## Mirrored visits -/

/-- **Two visits that mirror each other**: nodes and the nodes above them are relabeled, up to given
nodes further above. -/
def Visit.Mirrors (ρ : Relabeling) (P : Node → Prop) (outer outer' : List Node) (v v' : Visit) :
    Prop :=
  P v.node ∧ v'.node = v.node.relabel ρ ∧
    ∃ inner, (∀ n ∈ inner, P n) ∧ v.above = inner ++ outer ∧
      v'.above = inner.map (Node.relabel ρ) ++ outer'

variable {ρ : Relabeling} {P : Node → Prop} {outer outer' : List Node}

/-- Walks through a tree and the relabeled tree make visits that mirror each other. -/
lemma mirrors_visitsAll (hP : Flow.Hereditary P) {inner ns : List Node} (hinner : ∀ n ∈ inner, P n)
    (hns : ∀ n ∈ ns, P n) :
    Forall₂ (Visit.Mirrors ρ P outer outer') (visitsAll (inner ++ outer) ns)
      (visitsAll (inner.map (Node.relabel ρ) ++ outer') (ns.map (Node.relabel ρ))) := by
  induction hsize : totalSize ns using Nat.strong_induction_on generalizing inner ns with
  | _ size ih =>
    cases ns with
    | nil =>
      rw [map_nil, visitsAll, visitsAll]
      exact .nil
    | cons n ns =>
      have hn := hns n mem_cons_self
      have hsmaller := n.totalSize_children
      rw [totalSize] at hsize
      rw [map_cons, visitsAll, visitsAll, Node.children_relabel]
      refine .cons ⟨hn, rfl, inner, hinner, rfl, rfl⟩ (rel_append ?_ ?_)
      · have hcons : ∀ m ∈ n :: inner, P m := fun m hm => by
          rcases mem_cons.mp hm with rfl | hm
          · exact hn
          · exact hinner m hm
        exact ih _ (by omega) hcons (hP n hn) rfl
      · exact ih _ (by omega) hinner (fun m hm => hns m (mem_cons_of_mem n hm)) rfl

lemma enclosingFunction_append (inner outer : List Node) :
    Node.enclosingFunction (inner ++ outer) =
      (inner.find? Node.isFunction).or (Node.enclosingFunction outer) :=
  find?_append

lemma find?_isFunction_relabel (inner : List Node) :
    (inner.map (Node.relabel ρ)).find? Node.isFunction =
      (inner.find? Node.isFunction).map (Node.relabel ρ) := by
  rw [find?_map]
  congr 2
  exact funext fun n => n.isFunction_relabel ρ

/-! ## What is found at mirrored visits -/

section Mirrored

variable {μ : Ty.Matching} {binds : Nat → Nat → Prop} {unit unit' : CompilationUnit}
  {file file' : File} {budget : Int} {v v' : Visit}

/-- A located finding with the new number of its node. -/
def relocate (ρ : Relabeling) (x : Nat × Finding) : Nat × Finding := (ρ.number x.1, x.2)

/-- **What is safe at one of two mirrored visits** is safe at the other, if that is so further
above. -/
lemma HeaderMisuse.isSafe_mirrors (h : unit.info.Mirrored μ ρ P binds unit'.info)
    (hgraphs : unit.graphs = {}) (hgraphs' : unit'.graphs = {})
    (houter : ∀ n, P n → ∀ b b', binds b b' →
      isSafe unit' budget (n.mark.relabel ρ) outer' b' = isSafe unit budget n.mark outer b)
    (hv : v.Mirrors ρ P outer outer' v') {b b' : Nat} (hb : binds b b') :
    isSafe unit' budget (v.node.mark.relabel ρ) v'.above b' =
      isSafe unit budget v.node.mark v.above b := by
  obtain ⟨hn, -, inner, hinner, habove, habove'⟩ := hv
  rw [habove, habove']
  have hfn := enclosingFunction_append inner outer
  have hfn' := enclosingFunction_append (inner.map (Node.relabel ρ)) outer'
  rw [find?_isFunction_relabel] at hfn'
  cases hinside : inner.find? Node.isFunction with
  | some fn =>
    rw [hinside] at hfn hfn'
    exact isSafe_relabel h hgraphs hgraphs' hn hfn
      (hinner fn (mem_of_find?_eq_some hinside)) hfn' hb
  | none =>
    -- no function in between: what encloses both is further above
    rw [hinside] at hfn hfn'
    have hsame := houter v.node hn b b' hb
    rw [isSafe, isSafe] at hsame ⊢
    rwa [hfn, hfn']

/-- **What is found at one of two mirrored visits** is found at the other. -/
theorem HeaderMisuse.locate?_mirrors (h : unit.info.Mirrored μ ρ P binds unit'.info)
    (hfile : unit.file = file.numbered)
    (hfile' : unit'.file = file'.numbered) (hgraphs : unit.graphs = {})
    (hgraphs' : unit'.graphs = {}) (houter : ∀ n, P n → ∀ b b', binds b b' →
      isSafe unit' budget (n.mark.relabel ρ) outer' b' = isSafe unit budget n.mark outer b)
    (hv : v.Mirrors ρ P outer outer' v') (hwalk : v ∈ unit.file.node.walk)
    (hwalk' : v' ∈ unit'.file.node.walk) :
    locate? unit' budget v' = (locate? unit budget v).map (relocate ρ) := by
  have hsafe : ∀ b b', binds b b' →
      isSafe unit' budget (v.node.mark.relabel ρ) v'.above b' =
          isSafe unit budget v.node.mark v.above b :=
    fun b b' hb => isSafe_mirrors h hgraphs hgraphs' houter hv hb
  obtain ⟨hn, hnode, -⟩ := hv
  rw [locate?_eq hfile hwalk, locate?_eq hfile' hwalk', Option.map_map]
  obtain ⟨n, above⟩ := v
  obtain ⟨n', above'⟩ := v'
  obtain rfl : n' = n.relabel ρ := hnode
  rw [evidence?_relabel h hn hsafe]
  simp only [relocate, Function.comp_def, Node.id_relabel]

theorem StructCast.locate?_relabel {info info' : Info} {n : Node}
    (h : info.Mirrored μ ρ P binds info') (hn : P n) :
    locate? info' (n.relabel ρ) = (locate? info n).map (relocate ρ) := by
  rw [locate?, locate?, mismatchAt?_relabel h hn, Option.map_map]
  simp only [relocate, Function.comp_def, Node.id_relabel]

end Mirrored

/-- What is found at visits that belong together is the same, up to a change of what is found. -/
lemma filterMap_of_forall₂ {α α' β β' : Type} {R : α → α' → Prop} {f : α → Option β}
    {f' : α' → Option β'} {g : β → β'} {xs : List α} {xs' : List α'} (h : Forall₂ R xs xs')
    (hf : ∀ x ∈ xs, ∀ x' ∈ xs', R x x' → f' x' = (f x).map g) :
    xs'.filterMap f' = (xs.filterMap f).map g := by
  induction h with
  | nil => rfl
  | @cons x x' xs xs' hx _ ih =>
    have hrest := ih fun y hy y' hy' => hf y (mem_cons_of_mem x hy) y' (mem_cons_of_mem x' hy')
    rw [filterMap_cons, filterMap_cons, hf x mem_cons_self x' mem_cons_self hx]
    cases f x with
    | none => exact hrest
    | some b => rw [Option.map_some, map_cons, hrest]

end Recast
