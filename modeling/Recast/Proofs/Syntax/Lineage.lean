import Mathlib.Data.List.Chain
import Recast.Proofs.Syntax.Numbering

/-!
# Lines of descent

A walk with a stack of its own lists a tree in the order of the recursion, and meets every node with
its line of descent.

**Order.**  `Node.listed` lists the nodes of a tree by recursion on it: the root, and then those of
each child.  The nodes on the stack of a walk are the trees that are still to be listed
(`preorderAll_eq`).

**Lines.**  The visits of a walk are the lines of descent in the tree.  Where no two nodes have the
same number, a node has one line (`Lineage.unique`), and the nodes on it are those it belongs to
(`Lineage.mem_above_iff`), so that the first function on the way up is the innermost one around the
node (`Lineage.enclosing_eq_some_iff`).

* `Node.walk_in_preorder` — the order of a walk, the chain above each node, and the function around
  it.
-/

namespace Recast

open List

lemma Node.sizeOf_lt_of_child {n c : Node} (h : c ∈ n.children) : sizeOf c < sizeOf n := by
  have hle : ∀ ns : List Node, c ∈ ns → sizeOf c ≤ totalSize ns := by
    intro ns
    induction ns with
    | nil => exact fun h => absurd h not_mem_nil
    | cons m ns ih =>
      intro h
      rw [totalSize_cons]
      rcases mem_cons.mp h with rfl | h
      · exact Nat.le_add_right _ _
      · exact Nat.le_trans (ih h) (Nat.le_add_left _ _)
  exact Nat.lt_of_le_of_lt (hle _ h) n.totalSize_children

/-! ## Order -/

/-- The nodes of a tree by recursion: the root, and then the nodes of each child, from left to
right. -/
def Node.listed (n : Node) : List Node := n :: n.children.attach.flatMap fun c => c.1.listed
termination_by sizeOf n
decreasing_by exact Node.sizeOf_lt_of_child c.2

lemma Node.listed_eq (n : Node) : n.listed = n :: n.children.flatMap listed := by
  rw [listed, flatMap_subtype fun _ _ => rfl, unattach_attach]

/-- What is on the stack of a walk is listed from top to bottom. -/
lemma preorderAll_eq (ns : List Node) : preorderAll ns = ns.flatMap Node.listed := by
  induction ns using preorderAll.induct with
  | case1 => rw [preorderAll, flatMap_nil]
  | case2 n ns ih => rw [preorderAll, ih, flatMap_append, flatMap_cons, Node.listed_eq, cons_append]

lemma Node.preorder_eq_listed (root : Node) : root.preorder = root.listed := by
  rw [preorder_eq, preorderAll_eq, flatMap_singleton]

/-- The nodes of a tree below its root. -/
lemma Node.tail_preorder (n : Node) : n.preorder.tail = preorderAll n.children := by
  rw [preorder_eq, preorderAll, append_nil, tail_cons]

/-! ## Lines -/

/-- The nodes of a chain lead from a root down to the parent of a node. -/
structure Node.Leads (root : Node) (chain : List Node) (n : Node) : Prop where
  head : (chain ++ [n]).head? = some root
  steps : (chain ++ [n]).IsChain fun p c => c ∈ p.children

/-- The innermost function around a node: a node below it is below no function that is further
in. -/
structure Node.Innermost (root fn n : Node) : Prop where
  function : fn ∈ root.functions
  around : n ∈ fn.preorder.tail
  least : ∀ g ∈ root.functions, n ∈ g.preorder.tail → g = fn ∨ fn ∈ g.preorder.tail

namespace Lineage

variable {root n m fn : Node} {above inner : List Node}

lemma iff_leads : Lineage root n above ↔ root.Leads above.reverse n := by
  constructor
  · intro h
    refine ⟨?_, ?_⟩
    · rw [← reverse_cons, head?_reverse]
      induction h with
      | root => rfl
      | child _ _ ih => rwa [getLast?_cons_cons]
    · rw [← reverse_cons, isChain_reverse]
      exact h.isChain
  · rintro ⟨hhead, hsteps⟩
    rw [← reverse_cons, head?_reverse] at hhead
    rw [← reverse_cons, isChain_reverse] at hsteps
    induction above generalizing n with
    | nil =>
      cases hhead
      exact .root
    | cons p above ih =>
      obtain ⟨hchild, hsteps⟩ := isChain_cons_cons.mp hsteps
      exact (ih (getLast?_cons_cons ▸ hhead) hsteps).child hchild

lemma of_mem_preorder (h : n ∈ root.preorder) : ∃ above, Lineage root n above := by
  obtain ⟨v, hv, rfl⟩ := mem_map.mp (root.preorder_eq_map_walk ▸ h)
  exact ⟨v.above, Node.mem_walk_iff.mp hv⟩

lemma trans (h : Lineage root n above) (hm : Lineage n m inner) :
    Lineage root m (inner ++ above) := by
  induction hm with
  | root => exact h
  | child _ hc ih => exact ih.child hc

/-- A line of descent passes through the lines of the nodes on it. -/
lemma of_append (h : Lineage root n (inner ++ m :: above)) : Lineage root m above := by
  induction inner generalizing n with
  | nil =>
    cases h with
    | child h _ => exact h
  | cons p inner ih =>
    cases h with
    | child h _ => exact ih h

lemma sizeOf_le (h : Lineage root n above) : sizeOf n ≤ sizeOf root := by
  induction h with
  | root => exact Nat.le_refl _
  | child _ hc ih => exact Nat.le_trans (Nat.le_of_lt (Node.sizeOf_lt_of_child hc)) ih

/-- What is below a node is below one of its children. -/
lemma of_mem_tail (h : m ∈ n.preorder.tail) : ∃ c ∈ n.children, ∃ inner, Lineage c m inner := by
  rw [Node.tail_preorder, preorderAll_eq] at h
  obtain ⟨c, hc, hm⟩ := mem_flatMap.mp h
  exact ⟨c, hc, of_mem_preorder (c.preorder_eq_listed ▸ hm)⟩

lemma sizeOf_lt_of_mem_tail (h : m ∈ n.preorder.tail) : sizeOf m < sizeOf n := by
  obtain ⟨c, hc, inner, hinner⟩ := of_mem_tail h
  exact Nat.lt_of_le_of_lt hinner.sizeOf_le (Node.sizeOf_lt_of_child hc)

section Distinct

variable (hids : (root.preorder.map Node.id).Nodup)
include hids

/-- **A node has one line of descent.** -/
lemma unique (h : Lineage root n above) (h' : Lineage root n inner) : above = inner := by
  rw [Node.preorder_eq_map_walk, map_map] at hids
  have hvisit : ∀ {above}, Lineage root n above → ⟨n, above⟩ ∈ root.walk :=
    fun h => Node.mem_walk_iff.mpr h
  exact congrArg Visit.above (inj_on_of_nodup_map hids (hvisit h) (hvisit h') rfl)

/-- The nodes above a node are those it belongs to. -/
lemma mem_above_iff (h : Lineage root n above) : m ∈ above ↔ m ∈ root.preorder ∧
    n ∈ m.preorder.tail := by
  constructor
  · intro hm
    rw [Node.tail_preorder]
    exact ⟨h.mem_preorder m (mem_cons_of_mem _ hm), h.mem_preorderAll_of_above hm⟩
  · rintro ⟨hm, hn⟩
    obtain ⟨before, hbefore⟩ := of_mem_preorder hm
    obtain ⟨c, hc, inner, hinner⟩ := of_mem_tail hn
    rw [h.unique hids ((hbefore.child hc).trans hinner)]
    exact mem_append_right _ mem_cons_self

lemma mem_function_iff (h : Lineage root n above) :
    m ∈ above ∧ m.isFunction = true ↔ m ∈ root.functions ∧ n ∈ m.preorder.tail := by
  rw [h.mem_above_iff hids, Node.functions, mem_filter, and_right_comm]

lemma innermost_of_enclosing (h : Lineage root n above)
    (hfn : Node.enclosingFunction above = some fn) :
    root.Innermost fn n := by
  obtain ⟨hisFunction, inner, before, rfl, hinner⟩ := find?_eq_some_iff_append.mp hfn
  obtain ⟨hfunction, haround⟩ :=
    (h.mem_function_iff hids).mp ⟨mem_append_right inner mem_cons_self, hisFunction⟩
  refine ⟨hfunction, haround, fun g hg hn => ?_⟩
  obtain ⟨hmem, hgfn⟩ := (h.mem_function_iff hids).mpr ⟨hg, hn⟩
  rcases mem_append.mp hmem with hmem | hmem
  · exact absurd hgfn (by simpa using hinner g hmem)
  · rw [Node.tail_preorder]
    exact (mem_cons.mp hmem).imp_right h.of_append.mem_preorderAll_of_above

lemma enclosing_eq_none_iff (h : Lineage root n above) :
    Node.enclosingFunction above = none ↔ ∀ g ∈ root.functions, n ∉ g.preorder.tail := by
  rw [Node.enclosingFunction, find?_eq_none]
  constructor
  · intro hnone g hg hn
    obtain ⟨hmem, hgfn⟩ := (h.mem_function_iff hids).mpr ⟨hg, hn⟩
    exact hnone g hmem hgfn
  · intro hnone g hmem hgfn
    obtain ⟨hg, hn⟩ := (h.mem_function_iff hids).mp ⟨hmem, hgfn⟩
    exact hnone g hg hn

/-- **The first function on the way up** is the innermost one around a node. -/
lemma enclosing_eq_some_iff (h : Lineage root n above) : Node.enclosingFunction above = some fn ↔
    root.Innermost fn n := by
  refine ⟨h.innermost_of_enclosing hids, fun hfn => ?_⟩
  cases hg : Node.enclosingFunction above with
  | none => exact absurd hfn.around ((h.enclosing_eq_none_iff hids).mp hg fn hfn.function)
  | some g =>
    have hinner := h.innermost_of_enclosing hids hg
    -- Two innermost functions would each be below the other one.
    rcases hfn.least g hinner.function hinner.around with rfl | hbelow
    · rfl
    · rcases hinner.least fn hfn.function hfn.around with rfl | habove
      · rfl
      · exact absurd (sizeOf_lt_of_mem_tail habove) (Nat.lt_asymm (sizeOf_lt_of_mem_tail hbelow))

end Distinct

end Lineage

/-! ## Walks -/

/-- **A walk goes through a tree in pre-order**, with or without the nodes above, visits whatever
kinds of nodes are wanted, and meets every node with the chain from the root down to its parent.
The last function on the chain is the function around the node.  Where the nodes of the tree are
told apart, there is no other such chain, and the function is the innermost one that the node is
below. -/
theorem Node.walk_in_preorder (root : Node) (keep : Node → Bool) :
    preorderAll [root] = root.listed ∧
    (root.walk keep).map Visit.node = root.listed.filter keep ∧
    ∀ v ∈ root.walk keep,
      root.Leads v.above.reverse v.node ∧
      enclosingFunction v.above = (v.above.reverse.filter isFunction).getLast? ∧
      ((root.preorder.map Node.id).Nodup →
        (∀ chain, root.Leads chain v.node → chain = v.above.reverse) ∧
        (∀ fn, enclosingFunction v.above = some fn ↔ root.Innermost fn v.node) ∧
        (enclosingFunction v.above = none ↔ ∀ g ∈ root.functions, v.node ∉ g.preorder.tail)) := by
  refine ⟨root.preorder_eq_listed, ?_, fun v hv => ?_⟩
  · rw [walk, Visit.map_node_unfold, List.map_singleton, ← root.preorder_eq_listed, preorder]
  · rw [walk_eq_filter] at hv
    have h := mem_walk_iff.mp (List.mem_of_mem_filter hv)
    refine ⟨Lineage.iff_leads.mp h, ?_, fun hids => ⟨fun chain hchain => ?_, fun fn => ?_, ?_⟩⟩
    · rw [List.filter_reverse, List.getLast?_reverse, List.head?_filter, enclosingFunction]
    · rw [← List.reverse_reverse chain] at hchain ⊢
      rw [(Lineage.iff_leads.mpr hchain).unique hids h]
    · exact h.enclosing_eq_some_iff hids
    · exact h.enclosing_eq_none_iff hids

/-- A function literal with the given numbers and statements. -/
def Node.numberedLit (k : Nat) (stmts : List Node) : Node :=
  .funcLit ⟨k, default⟩ (.mk ⟨k + 1, default⟩ [] []) (.mk ⟨k + 2, default⟩ stmts)

/-- A return in a literal inside another one belongs to the inner literal. -/
theorem Node.walk_in_preorder_nested :
    let inner := numberedLit 4 [.ret ⟨7, default⟩ []]
    let root := numberedLit 0 [.exprStmt ⟨3, default⟩ inner]
    (root.preorder.map Node.id).Nodup ∧ root.Innermost inner (.ret ⟨7, default⟩ []) := by
  intro inner root
  have hids : (root.preorder.map Node.id).Nodup := by
    rw [preorder_eq_listed]
    simp only [listed_eq, root, inner, numberedLit, children, List.flatMap_cons, List.flatMap_nil,
      List.map_nil, List.append_nil, List.cons_append, List.nil_append, List.map_cons]
    decide
  have hvisit : Lineage root (.ret ⟨7, default⟩ []) _ :=
    Lineage.root.child (.tail _ (.head _)) |>.child (.head _) |>.child (.head _) |>.child
      (.tail _ (.head _)) |>.child (.head _)
  have hmem : (⟨_, _⟩ : Visit) ∈ root.walk := mem_walk_iff.mpr hvisit
  exact ⟨hids, (((walk_in_preorder root fun _ => true).2.2 _ hmem).2.2 hids).2.1 inner |>.mp rfl⟩

end Recast
