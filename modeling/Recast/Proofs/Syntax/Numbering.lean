import Mathlib.Data.List.Nodup
import Recast.Syntax.Walk

/-!
# Numbers of nodes

In a numbered tree every node has the number of its place in the walk, so no two nodes have the same
number.

**Pre-order.**  A walk goes through the nodes in the order of `preorderAll`, and inductions on a
tree follow it.

**Numbering.**  To number a node is to take the next number for the node itself and then to number
its children from left to right.  `Node.numbered_eq` says so for all kinds of nodes at once; no
other proof looks at the kinds.

* `Node.mem_walk_iff` — a walk meets every node with its line of descent.
* `File.eq_of_id_eq` — nodes of a numbered tree are known by their numbers.
-/

namespace Recast

open List

/-! ## Pre-order -/

attribute [local simp] preorderAll Visit.unfold numberNodes

/-- A walk goes through the nodes in pre-order, and makes the visits that are wanted. -/
lemma Visit.map_node_unfold (keep : Node → Bool) (stack : List Visit) :
    (Visit.unfold keep stack).map Visit.node =
      (preorderAll (stack.map Visit.node)).filter keep := by
  induction stack using Visit.unfold.induct with
  | case1 => simp
  | case2 v stack ih =>
    have hchildren : (v.node.children.map (⟨·, v.node :: v.above⟩ : Node → Visit)).map Visit.node =
        v.node.children := by
      rw [map_map]
      exact map_id _
    rw [Visit.unfold, map_append, ih, map_append, hchildren, map_cons, preorderAll, filter_cons]
    split
    · rfl
    · rfl

lemma Visit.unfold_cons (v : Visit) (stack : List Visit) :
    Visit.unfold (fun _ => true) (v :: stack) =
    v :: Visit.unfold (fun _ => true) (v.node.children.map (⟨·, v.node :: v.above⟩) ++ stack) := by
  rw [Visit.unfold]
  rfl

/-- What is not wanted is left out, and nothing else changes. -/
lemma Visit.unfold_eq_filter (keep : Node → Bool) (stack : List Visit) :
    Visit.unfold keep stack = (Visit.unfold (fun _ => true) stack).filter (keep ·.node) := by
  induction stack using Visit.unfold.induct with
  | case1 => simp
  | case2 v stack ih =>
    rw [Visit.unfold, ih, unfold_cons, filter_cons]
    split
    · rfl
    · rfl

namespace Node

lemma preorder_eq (root : Node) : root.preorder = preorderAll [root] := rfl

lemma preorder_eq_map_walk (root : Node) : root.preorder = root.walk.map Visit.node := by
  rw [walk, Visit.map_node_unfold, filter_true]
  rfl

lemma walk_eq_filter (root : Node) (keep : Node → Bool) :
    root.walk keep = root.walk.filter (keep ·.node) :=
  Visit.unfold_eq_filter keep _

end Node

lemma mem_preorderAll_of_mem {ns : List Node} {n : Node} (h : n ∈ ns) : n ∈ preorderAll ns := by
  induction ns using preorderAll.induct with
  | case1 => exact absurd h not_mem_nil
  | case2 m ns ih =>
    rw [preorderAll]
    rcases mem_cons.mp h with rfl | h
    · exact mem_cons_self
    · exact mem_cons_of_mem _ (ih (mem_append_right _ h))

lemma mem_preorderAll_of_child {ns : List Node} {n c : Node} (h : n ∈ preorderAll ns)
    (hc : c ∈ n.children) :
    c ∈ preorderAll ns := by
  induction ns using preorderAll.induct with
  | case1 => simp at h
  | case2 m ns ih =>
    rw [preorderAll] at h ⊢
    rcases mem_cons.mp h with rfl | h
    · exact mem_cons_of_mem _ (mem_preorderAll_of_mem (mem_append_left _ hc))
    · exact mem_cons_of_mem _ (ih h)

lemma preorderAll_append (ns ms : List Node) :
    preorderAll (ns ++ ms) = preorderAll ns ++ preorderAll ms := by
  induction ns using preorderAll.induct with
  | case1 =>
    rw [preorderAll]
    rfl
  | case2 n ns ih => rw [cons_append, preorderAll, preorderAll, cons_append, ← ih, append_assoc]

/-- What belongs to a node of a tree belongs to the tree, in the same order. -/
lemma sublist_preorderAll {ns : List Node} {n : Node} (h : n ∈ preorderAll ns) :
    (n :: preorderAll n.children).Sublist (preorderAll ns) := by
  induction ns using preorderAll.induct with
  | case1 => simp at h
  | case2 m ns ih =>
    rw [preorderAll] at h ⊢
    rcases mem_cons.mp h with rfl | h
    · rw [preorderAll_append]
      exact (sublist_append_left _ _).cons_cons n
    · exact (ih h).cons m

namespace Node

variable {root n c : Node}

lemma self_mem_preorder (root : Node) : root ∈ root.preorder := by
  rw [preorder_eq]
  exact mem_preorderAll_of_mem mem_cons_self

/-- With a node, its children belong to a tree. -/
lemma mem_preorder_of_child (h : n ∈ root.preorder) (hc : c ∈ n.children) : c ∈ root.preorder := by
  rw [preorder_eq] at h ⊢
  exact mem_preorderAll_of_child h hc

end Node

/-- What is above a node leads from it back to the root, innermost first. -/
inductive Lineage (root : Node) : Node → List Node → Prop
  | root : Lineage root root []
  | child {n c : Node} {above : List Node} : Lineage root n above → c ∈ n.children →
      Lineage root c (n :: above)

/-- A line of descent on the stack is continued to the children. -/
lemma Visit.lineage_of_mem_unfold {root : Node} {stack : List Visit} {v : Visit}
    (hstack : ∀ w ∈ stack, Lineage root w.node w.above)
    (hv : v ∈ Visit.unfold (fun _ => true) stack) : Lineage root v.node v.above := by
  induction stack using Visit.unfold.induct with
  | case1 => simp at hv
  | case2 w stack ih =>
    rw [Visit.unfold_cons] at hv
    obtain ⟨hw, hstack⟩ := forall_mem_cons.mp hstack
    rcases mem_cons.mp hv with rfl | hv
    · exact hw
    · refine ih (forall_mem_append.mpr ⟨?_, hstack⟩) hv
      exact forall_mem_map.mpr fun c hc => hw.child hc

lemma Visit.mem_unfold_of_mem {stack : List Visit} {v : Visit} (h : v ∈ stack) :
    v ∈ Visit.unfold (fun _ => true) stack := by
  induction stack using Visit.unfold.induct with
  | case1 => exact absurd h not_mem_nil
  | case2 w stack ih =>
    rw [Visit.unfold_cons]
    rcases mem_cons.mp h with rfl | h
    · exact mem_cons_self
    · exact mem_cons_of_mem _ (ih (mem_append_right _ h))

/-- After a node its children are visited, below it. -/
lemma Visit.mem_unfold_of_child {stack : List Visit} {v : Visit} {c : Node}
    (h : v ∈ Visit.unfold (fun _ => true) stack)
    (hc : c ∈ v.node.children) : ⟨c, v.node :: v.above⟩ ∈ Visit.unfold (fun _ => true) stack := by
  induction stack using Visit.unfold.induct with
  | case1 => simp at h
  | case2 w stack ih =>
    rw [Visit.unfold_cons] at h ⊢
    rcases mem_cons.mp h with rfl | h
    · exact mem_cons_of_mem _ (Visit.mem_unfold_of_mem (mem_append_left _ (mem_map_of_mem hc)))
    · exact mem_cons_of_mem _ (ih h)

/-- **The visits of a walk** are the lines of descent in the tree. -/
theorem Node.mem_walk_iff {root : Node} {v : Visit} :
    v ∈ root.walk ↔ Lineage root v.node v.above := by
  obtain ⟨n, above⟩ := v
  refine ⟨Visit.lineage_of_mem_unfold (forall_mem_singleton.mpr .root), fun h => ?_⟩
  dsimp only at h
  induction h with
  | root => exact Visit.mem_unfold_of_mem mem_cons_self
  | child _ hc ih => exact Visit.mem_unfold_of_child ih hc

/-- Visits of a tree with distinct nodes are known by the nodes they are at. -/
lemma Visit.eq_of_id_eq {root : Node} {v w : Visit} (hdistinct : (root.preorder.map Node.id).Nodup)
    (hv : v ∈ root.walk) (hw : w ∈ root.walk) (h : v.node.id = w.node.id) : v = w := by
  rw [Node.preorder_eq_map_walk, map_map] at hdistinct
  exact inj_on_of_nodup_map hdistinct hv hw h

namespace Lineage

variable {root n a : Node} {above : List Node}

lemma mem_preorder (h : Lineage root n above) : ∀ a ∈ n :: above, a ∈ root.preorder := by
  induction h with
  | root => exact forall_mem_singleton.mpr root.self_mem_preorder
  | child _ hc ih =>
    exact forall_mem_cons.mpr ⟨Node.mem_preorder_of_child (ih _ mem_cons_self) hc, ih⟩

/-- Every node above has the one before it as a child. -/
lemma isChain (h : Lineage root n above) : (n :: above).IsChain fun c p => c ∈ p.children := by
  induction h with
  | root => exact .singleton _
  | child _ hc ih => exact .cons_cons hc ih

/-- A node belongs to every node above it. -/
lemma mem_preorderAll_of_above (h : Lineage root n above) (ha : a ∈ above) :
    n ∈ preorderAll a.children := by
  induction h with
  | root => exact absurd ha not_mem_nil
  | child _ hc ih =>
    rcases mem_cons.mp ha with rfl | ha
    · exact mem_preorderAll_of_mem hc
    · exact mem_preorderAll_of_child (ih ha) hc

end Lineage

lemma Node.mem_preorder_of_walk {root : Node} {v : Visit} (hv : v ∈ root.walk) :
    v.node ∈ root.preorder :=
  (mem_walk_iff.mp hv).mem_preorder _ mem_cons_self

lemma Node.above_mem_preorder {root a : Node} {v : Visit} (hv : v ∈ root.walk) (ha : a ∈ v.above) :
    a ∈ root.preorder :=
  (mem_walk_iff.mp hv).mem_preorder a (mem_cons_of_mem _ ha)

/-! ## Numbering nodes from left to right -/

lemma numberNodes_append (ns ms : List Node) (k : Nat) :
    numberNodes (ns ++ ms) k =
      ((numberNodes ns k).1 ++ (numberNodes ms (numberNodes ns k).2).1,
        (numberNodes ms (numberNodes ns k).2).2) := by
  induction ns generalizing k with
  | nil => rfl
  | cons n ns ih =>
    have h := ih (n.numbered k).2
    rw [cons_append, numberNodes, numberNodes]
    show ((n.numbered k).1 :: (numberNodes (ns ++ ms) (n.numbered k).2).1,
      (numberNodes (ns ++ ms) (n.numbered k).2).2) = _
    rw [h]
    rfl

lemma numberNodes_toList (n : Option Node) (k : Nat) :
    numberNodes n.toList k = ((numberOption n k).1.toList, (numberOption n k).2) := by
  cases n with
  | none => rfl
  | some n => rfl

/-- Parts with a type of their own are numbered as the nodes they stand for. -/
lemma numberNodes_map {α : Type} (make : α → Node) (number : α → StateM Nat α)
    (numberAll : List α → StateM Nat (List α))
    (hmake : ∀ a k, (make a).numbered k = (make (number a k).1, (number a k).2))
    (hnil : ∀ k, numberAll [] k = ([], k))
    (hcons : ∀ a as k, numberAll (a :: as) k =
      ((number a k).1 :: (numberAll as (number a k).2).1, (numberAll as (number a k).2).2))
    (as : List α) (k : Nat) :
    numberNodes (as.map make) k = ((numberAll as k).1.map make, (numberAll as k).2) := by
  induction as generalizing k with
  | nil =>
    rw [hnil]
    rfl
  | cons a as ih =>
    rw [map_cons, numberNodes, hcons]
    show (((make a).numbered k).1 :: (numberNodes (as.map make) ((make a).numbered k).2).1,
      (numberNodes (as.map make) ((make a).numbered k).2).2) = _
    rw [hmake, ih]
    rfl

lemma numberNodes_idents (is : List Ident) (k : Nat) :
    numberNodes (is.map .ident) k =
      ((Ident.numberAll is k).1.map .ident, (Ident.numberAll is k).2) :=
  numberNodes_map .ident Ident.numbered Ident.numberAll (fun _ _ => rfl) (fun _ => rfl)
    (fun _ _ _ => rfl) is k

lemma numberNodes_imports (is : List Import) (k : Nat) :
    numberNodes (is.map .importSpec) k =
      ((Import.numberAll is k).1.map .importSpec, (Import.numberAll is k).2) :=
  numberNodes_map .importSpec Import.numbered Import.numberAll (fun _ _ => rfl) (fun _ => rfl)
    (fun _ _ _ => rfl) is k

lemma numberNodes_fields (fs : List Field) (k : Nat) :
    numberNodes (fs.map .field) k = ((numberFields fs k).1.map .field, (numberFields fs k).2) :=
  numberNodes_map .field Field.numbered numberFields (fun _ _ => rfl) (fun _ => rfl)
    (fun _ _ _ => rfl) fs k

lemma numberNodes_clauses (cs : List Clause) (k : Nat) :
    numberNodes (cs.map .clause) k = ((numberClauses cs k).1.map .clause, (numberClauses cs k).2) :=
  numberNodes_map .clause Clause.numbered numberClauses (fun _ _ => rfl) (fun _ => rfl)
    (fun _ _ _ => rfl) cs k

lemma numberNodes_guards (guards : Option (List Node)) (k : Nat) :
    numberNodes (guards.getD []) k =
      ((numberGuards guards k).1.getD [], (numberGuards guards k).2) := by
  cases guards with
  | none => rfl
  | some ns => rfl

lemma numberNodes_body (body : Option Block) (k : Nat) :
    numberNodes (body.toList.map .block) k =
      ((numberBody body k).1.toList.map .block, (numberBody body k).2) := by
  cases body with
  | none => rfl
  | some b => rfl

/-- **Numbering a node** takes the next number for the node and numbers its children. -/
theorem Node.numbered_eq (n : Node) (k : Nat) : (n.numbered k).1.id = k ∧
    ((n.numbered k).1.children, (n.numbered k).2) = numberNodes n.children (k + 1) := by
  cases n with
  | funcType x | field x | block x | clause x =>
    cases x
    refine ⟨rfl, ?_⟩
    simp only [children, numberNodes_append, numberNodes_fields,
      numberNodes_idents, numberNodes_guards]
    rfl
  | file m package imports decls =>
    refine ⟨rfl, ?_⟩
    rw [children, numberNodes_append, ← singleton_append, numberNodes_append, numberNodes_imports]
    rfl
  | _ =>
    refine ⟨rfl, ?_⟩
    simp only [children, numberNodes_append, numberNodes_toList, numberNodes_fields,
      numberNodes_idents, numberNodes_clauses, numberNodes_body]
    rfl

/-- The numbers of nodes that were numbered from left to right are consecutive, in pre-order. -/
lemma map_id_preorderAll_numberNodes (ns : List Node) (k : Nat) :
    (preorderAll (numberNodes ns k).1).map Node.id = range' k (preorderAll ns).length := by
  induction ns using preorderAll.induct generalizing k with
  | case1 =>
    rw [numberNodes]
    show (preorderAll []).map Node.id = _
    rw [preorderAll]
    rfl
  | case2 n ns ih =>
    obtain ⟨hid, hchildren⟩ := n.numbered_eq k
    have hnext : numberNodes (n.children ++ ns) (k + 1) =
        ((n.numbered k).1.children ++ (numberNodes ns (n.numbered k).2).1,
            (numberNodes ns (n.numbered k).2).2) := by
      rw [numberNodes_append, ← hchildren]
    have h := ih (k + 1)
    rw [hnext] at h
    rw [numberNodes]
    show (preorderAll ((n.numbered k).1 :: (numberNodes ns (n.numbered k).2).1)).map Node.id = _
    rw [preorderAll, map_cons, h, hid, preorderAll, length_cons, range'_succ]

/-- In a numbered tree every node has the number of its place in pre-order. -/
theorem File.map_id_preorder (f : File) :
    f.numbered.node.preorder.map Node.id = range f.node.preorder.length := by
  have h := map_id_preorderAll_numberNodes [f.node] 0
  rw [Node.preorder_eq, Node.preorder_eq, range_eq_range', ← h]
  rfl

lemma File.nodup_map_id_preorder (f : File) : (f.numbered.node.preorder.map Node.id).Nodup := by
  rw [f.map_id_preorder]
  exact nodup_range

/-- **Nodes of a numbered tree are known by their numbers.** -/
theorem File.eq_of_id_eq {f : File} {n m : Node} (hn : n ∈ f.numbered.node.preorder)
    (hm : m ∈ f.numbered.node.preorder) (h : n.id = m.id) : n = m :=
  inj_on_of_nodup_map f.nodup_map_id_preorder hn hm h

end Recast
