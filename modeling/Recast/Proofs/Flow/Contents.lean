import Recast.Proofs.Flow.Effects

/-!
# What blocks hold

The blocks of a graph hold the nodes that have been placed, which every move of a lowering keeps
(`Progress.Holds`).

* `Graph.contents_ofFunction` — the graph of a function holds what its lowering places.
* `Graph.allNodes_ofFunction` — and these are nodes of the body.
-/

namespace Recast.Flow

open List
open Lowering

/-- The nodes of all blocks, block by block. -/
def Graph.contents (g : Graph) : List Node := g.blocks.flatMap BasicBlock.nodes

lemma Graph.contents_addBlock (g : Graph) (kind : BlockKind) :
    (g.addBlock kind).contents = g.contents := by
  simp [contents, addBlock]

lemma Graph.contents_addNode (g : Graph) {b : Nat} (n : Node) (h : b < g.blocks.length) :
    (g.addNode b n).contents.Perm (g.contents ++ [n]) := by
  obtain ⟨fn, blocks, edges⟩ := g
  show (flatMap BasicBlock.nodes (blocks.modify b _)).Perm _
  induction blocks generalizing b with
  | nil => exact absurd h (Nat.not_lt_zero b)
  | cons x xs ih =>
    cases b with
    | zero =>
      show (x.nodes ++ [n] ++ xs.flatMap BasicBlock.nodes).Perm
        (x.nodes ++ xs.flatMap BasicBlock.nodes ++ [n])
      rw [append_assoc, append_assoc]
      exact perm_append_comm.append_left _
    | succ b =>
      show (x.nodes ++ (xs.modify b _).flatMap BasicBlock.nodes).Perm
        (x.nodes ++ xs.flatMap BasicBlock.nodes ++ [n])
      rw [append_assoc]
      exact (ih (Nat.lt_of_succ_lt_succ h)).append_left _

/-- What is read off the entries of a list follows what is changed in them. -/
lemma map_modify {α β : Type} {f : α → β} {change : α → α} {change' : β → β}
    (h : ∀ x, f (change x) = change' (f x))
    (xs : List α) (i : Nat) : (xs.modify i change).map f = (xs.map f).modify i change' := by
  refine ext_getElem? fun k => ?_
  rw [getElem?_map, getElem?_modify, getElem?_modify, getElem?_map]
  cases xs[k]? with
  | none => rfl
  | some x =>
    split
    · exact congrArg some (h x)
    · rfl

lemma Graph.contents_addEdge (g : Graph) (e : Edge) : (g.addEdge e).contents = g.contents := by
  rw [contents, contents, flatMap_def, flatMap_def, addEdge, map_modify,
    map_modify, modify_id, modify_id]
  · exact fun _ => rfl
  · exact fun _ => rfl

lemma Lowering.contents_reserve (s : Lowering) (kind : BlockKind) :
    (s.reserve kind).graph.contents = s.graph.contents :=
  s.graph.contents_addBlock kind

lemma Lowering.contents_linked {s : Lowering} {b : Nat} (targets : List (Nat × EdgeKind)) :
    (s.linked b targets).graph.contents = s.graph.contents := by
  induction targets generalizing s with
  | nil => rfl
  | cons t targets ih => exact ih.trans (Graph.contents_addEdge _ _)

/-- **Placing.**  The blocks hold the nodes that have been placed. -/
def Progress.Holds (p : Progress) : Prop := p.state.graph.contents.Perm p.notes.placed

lemma Progress.Holds.move {p p' : Progress} {order : List Nat} (hp : p.Holds)
    (h : p.Ordered order) (m : Move p p') :
    p'.Holds := by
  cases m with
  | place n =>
    exact (Graph.contents_addNode _ n (h.lt _ (mem_append_left _ h.current))).trans
      (hp.append_right [n])
  | begin | finish => exact hp
  | reserve | beginSwitch =>
    rw [Holds, Lowering.contents_reserve]
    exact hp
  | beginLoop | clause =>
    refine .trans (.of_eq ((contents_linked _).trans (contents_reserve _ _))) ?_
    exact hp
  | cut =>
    refine .trans (.of_eq ((contents_reserve _ _).trans (contents_linked _))) ?_
    exact hp
  | leave | endClause | finishSwitch =>
    refine .trans (.of_eq (contents_linked _)) ?_
    exact hp
  | finishLoop =>
    refine .trans (.of_eq (contents_linked _)) ?_
    rw [Notes.add, append_nil]
    exact hp

namespace Graph

variable {fn : Node} {P : Node → Prop}

lemma mem_contents {g : Graph} {n : Node} : n ∈ g.contents ↔ ∃ b, n ∈ (g.block b).nodes := by
  rw [contents, mem_flatMap]
  constructor
  · rintro ⟨block, hblock, hn⟩
    obtain ⟨b, hb, rfl⟩ := getElem_of_mem hblock
    exact ⟨b, by rwa [Graph.block, getD_eq_getElem _ _ hb]⟩
  · rintro ⟨b, hn⟩
    by_cases hb : b < g.blocks.length
    · rw [Graph.block, getD_eq_getElem _ _ hb] at hn
      exact ⟨_, getElem_mem hb, hn⟩
    · rw [Graph.block, getD_eq_default _ _ (Nat.not_lt.mp hb)] at hn
      exact absurd hn not_mem_nil

/-- The graph of a function holds the nodes that are placed. -/
lemma contents_ofFunction (fn : Node) : (ofFunction fn).1.contents.Perm fn.bodyLowered := by
  obtain ⟨s, hs, ms⟩ := moves_ofFunction fn
  rw [← hs]
  exact (ms.invariant (I := Progress.Holds) (.of_eq (contents_addBlock _ _))
    fun h m hp => hp.move h m).1

/-- Every node of a graph has a property. -/
def AllNodes (P : Node → Prop) (g : Graph) : Prop := ∀ n ∈ g.contents, P n

/-- The nodes of a graph are nodes of the body. -/
theorem allNodes_ofFunction (hP : Inherited P) (hfn : ∀ b ∈ fn.functionBody, P (.block b)) :
    (ofFunction fn).1.AllNodes P := by
  intro n hn
  have hlowered := (contents_ofFunction fn).mem_iff.mp hn
  rw [Node.bodyLowered] at hlowered
  cases hbody : fn.functionBody with
  | none =>
    rw [hbody] at hlowered
    exact absurd hlowered not_mem_nil
  | some b =>
    obtain ⟨m, stmts⟩ := b
    rw [hbody] at hlowered
    exact forall_mem_loweredAll hP stmts (hP _ rfl (hfn _ hbody)) n hlowered

end Graph

end Recast.Flow
