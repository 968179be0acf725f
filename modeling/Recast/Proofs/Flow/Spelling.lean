import Mathlib.Data.List.Chain
import Recast.Flow.Graph

/-!
# What a graph spells

The sequences of nodes that control can go through in a graph.

**Positions.**  Control stands before a node of a block or at its end.  It goes over the node, or
along an edge to the start of another block.  `Graph.Spells k p t` says that control can go through
the nodes `t` from the position `p` on, along at most `k` edges.  The number of edges is what
inductions on a way through a loop go by, since a round need not go through any node.

**Ways.**  `Graph.Spelled` says the same of whole ways from the entry, block by block; `spelled_iff`
is the bridge.
-/

namespace Recast.Flow

open List

/-- A place in a graph: a block, and how many of its nodes control has gone over. -/
structure Position where
  block : Nat
  offset : Nat

/-- The place behind the next node. -/
def Position.next (p : Position) : Position := ⟨p.block, p.offset + 1⟩

namespace Graph

/-- The node behind a position. -/
def Holds (g : Graph) (p : Position) (n : Node) : Prop :=
  (g.block p.block).nodes[p.offset]? = some n

/-- A position at the end of its block, from which control can go to these blocks. -/
def EndsAt (g : Graph) (p : Position) (targets : List Nat) : Prop :=
  p.offset = (g.block p.block).nodes.length ∧ g.successors p.block = targets

/-- Control can go through these nodes from a position on, along at most so many edges. -/
inductive Spells (g : Graph) : Nat → Position → List Node → Prop where
  | stop {k p} : Spells g k p []
  | node {k p n t} : g.Holds p n → Spells g k p.next t → Spells g k p (n :: t)
  | jump {k p b t} : p.offset = (g.block p.block).nodes.length → b ∈ g.successors p.block →
      Spells g k ⟨b, 0⟩ t → Spells g (k + 1) p t

/-- **What a graph spells**: the nodes of the blocks on a way from the entry along edges, where the
last block may be cut short. -/
def Spelled (g : Graph) (t : List Node) : Prop :=
  ∃ (path : List Nat) (last : Nat) (part : List Node),
    (path ++ [last]).head? = some 0 ∧
    (path ++ [last]).IsChain (fun b c => c ∈ g.successors b) ∧
    part <+: (g.block last).nodes ∧
    t = path.flatMap (fun b => (g.block b).nodes) ++ part

variable {g : Graph} {k : Nat} {p : Position} {n : Node} {t : List Node}

/-! ## Going through a graph -/

/-- More edges never hurt. -/
lemma Spells.mono {k' : Nat} (h : g.Spells k p t) (hk : k ≤ k') : g.Spells k' p t := by
  induction h generalizing k' with
  | stop => exact .stop
  | node hn _ ih => exact .node hn (ih hk)
  | jump hp hb _ ih =>
    obtain ⟨j, rfl⟩ : ∃ j, k' = j + 1 := ⟨k' - 1, by omega⟩
    exact .jump hp hb (ih (by omega))

/-- Before a node there is nothing to do but to go over it. -/
lemma Spells.of_holds (hn : g.Holds p n) (h : g.Spells k p t) :
    t = [] ∨ ∃ u, t = n :: u ∧ g.Spells k p.next u := by
  cases h with
  | stop => exact Or.inl rfl
  | node hm ht =>
    rw [Holds, hn, Option.some.injEq] at hm
    subst hm
    exact Or.inr ⟨_, rfl, ht⟩
  | jump hp _ _ =>
    rw [Holds, hp, getElem?_eq_none le_rfl] at hn
    exact absurd hn (by simp)

/-- At the end of a block there is nothing to do but to go along an edge. -/
lemma Spells.of_endsAt {targets : List Nat} (hp : g.EndsAt p targets) (h : g.Spells k p t) :
    t = [] ∨ ∃ b ∈ targets, ∃ j, k = j + 1 ∧ g.Spells j ⟨b, 0⟩ t := by
  cases h with
  | stop => exact Or.inl rfl
  | node hn _ =>
    rw [Holds, hp.1, getElem?_eq_none le_rfl] at hn
    exact absurd hn (by simp)
  | jump _ hb ht =>
    rw [hp.2] at hb
    exact Or.inr ⟨_, hb, _, rfl, ht⟩

/-- From the end of a block control can go along any of its edges. -/
lemma EndsAt.spells {targets : List Nat} {b : Nat} (hp : g.EndsAt p targets) (hb : b ∈ targets)
    (h : g.Spells k ⟨b, 0⟩ t) : g.Spells (k + 1) p t :=
  .jump hp.1 (hp.2 ▸ hb) h

/-- From any place in a block control can go through as much of the rest of the block as it
likes. -/
lemma Spells.of_beginning (h : t <+: (g.block p.block).nodes.drop p.offset) : g.Spells k p t := by
  induction t generalizing p with
  | nil => exact .stop
  | cons n t ih =>
    obtain ⟨u, hu⟩ := h
    have hn : g.Holds p n := by
      rw [Holds, ← head?_drop, ← hu]
      rfl
    refine .node hn (ih ⟨u, ?_⟩)
    rw [Position.next, ← tail_drop, ← hu]
    rfl

/-- From any place in a block control can go through the whole rest of the block. -/
lemma Spells.append_drop (hp : p.offset ≤ (g.block p.block).nodes.length)
    (h : g.Spells k ⟨p.block, (g.block p.block).nodes.length⟩ t) :
    g.Spells k p ((g.block p.block).nodes.drop p.offset ++ t) := by
  obtain ⟨b, i⟩ := p
  obtain ⟨m, hm⟩ := Nat.exists_eq_add_of_le hp
  simp only at hm h ⊢
  clear hp
  induction m generalizing i with
  | zero =>
    rw [drop_eq_nil_of_le (by omega), nil_append]
    rwa [hm, Nat.add_zero] at h
  | succ m ih =>
    have hlt : i < (g.block b).nodes.length := by omega
    rw [drop_eq_getElem_cons hlt]
    exact .node (getElem?_eq_getElem hlt) (ih (i + 1) (by omega))

/-- What control goes through from a place in a block makes, with the part of the block before that
place, the nodes of a way. -/
lemma Spells.path (h : g.Spells k p t) :
    ∃ (path : List Nat) (last : Nat) (part : List Node),
      (path ++ [last]).head? = some p.block ∧
      (path ++ [last]).IsChain (fun b c => c ∈ g.successors b) ∧
      part <+: (g.block last).nodes ∧
      (g.block p.block).nodes.take p.offset ++ t =
        path.flatMap (fun b => (g.block b).nodes) ++ part := by
  induction h with
  | @stop k p =>
    exact ⟨[], p.block, _, rfl, .singleton _, take_prefix p.offset _, by simp⟩
  | node hn _ ih =>
    obtain ⟨path, last, part, hhead, hchain, hpart, heq⟩ := ih
    refine ⟨path, last, part, hhead, hchain, hpart, ?_⟩
    rw [← heq, Position.next, take_add_one, hn]
    simp
  | @jump k p b t hp hb _ ih =>
    obtain ⟨path, last, part, hhead, hchain, hpart, heq⟩ := ih
    refine ⟨p.block :: path, last, part, rfl, ?_, hpart, ?_⟩
    · rw [cons_append]
      refine isChain_cons.mpr ⟨?_, hchain⟩
      intro c hc
      rw [hhead, Option.mem_some] at hc
      exact hc ▸ hb
    · rw [hp, take_length, flatMap_cons, append_assoc, ← heq]
      simp

/-- The nodes of a way are what control goes through from its first block on. -/
lemma spells_of_path {path : List Nat} {b last : Nat} {part : List Node}
    (hhead : (path ++ [last]).head? = some b)
    (hchain : (path ++ [last]).IsChain (fun b c => c ∈ g.successors b))
    (hpart : part <+: (g.block last).nodes) :
    ∃ k, g.Spells k ⟨b, 0⟩ (path.flatMap (fun b => (g.block b).nodes) ++ part) := by
  induction path generalizing b with
  | nil =>
    simp only [nil_append, head?_cons, Option.some.injEq] at hhead
    subst hhead
    exact ⟨0, .of_beginning hpart⟩
  | cons c path ih =>
    simp only [cons_append, head?_cons, Option.some.injEq] at hhead
    subst hhead
    obtain ⟨hnext, hchain⟩ := isChain_cons.mp hchain
    obtain ⟨d, hd⟩ : ∃ d, (path ++ [last]).head? = some d :=
      Option.ne_none_iff_exists'.mp (by simp)
    obtain ⟨k, hk⟩ := ih hd hchain
    refine ⟨k + 1, ?_⟩
    rw [flatMap_cons, append_assoc]
    exact Spells.append_drop (p := ⟨c, 0⟩) (Nat.zero_le _) (.jump rfl (hnext d hd) hk)

/-- A graph spells what control can go through from the start of its entry. -/
lemma spelled_iff : g.Spelled t ↔ ∃ k, g.Spells k ⟨0, 0⟩ t := by
  constructor
  · rintro ⟨path, last, part, hhead, hchain, hpart, rfl⟩
    exact spells_of_path hhead hchain hpart
  · rintro ⟨k, hk⟩
    obtain ⟨path, last, part, hhead, hchain, hpart, heq⟩ := hk.path
    exact ⟨path, last, part, hhead, hchain, hpart, by simpa using heq⟩

end Graph

end Recast.Flow
