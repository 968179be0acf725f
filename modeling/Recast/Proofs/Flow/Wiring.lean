import Recast.Proofs.Flow.DepthFirst
import Recast.Proofs.Flow.Effects

/-!
# How graphs are wired

What holds of the blocks and edges of every graph that is made from a function.

**Edges at blocks.**  A graph keeps its edges in one list, and each block keeps the edges at it.
Adding an edge changes the list and two blocks, so that the two accounts stay in step as long as
no edge leads to a block that is still to come: `Graph.Wired`.

**Ends of blocks.**  A block is left once, in one of the ways of `Outgoing`; only the block in
which a switch is decided gets its edges one by one.  No edge leads to the entry or to a block that
begins after a statement that never ends normally: `Progress.Tidy`.

* `Graph.wellWired_ofFunction` — all of this for the graph of a function.
-/

namespace Recast.Flow

open List
open Lowering

/-! ## Edges at blocks -/

namespace Graph

/-- **Blocks agree with the list of edges**: each knows its position, and the edges it has are those
of the list that leave it or lead to it, in the same order. -/
def Wired (g : Graph) : Prop := ∀ i b, g.blocks[i]? = some b →
  b.index = i ∧ b.successors = g.edgesOutOf i ∧ b.predecessors = g.edgesInto i

namespace Wired

variable {g : Graph}

/-- No edge is at a block that did not exist. -/
lemma addBlock (h : g.Wired) (hg : g.Joined) (kind : BlockKind) : (g.addBlock kind).Wired := by
  intro i b hb
  rcases Nat.lt_trichotomy i g.blocks.length with hi | rfl | hi
  · rw [Graph.addBlock, getElem?_append_left hi] at hb
    exact h i b hb
  · rw [Graph.addBlock, getElem?_append_right (Nat.le_refl _), Nat.sub_self] at hb
    obtain rfl := Option.some.inj hb
    refine ⟨rfl, (filter_eq_nil_iff.mpr fun e he => ?_).symm,
      (filter_eq_nil_iff.mpr fun e he => ?_).symm⟩
    · rw [beq_iff_eq]
      exact Nat.ne_of_lt (hg e he).1
    · rw [beq_iff_eq]
      exact Nat.ne_of_lt (hg e he).2
  · rw [Graph.addBlock, getElem?_eq_none] at hb
    · cases hb
    · rw [length_append, length_singleton]
      exact hi

lemma addNode (h : g.Wired) (c : Nat) (n : Node) : (g.addNode c n).Wired := by
  intro i b' hb'
  rw [Graph.addNode, getElem?_modify] at hb'
  obtain ⟨b, hb, rfl⟩ := Option.map_eq_some_iff.mp hb'
  have hwired := h i b hb
  split
  · exact hwired
  · exact hwired

lemma addEdge (h : g.Wired) (e : Edge) : (g.addEdge e).Wired := by
  intro i b'' hb''
  rw [Graph.addEdge, getElem?_modify, getElem?_modify] at hb''
  obtain ⟨b', hb', rfl⟩ := Option.map_eq_some_iff.mp hb''
  obtain ⟨b, hb, rfl⟩ := Option.map_eq_some_iff.mp hb'
  obtain ⟨hindex, hsuccessors, hpredecessors⟩ := h i b hb
  rw [edgesOutOf, edgesInto, Graph.addEdge, filter_append, filter_append, ← edgesOutOf, ← edgesInto,
    ← hsuccessors, ← hpredecessors]
  by_cases hs : e.source = i <;> by_cases ht : e.target = i <;> simp [hs, ht, hindex]

end Wired

end Graph

lemma Lowering.wired_linked {s : Lowering} {b : Nat} {targets : List (Nat × EdgeKind)}
    (h : s.graph.Wired) : (s.linked b targets).graph.Wired := by
  induction targets generalizing s with
  | nil => exact h
  | cons t targets ih => exact ih (h.addEdge _)

variable {p p' : Progress} {order : List Nat}

/-- Every move keeps the two accounts of the edges in step. -/
lemma Move.wired (m : Move p p') (h : p.Ordered order) (hp : p.state.graph.Wired) :
    p'.state.graph.Wired := by
  cases m with
  | place n => exact hp.addNode _ n
  | begin | finish => exact hp
  | reserve kind | beginSwitch => exact hp.addBlock h.joined _
  | beginLoop | clause => exact wired_linked (hp.addBlock h.joined _)
  | @cut s os ls target kind log jump =>
    refine (wired_linked hp).addBlock
      (joined_linked h.joined (h.lt _ (mem_append_left _ h.current)) fun t ht => ?_) _
    obtain ⟨b, hb, rfl⟩ := mem_map.mp ht
    obtain rfl := Option.mem_toList.mp hb
    rcases (jump.arrives h.fits).2 with hb | ⟨hb, -⟩
    · exact h.lt b (mem_append_right _ hb)
    · exact h.lt b (mem_append_left _ (h.heads b hb).1)
  | leave | finishLoop | endClause | finishSwitch => exact wired_linked hp

/-! ## Ends of blocks -/

/-- **Tidiness.**  Blocks are left in one of the ways in which a block can end, the current block is
not left yet, and no edge leads to the entry or to a block that is cut off. -/
structure Progress.Tidy (p : Progress) : Prop where
  entry : p.state.kindAt 0 = .entry
  target : ∀ e ∈ p.state.graph.edges, e.target ≠ 0 ∧ p.state.kindAt e.target ≠ .unreachable
  outgoing : ∀ b, Outgoing ((p.state.graph.edgesOutOf b).map Edge.kind)
  current : p.live = true → p.state.graph.edgesOutOf p.state.current = []
  dispatch : ∀ d ∈ dispatchesOf p.opened, ∀ e ∈ p.state.graph.edgesOutOf d, e.kind = .switchCase ∨
    e.kind = .switchDefault

namespace Effect

variable {source : Nat} {targets : List (Nat × EdgeKind)}

/-- The edges of a move come after the others that leave the block. -/
lemma edgesOutOf_source (E : Effect p p' source targets) :
    p'.state.graph.edgesOutOf source = p.state.graph.edgesOutOf source ++ targets.map fun t =>
      ⟨source, t.1, t.2⟩ := by
  rw [Graph.edgesOutOf, E.edges, filter_append]
  refine congrArg (_ ++ ·) (filter_eq_self.mpr fun e he => ?_)
  obtain ⟨t, -, rfl⟩ := mem_map.mp he
  exact beq_self_eq_true source

/-- No other block is left. -/
lemma edgesOutOf_of_ne (E : Effect p p' source targets) {b : Nat} (hb : source ≠ b) :
    p'.state.graph.edgesOutOf b = p.state.graph.edgesOutOf b := by
  rw [Graph.edgesOutOf, E.edges, filter_append]
  refine (congrArg (_ ++ ·) (filter_eq_nil_iff.mpr fun e he => ?_)).trans (append_nil _)
  obtain ⟨t, -, rfl⟩ := mem_map.mp he
  rw [beq_iff_eq]
  exact hb

/-- A block that has not been entered before the move is not left by it. -/
lemma edgesOutOf_eq_nil (E : Effect p p' source targets) (h : p.Ordered order)
    {b : Nat} (hb : b ∉ order) :
    p'.state.graph.edgesOutOf b = [] := by
  refine filter_eq_nil_iff.mpr fun e he hsource => hb ?_
  rw [beq_iff_eq] at hsource
  subst hsource
  rcases E.mem_edges he with he | ⟨hsource, ht⟩
  · exact h.source e he
  · exact hsource ▸ E.source_mem h ht

end Effect

lemma Progress.Tidy.move (hp : p.Tidy) (h : p.Ordered order) (m : Move p p') : p'.Tidy := by
  obtain ⟨source, targets, E⟩ := m.effect h.fits
  have hlt : ∀ b ∈ order, b < p.state.size := fun b hb => h.lt b (mem_append_left _ hb)
  refine ⟨(E.kind 0 (hlt 0 h.entry)).trans hp.entry, ?target, ?outgoing, ?current, ?dispatch⟩
  case target =>
    intro e he
    rcases E.mem_edges he with he | ⟨rfl, ht⟩
    · rw [E.kind _ (h.target_lt he)]
      exact hp.target e he
    · rcases E.lands ht with ⟨hw, -⟩ | ⟨hh, -⟩ | ⟨hsize, -, hkind, -⟩
      · rw [E.kind _ (h.lt _ (mem_append_right _ hw))]
        exact ⟨fun hzero => h.not_mem_waiting h.entry (hzero ▸ hw), (h.waiting _ hw).2⟩
      · obtain ⟨hmem, hloop⟩ := h.heads _ hh
        rw [E.kind _ (hlt _ hmem)]
        refine ⟨fun hzero => ?_, fun hkind => ?_⟩
        · rw [hzero, hp.entry] at hloop
          cases hloop
        · rw [hkind] at hloop
          cases hloop
      · have hpos := hlt 0 h.entry
        exact ⟨by omega, hkind⟩
  case outgoing =>
    intro b
    by_cases hb : source = b
    · subst hb
      rw [E.edgesOutOf_source, map_append, map_map]
      cases E.departs with
      | none => exact (append_nil _).symm ▸ hp.outgoing source
      | current hlive hout =>
        rw [hp.current hlive]
        exact hout
      | dispatch hd _ hswitch =>
        refine .switch fun kind hkind => ?_
        rcases mem_append.mp hkind with hkind | hkind
        · obtain ⟨e, he, rfl⟩ := mem_map.mp hkind
          exact hp.dispatch source hd.mem_dispatches e he
        · obtain ⟨t, ht, rfl⟩ := mem_map.mp hkind
          exact hswitch t ht
    · rw [E.edgesOutOf_of_ne hb]
      exact hp.outgoing b
  case current =>
    intro hlive
    rcases E.current with ⟨hsame, hkeep⟩ | hw | ⟨hsize, -⟩
    · obtain ⟨hlive, rfl⟩ := hkeep hlive
      rw [hsame, Graph.edgesOutOf, E.edges, map_nil, append_nil]
      exact hp.current hlive
    · exact E.edgesOutOf_eq_nil h fun hmem => h.not_mem_waiting hmem hw.mem_waiting
    · exact E.edgesOutOf_eq_nil h fun hmem => Nat.lt_irrefl _ (hsize ▸ hlt _ hmem)
  case dispatch =>
    intro d hd e he
    obtain ⟨hmem, hsource⟩ := mem_filter.mp he
    obtain rfl := beq_iff_eq.mp hsource
    rcases E.dispatches_new _ hd with hd | ⟨hcurrent, hlive, -, rfl⟩
    · rcases E.mem_edges hmem with hmem | ⟨hleft, ht⟩
      · exact hp.dispatch _ hd e (mem_filter.mpr ⟨hmem, hsource⟩)
      · cases E.departs with
        | none => exact absurd ht not_mem_nil
        | current hlive => exact absurd hleft.symm ((h.dispatches _ hd).2 hlive)
        | dispatch _ _ hswitch => exact hswitch _ ht
    · have hnil : p'.state.graph.edgesOutOf p.state.current = [] := by
        rw [Graph.edgesOutOf, E.edges, map_nil, append_nil]
        exact hp.current hlive
      rw [hcurrent, hnil] at he
      exact absurd he not_mem_nil

lemma Progress.tidy_start (fn : Node) : (start fn).Tidy where
  entry := rfl
  target _ he := absurd he not_mem_nil
  outgoing _ := .none
  current _ := rfl
  dispatch _ hd := absurd hd not_mem_nil

/-! ## Functions -/

namespace Graph

/-- **Well wired.**  What holds of the blocks and edges of the graph of a function. -/
structure WellWired (g : Graph) : Prop where
  /-- Every block knows its position, and its own edges are those of the list that leave it or
  lead to it, in the same order. -/
  blocks : ∀ i b, g.blocks[i]? = some b →
    b.index = i ∧ b.successors = g.edgesOutOf i ∧ b.predecessors = g.edgesInto i
  /-- Every edge joins two blocks. -/
  joined : ∀ e ∈ g.edges, e.source < g.blocks.length ∧ e.target < g.blocks.length
  /-- No edge leads to the entry. -/
  entry : (g.block 0).kind = .entry ∧ g.edgesInto 0 = []
  /-- No edge leads to a block that is cut off, so it is never reached. -/
  unreachable : ∀ b, (g.block b).kind = .unreachable → g.edgesInto b = [] ∧ b ∉ g.reachable 0
  /-- Every block ends in one of the ways in which a block can end. -/
  outgoing : ∀ b, Outgoing ((g.edgesOutOf b).map Edge.kind)

/-- A block to which no edge leads is reached from nowhere else. -/
lemma not_mem_reachable {g : Graph} (hjoined : g.Joined) (hpos : 0 < g.blocks.length) {b : Nat}
    (hb : g.edgesInto b = []) (hne : b ≠ 0) : b ∉ g.reachable 0 := by
  rw [mem_reachable_iff hjoined hpos]
  intro hreach
  rcases Relation.ReflTransGen.cases_tail hreach with heq | ⟨c, -, hleaves⟩
  · exact hne heq
  · obtain ⟨e, he, rfl⟩ := mem_map.mp hleaves
    have hmem : e ∈ g.edgesInto e.target :=
      mem_filter.mpr ⟨(mem_filter.mp he).1, beq_self_eq_true _⟩
    exact absurd (hb ▸ hmem) not_mem_nil

lemma wired_ofFunction (fn : Node) : (ofFunction fn).1.Wired := by
  obtain ⟨s, hs, ms⟩ := moves_ofFunction fn
  have hstart : (Progress.start fn).state.graph.Wired :=
    Wired.addBlock (g := { function := some fn }) (fun _ _ h => nomatch h)
      (fun _ h => nomatch h) .entry
  exact hs ▸ (ms.invariant (I := (·.state.graph.Wired)) hstart fun h m hp => m.wired h hp).1

/-- **The graph of a function is well wired.** -/
theorem wellWired_ofFunction (fn : Node) : (ofFunction fn).1.WellWired := by
  have hwired := wired_ofFunction fn
  obtain ⟨s, hs, ms⟩ := moves_ofFunction fn
  obtain ⟨htidy, order, h⟩ :=
    ms.invariant (I := Progress.Tidy) (Progress.tidy_start fn) fun h m hp => hp.move h m
  rw [← hs] at hwired ⊢
  have hinto : ∀ b, b = 0 ∨ s.kindAt b = .unreachable → s.graph.edgesInto b = [] := by
    refine fun b hb => filter_eq_nil_iff.mpr fun e he htarget => ?_
    obtain ⟨hentry, hkind⟩ := htidy.target e he
    rw [beq_iff_eq.mp htarget] at hentry hkind
    exact hb.elim hentry hkind
  refine ⟨hwired, h.joined, ⟨htidy.entry, hinto 0 (.inl rfl)⟩, fun b hb => ?_, htidy.outgoing⟩
  refine ⟨hinto b (.inr hb), not_mem_reachable h.joined (h.lt 0 (mem_append_left _ h.entry))
    (hinto b (.inr hb)) ?_⟩
  rintro rfl
  cases htidy.entry.symm.trans hb

end Graph

end Recast.Flow
