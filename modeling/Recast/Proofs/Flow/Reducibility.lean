import Mathlib.Data.List.Chain
import Recast.Proofs.Flow.DepthFirst
import Recast.Proofs.Flow.Effects

/-!
# Loops in graphs

A graph that is made from a function is cyclic only where the function has loops, and a loop is
entered at one place.

**Forward edges.**  An edge closes a loop if it is a back edge, or if `continue` takes it to the
first block of a loop.  All other edges lead forward in the order in which blocks are entered, so
there is no cycle without an edge that closes a loop.

**Regions.**  The blocks of a loop are numbered one after the other, and the first block of the loop
has the lowest number.  No edge leads from outside to any of them but the first: `Progress.Region`.
Hence every way from the entry to a block of the loop goes through the first one.

**Counting.**  When a loop is finished, one back edge is added, to its first block:
`Progress.Counted`.

* `Graph.reducible_ofFunction` — all of this for the graph of a function.
-/

namespace Recast.Flow

open List
open Lowering

variable {p p' : Progress} {order order' : List Nat} {source : Nat}
  {targets : List (Nat × EdgeKind)}

/-! ## Regions -/

/-- **Regions.**  The blocks from `first` up to `last` are entered only at the first of them, and no
more edges will lead to the others. -/
structure Progress.Region (p : Progress) (first last : Nat) : Prop where
  last_le : last ≤ p.state.size
  inside : ∀ e ∈ p.state.graph.edges, first < e.target → e.target < last →
    first ≤ e.source ∧ e.source < last
  done : ∀ b, b ∈ waitingOf p.opened ∨ b ∈ headsOf p.opened → first < b → last ≤ b

/-- A move does not lead into a region. -/
lemma Progress.Region.move {first last : Nat} (R : p.Region first last)
    (E : Effect p p' source targets) :
    p'.Region first last where
  last_le := R.last_le.trans E.size_le
  inside e he hfirst hlast := by
    have hsize := R.last_le
    rcases E.mem_edges he with he | ⟨-, ht⟩
    · exact R.inside e he hfirst hlast
    · rcases E.lands ht with ⟨hw, -⟩ | ⟨hh, -⟩ | ⟨heq, -⟩
      · have := R.done _ (.inl hw) hfirst
        omega
      · have := R.done _ (.inr hh) hfirst
        omega
      · omega
  done b hb hfirst := by
    have hsize := R.last_le
    rcases hb with hb | hb
    · rcases E.waiting_new b hb with hw | ⟨rfl, -⟩
      · exact R.done b (.inl hw) hfirst
      · exact hsize
    · rcases E.heads_new b hb with hh | ⟨rfl, -⟩
      · exact R.done b (.inr hh) hfirst
      · exact hsize

/-- Statements that have been begun one inside the other: the first block of a loop comes before all
blocks that are reserved inside it, and after all that are reserved or used around it. -/
def Stacked : List Opened → Prop
  | [] => True
  | o :: os => (∀ h ∈ headsOf (o :: os), (∀ b ∈ o.waiting, h < b) ∧ ∀ d ∈ o.dispatch, h ≤ d) ∧
    (∀ h ∈ o.head?, ∀ b, b ∈ waitingOf os ∨ b ∈ headsOf os → b < h) ∧ Stacked os

/-- **Nesting.**  While a loop is being lowered, edges to its blocks come from its blocks.  An edge
that closes a loop leads to the first block of a loop that is being lowered, or it is inside the
region of a loop that is finished. -/
structure Progress.Nested (p : Progress) : Prop where
  stacked : Stacked p.opened
  current : p.live = true → ∀ h ∈ headsOf p.opened, h ≤ p.state.current
  inside : ∀ h ∈ headsOf p.opened, ∀ e ∈ p.state.graph.edges, h < e.target → h ≤ e.source
  closing : ∀ e ∈ p.state.graph.edges, p.state.graph.Closes e → e.target ≤ e.source ∧
    (p.state.kindAt e.target).isLoop = true ∧
      (e.target ∈ headsOf p.opened ∨ ∃ last, e.source < last ∧ p.Region e.target last)

namespace Progress.Nested

/-- Edges leave blocks that are inside all loops that are being lowered. -/
lemma source_ge (hp : p.Nested) (E : Effect p p' source targets)
    {t : Nat × EdgeKind} (ht : t ∈ targets) :
    ∀ h ∈ headsOf p.opened, h ≤ source := by
  cases E.departs with
  | none => exact absurd ht not_mem_nil
  | current hlive => exact hp.current hlive
  | dispatch htop =>
    obtain ⟨o, os, hopened, hd⟩ := htop
    intro h hh
    have hstacked := hp.stacked
    rw [hopened] at hh hstacked
    exact (hstacked.1 h hh).2 source hd

end Progress.Nested

lemma Move.stacked (m : Move p p') (h : p.Ordered order) (hp : p.Nested) : Stacked p'.opened := by
  have hs := hp.stacked
  have hcurrent := hp.current
  have hheads : ∀ b ∈ headsOf p.opened, b < p.state.size :=
    fun b hb => h.lt b (mem_append_left _ (h.heads b hb).1)
  have hwaits : ∀ b ∈ waitingOf p.opened, b < p.state.size :=
    fun b hb => h.lt b (mem_append_right _ hb)
  cases m with
  | place | cut | clause | endClause => exact hs
  | finish | finishLoop | finishSwitch => exact hs.2.2
  | begin => exact ⟨fun h hh => ⟨nofun, nofun⟩, nofun, hs⟩
  | beginLoop n hkind =>
    refine ⟨fun h hh => ⟨nofun, nofun⟩, ?_, hs⟩
    rintro _ ⟨⟩ b hb
    exact hb.elim (hwaits b) (hheads b)
  | @reserve s o os ls kind =>
    refine ⟨fun h hh => ⟨fun b hb => ?_, (hs.1 h hh).2⟩, hs.2⟩
    rcases mem_append.mp hb with hb | hb
    · exact (hs.1 h hh).1 b hb
    · exact mem_singleton.mp hb ▸ hheads h hh
  | @leave s o os ls targets o' front next rest htargets hwaiting hwaiting' hloop hdispatch =>
    have hhead : o'.head? = o.head? := congrArg (Option.map Prod.snd) hloop
    have hsub : ∀ b ∈ o'.waiting, b ∈ o.waiting := by
      intro b hb
      rw [hwaiting'] at hb
      rw [hwaiting]
      exact (sublist_cons_self next rest).append_left front |>.subset hb
    rw [Stacked, headsOf_cons, hhead, hdispatch, ← headsOf_cons]
    exact ⟨fun h hh => ⟨fun b hb => (hs.1 h hh).1 b (hsub b hb), (hs.1 h hh).2⟩, hs.2⟩
  | @beginSwitch s os ls =>
    refine ⟨fun h hh => ⟨fun b hb => ?_, ?_⟩, nofun, hs⟩
    · exact mem_singleton.mp hb ▸ hheads h hh
    · rintro _ ⟨⟩
      exact hcurrent rfl h hh

/-- The loops that are being lowered stay so, unless the move finishes the innermost one. -/
lemma Move.heads (m : Move p p') : (∀ h ∈ headsOf p.opened, h ∈ headsOf p'.opened) ∨
    ∃ o head, p.opened = o :: p'.opened ∧ o.head? = some head := by
  cases m with
  | place | cut | begin | finish | reserve | beginSwitch | clause | endClause | finishSwitch =>
    exact .inl fun h hh => hh
  | beginLoop => exact .inl fun h hh => mem_cons_of_mem _ hh
  | finishLoop => exact .inr ⟨_, _, rfl, rfl⟩
  | leave o' front next rest htargets hwaiting hwaiting' hloop =>
    refine .inl fun h hh => ?_
    rw [headsOf_cons, Opened.head?, hloop]
    rwa [headsOf_cons, Opened.head?] at hh

namespace Progress.Nested

/-- The blocks of a loop that a move finishes are a region. -/
lemma region (hp : p.Nested) (h' : p'.Ordered order') (E : Effect p p' source targets)
    {o : Opened} {head : Nat} (hopened : p.opened = o :: p'.opened) (hhead : o.head? = some head) :
    p'.Region head p'.state.size where
  last_le := Nat.le_refl _
  inside e he hfirst _ := by
    have hmem : head ∈ headsOf p.opened := by
      rw [hopened, headsOf_cons, hhead]
      exact mem_cons_self
    refine ⟨?_, (h'.joined e he).1⟩
    rcases E.mem_edges he with he | ⟨rfl, ht⟩
    · exact hp.inside head hmem e he hfirst
    · exact hp.source_ge E ht head hmem
  done b hb hfirst := by
    have hs := hp.stacked
    rw [hopened] at hs
    exact absurd (hs.2.1 head hhead b hb) (Nat.lt_asymm hfirst)

lemma move (hp : p.Nested) (h : p.Ordered order) (m : Move p p') : p'.Nested := by
  obtain ⟨source, targets, E⟩ := m.effect h.fits
  have h' := h.move m
  have hlt : ∀ b ∈ headsOf p.opened, b < p.state.size :=
    fun b hb => h.lt b (mem_append_left _ (h.heads b hb).1)
  -- a loop that was being lowered still is, or its blocks are a region now
  have hstays : ∀ e ∈ p'.state.graph.edges, e.target ∈ headsOf p.opened →
      e.target ∈ headsOf p'.opened ∨ ∃ last, e.source < last ∧ p'.Region e.target last := by
    intro e he hmem
    rcases m.heads with hsub | ⟨o, head, hopened, hhead⟩
    · exact .inl (hsub _ hmem)
    · have hregion := hp.region h' E hopened hhead
      rw [hopened, headsOf_cons, hhead] at hmem
      rcases mem_cons.mp hmem with heq | hmem
      · exact .inr ⟨_, (h'.joined e he).1, heq ▸ hregion⟩
      · exact .inl hmem
  refine ⟨m.stacked h hp, ?current, ?inside, ?closing⟩
  case current =>
    intro hlive b hb
    rcases E.heads_new b hb with hb | ⟨rfl, hcurrent, -⟩
    · rcases E.current with ⟨hsame, hkeep⟩ | ⟨o, os, hopened, hw⟩ | ⟨hnew, -⟩
      · exact hsame ▸ hp.current (hkeep hlive).1 b hb
      · have hs := hp.stacked
        rw [hopened] at hs hb
        exact ((hs.1 b hb).1 _ hw).le
      · exact hnew ▸ (hlt b hb).le
    · exact hcurrent.ge
  case inside =>
    intro b hb e he hfirst
    rcases E.heads_new b hb with hb | ⟨rfl, -⟩
    · rcases E.mem_edges he with he | ⟨rfl, ht⟩
      · exact hp.inside b hb e he hfirst
      · exact hp.source_ge E ht b hb
    · -- no edge leads behind the new block
      have htarget := h'.target_lt he
      have hsize := E.size_ge
      omega
  case closing =>
    intro e he hcloses
    rcases E.mem_edges he with hold | ⟨rfl, ht⟩
    · have htarget := h.target_lt hold
      obtain ⟨hle, hloop, hmem | ⟨last, hlast, hregion⟩⟩ :=
        hp.closing e hold ((E.closes_iff htarget).mp hcloses)
      · exact ⟨hle, (E.kind _ htarget).symm ▸ hloop, hstays e he hmem⟩
      · exact ⟨hle, (E.kind _ htarget).symm ▸ hloop, .inr ⟨last, hlast, hregion.move E⟩⟩
    · rcases E.lands ht with ⟨hw, hkind⟩ | ⟨hmem, -⟩ | ⟨-, -, -, hback, hcontinue⟩
      · rcases (E.closes_iff (h.lt _ (mem_append_right _ hw))).mp hcloses with hback | ⟨-, hloop⟩
        · exact absurd hback hkind
        · exact absurd ((h.waiting _ hw).1.symm.trans hloop) nofun
      · exact ⟨hp.source_ge E ht _ hmem, (E.kind _ (hlt _ hmem)).symm ▸ (h.heads _ hmem).2,
          hstays e he hmem⟩
      · rcases hcloses with hb | ⟨hc, -⟩
        · exact absurd hb hback
        · exact absurd hc hcontinue

end Progress.Nested

lemma Progress.nested_start (fn : Node) : (start fn).Nested where
  stacked := trivial
  current _ _ hh := absurd hh not_mem_nil
  inside _ hh := absurd hh not_mem_nil
  closing _ he := absurd he not_mem_nil

/-! ## Counting -/

/-- The loops that are being lowered, each with its first block. -/
def loopsOf (os : List Opened) : List (Node × Nat) := os.filterMap Opened.loop

lemma map_snd_loopsOf (os : List Opened) : (loopsOf os).map Prod.snd = headsOf os := by
  rw [loopsOf, map_filterMap]
  rfl

lemma loopsOf_cons (o : Opened) (os : List Opened) :
    loopsOf (o :: os) = o.loop.toList ++ loopsOf os := by
  rw [loopsOf, filterMap_cons]
  cases o.loop with
  | none => rfl
  | some l => rfl

/-- Edges that are no back edges do not count. -/
lemma backEdges_linked {s : Lowering} {b : Nat} (h : ∀ t ∈ targets, t.2 ≠ .backEdge) :
    (s.linked b targets).graph.backEdges = s.graph.backEdges := by
  rw [Graph.backEdges, edges_linked, filter_append]
  refine (congrArg (_ ++ ·) (filter_eq_nil_iff.mpr fun e he => ?_)).trans (append_nil _)
  obtain ⟨t, ht, rfl⟩ := mem_map.mp he
  rw [beq_iff_eq]
  exact h t ht

/-- A move that neither begins nor finishes a loop. -/
structure Steady (p p' : Progress) : Prop where
  finished : p'.notes.finished = p.notes.finished
  loops : loopsOf p'.opened = loopsOf p.opened
  backEdges : p'.state.graph.backEdges = p.state.graph.backEdges
  fresh : ∀ b < p'.state.size, p.state.size ≤ b → (p'.state.kindAt b).isLoop = false

lemma fresh_reserve {s : Lowering} {kind : BlockKind} (hkind : kind.isLoop = false) :
    ∀ b < (s.reserve kind).size, s.size ≤ b → ((s.reserve kind).kindAt b).isLoop = false := by
  intro b hb hle
  rw [size_reserve] at hb
  obtain rfl : b = s.size := by omega
  rw [kindAt_reserve_size]
  exact hkind

lemma fresh_linked {s s' : Lowering} {b : Nat}
    (h : ∀ c < s.size, s'.size ≤ c → (s.kindAt c).isLoop = false) :
    ∀ c < (s.linked b targets).size, s'.size ≤ c →
      ((s.linked b targets).kindAt c).isLoop = false := by
  intro c hc hle
  rw [kindAt_linked]
  exact h c (size_linked targets ▸ hc) hle

lemma fresh_refl (s : Lowering) : ∀ b < s.size, s.size ≤ b → (s.kindAt b).isLoop = false :=
  fun _ hb hle => absurd hb (Nat.not_lt.mpr hle)

/-- What a move does to the loops. -/
lemma Move.loops (m : Move p p') : Steady p p' ∨
    (∃ n, p'.notes.finished = p.notes.finished ∧
      loopsOf p'.opened = (n, p.state.size) :: loopsOf p.opened ∧
      p'.state.graph.backEdges = p.state.graph.backEdges ∧
      some (p'.state.kindAt p.state.size) = n.headKind?) ∨
    ∃ n head b, p'.notes.finished = p.notes.finished ++ [n] ∧
    loopsOf p.opened = (n, head) :: loopsOf p'.opened ∧
      p'.state.graph.backEdges = p.state.graph.backEdges ++ [⟨b, head, .backEdge⟩] ∧
      p'.state.size = p.state.size := by
  cases m with
  | place n =>
    refine .inl ⟨append_nil _, rfl, rfl, fun b hb hle => absurd hb ?_⟩
    rw [size_placed]
    exact Nat.not_lt.mpr hle
  | begin | finish => exact .inl ⟨rfl, rfl, rfl, fresh_refl _⟩
  | reserve kind hloop => exact .inl ⟨rfl, rfl, rfl, fresh_reserve hloop⟩
  | beginSwitch => exact .inl ⟨rfl, rfl, rfl, fresh_reserve rfl⟩
  | cut log jump =>
    refine .inl ⟨rfl, rfl, backEdges_linked fun t ht => ?_, fun b hb hle => fresh_reserve rfl b hb
      ((size_linked _).trans_le hle)⟩
    obtain ⟨b, hb, rfl⟩ := mem_map.mp ht
    obtain rfl := Option.mem_toList.mp hb
    cases jump with
    | breakOut | continueOn => nofun
  | clause hbefore hkind =>
    refine .inl ⟨rfl, rfl, backEdges_linked ?_, fresh_linked (fresh_reserve rfl)⟩
    rcases hkind with rfl | rfl <;> simp
  | endClause => exact .inl ⟨rfl, rfl, backEdges_linked (by simp), fresh_linked (fresh_refl _)⟩
  | finishSwitch htargets =>
    refine .inl ⟨rfl, rfl, backEdges_linked ?_, fresh_linked (fresh_refl _)⟩
    rcases htargets with rfl | rfl <;> simp
  | leave o' front next rest htargets hwaiting hwaiting' hloop =>
    refine .inl
      ⟨rfl, ?_, backEdges_linked fun t ht => (htargets.arrives t ht).2, fresh_linked (fresh_refl _)⟩
    rw [loopsOf_cons, loopsOf_cons, hloop]
  | @beginLoop s os ls kind n hkind =>
    refine .inr (.inl ⟨n, rfl, rfl, backEdges_linked (by simp), ?_⟩)
    rw [hkind]
    exact congrArg some ((kindAt_linked _).trans (kindAt_reserve_size kind))
  | @finishLoop s os ls n head done exit =>
    refine .inr (.inr ⟨n, head, s.current, rfl, rfl, ?_, size_linked _⟩)
    exact congrArg (filter _) (edges_linked _) |>.trans (filter_append ..)

/-- **Counting.**  There is one back edge for each loop that is finished, to a block of the kind
with which the loop begins.  The first blocks of loops are the ends of the back edges and the first
blocks of the loops that are being lowered. -/
structure Progress.Counted (p : Progress) : Prop where
  kinds : p.state.graph.backEdges.map (fun e => some (p.state.kindAt e.target)) =
    p.notes.finished.map Node.headKind?
  distinct : (p.state.graph.backEdges.map Edge.target ++ headsOf p.opened).Nodup
  heads : ∀ b < p.state.size, (p.state.kindAt b).isLoop = true →
    b ∈ p.state.graph.backEdges.map Edge.target ++ headsOf p.opened
  loops : ∀ l ∈ loopsOf p.opened, some (p.state.kindAt l.2) = l.1.headKind?

lemma Progress.Counted.move (hp : p.Counted) (h : p.Ordered order) (m : Move p p') :
    p'.Counted := by
  obtain ⟨source, targets, E⟩ := m.effect h.fits
  have hheads : ∀ b ∈ headsOf p.opened, b < p.state.size :=
    fun b hb => h.lt b (mem_append_left _ (h.heads b hb).1)
  have hback : ∀ e ∈ p.state.graph.backEdges, e.target < p.state.size :=
    fun e he => h.target_lt (mem_filter.mp he).1
  -- blocks that were there keep their kinds
  have hkinds : p.state.graph.backEdges.map (fun e => some (p'.state.kindAt e.target)) =
      p.notes.finished.map Node.headKind? :=
    (map_congr_left fun e he => congrArg some (E.kind _ (hback e he))).trans hp.kinds
  have hloops : ∀ l ∈ loopsOf p.opened, some (p'.state.kindAt l.2) = l.1.headKind? := by
    intro l hl
    rw [E.kind l.2 (hheads _ (map_snd_loopsOf p.opened ▸ mem_map_of_mem hl))]
    exact hp.loops l hl
  have hold : ∀ b < p.state.size, (p'.state.kindAt b).isLoop = true →
      b ∈ p.state.graph.backEdges.map Edge.target ++ headsOf p.opened :=
        fun b hb hloop => hp.heads b hb (E.kind b hb ▸ hloop)
  rcases m.loops with hsteady | ⟨n, hfinished, hopened, hedges, hkind⟩
    | ⟨n, head, b, hfinished, hopened, hedges, hsize⟩
  · have hsame : headsOf p'.opened =
      headsOf p.opened := by rw [← map_snd_loopsOf, hsteady.loops, map_snd_loopsOf]
    refine ⟨?_, ?_, fun b hb hloop => ?_, ?_⟩
    · rw [hsteady.backEdges, hsteady.finished]
      exact hkinds
    · rw [hsteady.backEdges, hsame]
      exact hp.distinct
    · rw [hsteady.backEdges, hsame]
      by_cases hlt : b < p.state.size
      · exact hold b hlt hloop
      · exact absurd ((hsteady.fresh b hb (Nat.not_lt.mp hlt)).symm.trans hloop) nofun
    · rw [hsteady.loops]
      exact hloops
  · have hmore : headsOf p'.opened = p.state.size :: headsOf p.opened := by
      rw [← map_snd_loopsOf, hopened, map_cons, map_snd_loopsOf]
    have hfresh : p.state.size ∉ p.state.graph.backEdges.map Edge.target ++ headsOf p.opened := by
      intro hmem
      rcases mem_append.mp hmem with hmem | hmem
      · obtain ⟨e, he, heq⟩ := mem_map.mp hmem
        exact Nat.lt_irrefl _ (heq ▸ hback e he)
      · exact Nat.lt_irrefl _ (hheads _ hmem)
    refine ⟨?_, ?_, fun b hb hloop => ?_, ?_⟩
    · rw [hedges, hfinished]
      exact hkinds
    · rw [hedges, hmore]
      exact nodup_middle.mpr (nodup_cons.mpr ⟨hfresh, hp.distinct⟩)
    · rw [hedges, hmore]
      have hsize := E.size_ge
      rcases Nat.lt_or_ge b p.state.size with hlt | hge
      · have := hold b hlt hloop
        simp only [mem_append, mem_cons] at this ⊢
        tauto
      · obtain rfl : b = p.state.size := by omega
        exact mem_append_right _ mem_cons_self
    · rw [hopened]
      exact forall_mem_cons.mpr ⟨hkind, hloops⟩
  · have hmore : headsOf p.opened = head :: headsOf p'.opened := by
      rw [← map_snd_loopsOf, hopened, map_cons, map_snd_loopsOf]
    have hmove : p'.state.graph.backEdges.map Edge.target ++ headsOf p'.opened =
        p.state.graph.backEdges.map Edge.target ++ headsOf p.opened := by
      rw [hedges, hmore, map_append, append_assoc]
      rfl
    rw [hopened] at hloops
    obtain ⟨hkind, hloops⟩ := forall_mem_cons.mp hloops
    refine ⟨?_, hmove ▸ hp.distinct, fun b hb hloop => hmove ▸ hold b (hsize ▸ hb) hloop, hloops⟩
    rw [hedges, hfinished, map_append, map_append, hkinds]
    exact congrArg (_ ++ [·]) hkind

lemma Progress.counted_start (fn : Node) : (start fn).Counted where
  kinds := rfl
  distinct := nodup_nil
  heads b hb hloop := by
    obtain rfl : b = 0 := Nat.lt_one_iff.mp hb
    cases hloop
  loops _ hl := absurd hl not_mem_nil

/-! ## Functions -/

/-- Who stands before another in an order without repetitions has the lower position. -/
lemma idxOf_lt_of_sublist {a b : Nat} (hnodup : order.Nodup) (h : [a, b].Sublist order) :
    order.idxOf a < order.idxOf b := by
  obtain ⟨front, rest, rfl, ha, hb⟩ := cons_sublist_iff.mp h
  have hrest : b ∈ rest := singleton_sublist.mp hb
  have hfront : b ∉ front := fun hmem => (nodup_append.mp hnodup).2.2 b hmem b hrest rfl
  rw [idxOf_append_of_mem ha, idxOf_append_of_notMem hfront]
  exact Nat.lt_add_right _ (idxOf_lt_length_of_mem ha)

/-- Who stays out of the first block of a region stays out of the region. -/
lemma Progress.Region.outside {first last : Nat} (R : p.Region first last) {path : List Nat} :
    ∀ {b : Nat}, (b :: path).IsChain p.state.graph.Leaves → first ∉ b :: path →
      (b < first ∨ last ≤ b) →
      ∀ c ∈ b :: path, c < first ∨ last ≤ c := by
  induction path with
  | nil =>
    intro b _ _ hb c hc
    exact mem_singleton.mp hc ▸ hb
  | cons d path ih =>
    intro b hchain hfirst hb
    obtain ⟨hleaves, hchain⟩ := isChain_cons_cons.mp hchain
    have hfirst : first ∉ d :: path := not_mem_of_not_mem_cons hfirst
    refine forall_mem_cons.mpr ⟨hb, ih hchain hfirst ?_⟩
    obtain ⟨e, he, rfl⟩ := mem_map.mp hleaves
    obtain ⟨he, hsource⟩ := mem_filter.mp he
    by_contra hinside
    have htarget : first ≠ e.target := ne_of_not_mem_cons hfirst
    have := R.inside e he (by omega) (by omega)
    rw [beq_iff_eq.mp hsource] at this
    omega

namespace Graph

instance (g : Graph) : DecidablePred g.Closes := fun _ => inferInstanceAs (Decidable (_ ∨ _ ∧ _))

/-- The edges that do not close a loop. -/
def forwardEdges (g : Graph) : List Edge := g.edges.filter fun e => ¬g.Closes e

/-- Edges that do not lead around from any block to itself. -/
def Acyclic (edges : List Edge) : Prop :=
  ∀ b, ¬Relation.TransGen (fun a c => ∃ e ∈ edges, e.source = a ∧ e.target = c) b b

/-- Edges that lead forward in an order are acyclic. -/
lemma acyclic_of_sublist {edges : List Edge} (hnodup : order.Nodup)
    (h : ∀ e ∈ edges, [e.source, e.target].Sublist order) : Acyclic edges := by
  have hrank : ∀ {a c},
    Relation.TransGen (fun a c => ∃ e ∈ edges, e.source = a ∧ e.target = c) a c →
      order.idxOf a < order.idxOf c := by
    intro a c hpath
    induction hpath with
    | single hstep =>
      obtain ⟨e, he, rfl, rfl⟩ := hstep
      exact idxOf_lt_of_sublist hnodup (h e he)
    | tail _ hstep ih =>
      obtain ⟨e, he, rfl, rfl⟩ := hstep
      exact ih.trans (idxOf_lt_of_sublist hnodup (h e he))
  exact fun b hpath => Nat.lt_irrefl _ (hrank hpath)

/-- **Reducible.**  What holds of the cycles in the graph of a function with the given loops. -/
structure Reducible (g : Graph) (loops : List Node) : Prop where
  /-- Without the edges that close loops there is no cycle. -/
  acyclic : Acyclic g.forwardEdges
  /-- An edge that closes a loop leads to the first block of a loop, and control has been there
  before. -/
  dominated : ∀ e ∈ g.edges, g.Closes e → (g.block e.target).kind.isLoop = true ∧
    ∀ path : List Nat, path.head? = some 0 → path.getLast? = some e.source →
      path.IsChain g.Leaves → e.target ∈ path
  /-- There is one back edge for each loop, to a block of the kind with which the loop begins. -/
  backEdges : g.backEdges.map (fun e => some (g.block e.target).kind) = loops.map Node.headKind?
  /-- The back edges lead to different blocks, which are the first blocks of the loops. -/
  heads : (g.backEdges.map Edge.target).Nodup ∧
    ∀ b < g.blocks.length, (g.block b).kind.isLoop = true ↔ b ∈ g.backEdges.map Edge.target
  /-- Where there is no loop there is no cycle at all. -/
  loopFree : loops = [] → Acyclic g.edges

/-- Who gets from the entry into a region has been at its first block. -/
lemma mem_of_region {first last : Nat} (R : p.Region first last) {path : List Nat} {b : Nat}
    (hb : b < last) (hle : first ≤ b) (hhead : path.head? = some 0) (hlast : path.getLast? = some b)
    (hchain : path.IsChain p.state.graph.Leaves) :
    first ∈ path := by
  cases path with
  | nil => cases hhead
  | cons c path =>
    obtain rfl : c = 0 := Option.some.inj hhead
    by_contra hfirst
    have hne : first ≠ 0 := ne_of_not_mem_cons hfirst
    have := R.outside hchain hfirst (.inl (Nat.pos_of_ne_zero hne)) b (mem_of_getLast? hlast)
    omega

/-- **The graph of a function is reducible**, with one back edge for each loop in the body. -/
theorem reducible_ofFunction (fn : Node) : (ofFunction fn).1.Reducible fn.bodyLoops := by
  obtain ⟨s, hs, ms⟩ := moves_ofFunction fn
  obtain ⟨⟨hnested, hcounted⟩, order, h⟩ := Moves.invariant (I := fun p => p.Nested ∧ p.Counted)
    ⟨Progress.nested_start fn, Progress.counted_start fn⟩
    (fun h m hI => ⟨hI.1.move h m, hI.2.move h m⟩) ms
  rw [← hs]
  -- nothing is being lowered any more
  have hdistinct : (s.graph.backEdges.map Edge.target).Nodup :=
    (List.nodup_append.mp hcounted.distinct).1
  have hheads : ∀ b < s.graph.blocks.length, (s.graph.block b).kind.isLoop = true →
      b ∈ s.graph.backEdges.map Edge.target :=
    fun b hb hloop =>
      (List.mem_append.mp (hcounted.heads b hb hloop)).resolve_right List.not_mem_nil
  have hforward : Acyclic s.graph.forwardEdges := by
    refine acyclic_of_sublist (List.nodup_append.mp h.nodup).1 fun e he => ?_
    obtain ⟨he, hopen⟩ := List.mem_filter.mp he
    exact (h.forward e he (of_decide_eq_true hopen)).resolve_left List.not_mem_nil
  refine ⟨hforward, fun e he hcloses => ?_, hcounted.kinds,
    ⟨hdistinct, fun b hb => ⟨hheads b hb, fun hmem => ?_⟩⟩, fun hnone => ?_⟩
  · obtain ⟨hle, hloop, hmem | ⟨last, hlast, hregion⟩⟩ := hnested.closing e he hcloses
    · exact absurd hmem List.not_mem_nil
    · exact ⟨hloop, fun path hhead hend hchain => mem_of_region hregion hlast hle hhead hend hchain⟩
  · obtain ⟨e, he, rfl⟩ := List.mem_map.mp hmem
    obtain ⟨he, hkind⟩ := List.mem_filter.mp he
    exact (hnested.closing e he (.inl (beq_iff_eq.mp hkind))).2.1
  · have hback : s.graph.backEdges = [] := by
      have hkinds := hcounted.kinds
      rw [hnone, List.map_nil] at hkinds
      exact List.map_eq_nil_iff.mp hkinds
    have hall : s.graph.forwardEdges = s.graph.edges := by
      refine List.filter_eq_self.mpr fun e he => decide_eq_true fun hcloses => ?_
      have hmem := hheads e.target (h.joined e he).2 (hnested.closing e he hcloses).2.1
      rw [hback] at hmem
      exact absurd hmem List.not_mem_nil
    exact hall ▸ hforward

end Graph

end Recast.Flow
