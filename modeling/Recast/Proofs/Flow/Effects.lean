import Mathlib.Data.List.Nodup
import Recast.Proofs.Flow.Moves

/-!
# What a move does

Every move adds at most one block, and edges out of at most one block.  `Effect` says once what a
move can do to the graph and to the blocks that wait; the invariants of a lowering go by that, and
not by the kinds of move.

**The order of entering.**  Blocks are entered one after the other: they become the current block,
each of them once.  An edge leads to a block that waits to be entered or to one that is entered with
the move itself; the exceptions are the edges that close loops.  So all other edges lead forward in
the order in which blocks are entered: `Progress.Ordered`.
-/

namespace Recast.Flow

open List

/-! ## Blocks and edges -/

namespace Lowering

variable {s : Lowering} {b : Nat} {targets : List (Nat × EdgeKind)}

/-- The kind of a block. -/
def kindAt (s : Lowering) (b : Nat) : BlockKind := (s.graph.block b).kind

@[simp] lemma kindAt_linked (c : Nat) : (s.linked b targets).kindAt c = s.kindAt c := by
  induction targets generalizing s with
  | nil => rfl
  | cons t targets ih => exact ih.trans (congrArg Prod.fst (Graph.content_addEdge _ _ _))

lemma kindAt_reserve (kind : BlockKind) (h : b < s.size) : (s.reserve kind).kindAt b = s.kindAt b :=
  congrArg BasicBlock.kind (Graph.block_addBlock s.graph kind h)

@[simp] lemma kindAt_reserve_size (kind : BlockKind) : (s.reserve kind).kindAt s.size = kind := by
  rw [kindAt, reserve, Graph.block, Graph.addBlock, size, getD_append_right _ _ _ _ (Nat.le_refl _),
    Nat.sub_self]
  rfl

@[simp] lemma kindAt_cut (h : b < s.size) : (s.cut targets).kindAt b = s.kindAt b :=
  (kindAt_reserve .unreachable ((size_linked targets).symm ▸ h)).trans (kindAt_linked b)

@[simp] lemma kindAt_cut_size : (s.cut targets).kindAt s.size = .unreachable := by
  rw [← size_linked (b := s.current) targets]
  exact kindAt_reserve_size .unreachable

@[simp] lemma kindAt_placed (n : Node) (b : Nat) : (s.placed n).kindAt b = s.kindAt b := by
  rw [kindAt, kindAt, placed, Graph.block, Graph.block, Graph.addNode,
    getD_eq_getElem?_getD, getElem?_modify, getD_eq_getElem?_getD]
  cases s.graph.blocks[b]? with
  | none => rfl
  | some x =>
    split
    · rfl
    · rfl

lemma edges_linked (targets : List (Nat × EdgeKind)) :
    (s.linked b targets).graph.edges = s.graph.edges ++ targets.map fun t => ⟨b, t.1, t.2⟩ := by
  induction targets generalizing s with
  | nil => rw [linked, map_nil, append_nil]
  | cons t targets ih =>
    rw [linked, ih]
    exact append_assoc ..

@[simp] lemma current_linked : (s.linked b targets).current = s.current := by
  induction targets generalizing s with
  | nil => rfl
  | cons t targets ih => exact ih

end Lowering

open Lowering

/-! ## Books -/

/-- The blocks that wait to be entered. -/
def waitingOf (os : List Opened) : List Nat := os.flatMap Opened.waiting

/-- The first blocks of the loops that have been begun. -/
def headsOf (os : List Opened) : List Nat := os.filterMap Opened.head?

/-- The blocks at whose ends the switches that have been begun are decided. -/
def dispatchesOf (os : List Opened) : List Nat := os.filterMap Opened.dispatch

section Books

variable (o : Opened) (os : List Opened)

@[simp] lemma waitingOf_cons : waitingOf (o :: os) = o.waiting ++ waitingOf os := flatMap_cons

@[simp] lemma headsOf_cons : headsOf (o :: os) = o.head?.toList ++ headsOf os := by
  rw [headsOf, filterMap_cons]
  cases o.head? with
  | none => rfl
  | some h => rfl

@[simp] lemma dispatchesOf_cons :
    dispatchesOf (o :: os) = o.dispatch.toList ++ dispatchesOf os := by
  rw [dispatchesOf, filterMap_cons]
  cases o.dispatch with
  | none => rfl
  | some h => rfl

end Books

variable {p p' : Progress} {os : List Opened}

/-- What holds of the innermost statement that has been begun. -/
def Progress.Top (p : Progress) (P : Opened → Prop) : Prop := ∃ o os, p.opened = o :: os ∧ P o

lemma Progress.Top.mem_waiting {b : Nat} (h : p.Top (b ∈ ·.waiting)) : b ∈ waitingOf p.opened := by
  obtain ⟨o, os, hopened, hb⟩ := h
  rw [hopened, waitingOf_cons]
  exact mem_append_left _ hb

lemma Progress.Top.mem_dispatches {b : Nat} (h : p.Top (·.dispatch = some b)) :
    b ∈ dispatchesOf p.opened := by
  obtain ⟨o, os, hopened, hb⟩ := h
  rw [hopened, dispatchesOf_cons, hb]
  exact mem_cons_self

/-- `break` leads to a block that waits, and `continue` to such a block or to the first block of a
loop. -/
lemma Jump.arrives {b : Nat} {kind : EdgeKind} (hjump : Jump (exitsOf os) (some b) kind)
    (hfits : ∀ o ∈ os, o.Fits) :
    (kind = .breakOut ∨ kind = .continueOn) ∧
    (b ∈ waitingOf os ∨ b ∈ headsOf os ∧ kind = .continueOn) := by
  have hexit : ∀ e ∈ exitsOf os, ∃ o ∈ os, o.exit = some e := fun e he => mem_filterMap.mp he
  cases hjump with
  | breakOut htarget =>
    refine ⟨.inl rfl, .inl ?_⟩
    cases hexits : exitsOf os with
    | nil =>
      rw [hexits] at htarget
      cases htarget
    | cons e es =>
      rw [hexits] at htarget
      obtain rfl : e.breakTo = b := Option.some.inj htarget
      obtain ⟨o, ho, he⟩ := hexit e (hexits ▸ mem_cons_self)
      exact mem_flatMap.mpr ⟨o, ho, (hfits o ho e he).1⟩
  | continueOn htarget =>
    refine ⟨.inr rfl, ?_⟩
    obtain ⟨e, he, hcontinue⟩ := exists_of_findSome?_eq_some htarget
    obtain ⟨o, ho, hexit⟩ := hexit e he
    rcases (hfits o ho e hexit).2 b hcontinue with hb | hb
    · exact .inl (mem_flatMap.mpr ⟨o, ho, hb⟩)
    · exact .inr ⟨mem_filterMap.mpr ⟨o, ho, hb⟩, rfl⟩

/-- Every move leaves it so that `break` and `continue` go to blocks that wait or to the first
blocks of loops. -/
lemma Move.fits (m : Move p p') (h : ∀ o ∈ p.opened, o.Fits) : ∀ o ∈ p'.opened, o.Fits := by
  cases m with
  | place | cut | clause | endClause => exact h
  | finish | finishLoop | finishSwitch => exact fun o ho => h o (mem_cons_of_mem _ ho)
  | begin => exact forall_mem_cons.mpr ⟨Opened.fits_of_exit rfl, h⟩
  | beginLoop => exact forall_mem_cons.mpr ⟨Opened.fits_of_exit rfl, h⟩
  | beginSwitch => exact forall_mem_cons.mpr ⟨by simp [Opened.Fits], h⟩
  | leave _ _ _ _ _ _ _ _ _ hfits =>
    exact forall_mem_cons.mpr ⟨hfits, fun o ho => h o (mem_cons_of_mem _ ho)⟩
  | @reserve s o os ls kind =>
    refine forall_mem_cons.mpr ⟨fun e he => ?_, fun o ho => h o (mem_cons_of_mem _ ho)⟩
    obtain ⟨hbreak, hcontinue⟩ := h o mem_cons_self e he
    exact ⟨mem_append_left _ hbreak, fun c hc => (hcontinue c hc).imp_left (mem_append_left _)⟩

/-! ## Effects -/

/-- How a block can end: it leads nowhere, on one way, to both sides of a condition, or to the
clauses of a switch. -/
inductive Outgoing : List EdgeKind → Prop where
  | none : Outgoing []
  | fallThrough : Outgoing [.fallThrough]
  | backEdge : Outgoing [.backEdge]
  | breakOut : Outgoing [.breakOut]
  | continueOn : Outgoing [.continueOn]
  | branch : Outgoing [.branchTrue, .branchFalse]
  | switch {kinds : List EdgeKind} : (∀ kind ∈ kinds, kind = .switchCase ∨ kind = .switchDefault) →
      Outgoing kinds

/-- The blocks that edges can leave: the current one, and one in which a switch is decided. -/
inductive Departs (p : Progress) : Nat → List (Nat × EdgeKind) → Prop where
  | none {b : Nat} : Departs p b []
  | current {targets : List (Nat × EdgeKind)} : p.live = true → Outgoing (targets.map Prod.snd) →
      Departs p p.state.current targets
  | dispatch {b : Nat} {targets : List (Nat × EdgeKind)} : p.Top (·.dispatch = some b) →
      p.live = false →
      (∀ t ∈ targets, t.2 = .switchCase ∨ t.2 = .switchDefault) → Departs p b targets

/-- **Effects.**  What a move that adds edges out of `source` to `targets` does. -/
structure Effect (p p' : Progress) (source : Nat) (targets : List (Nat × EdgeKind)) : Prop where
  edges : p'.state.graph.edges = p.state.graph.edges ++ targets.map fun t => ⟨source, t.1, t.2⟩
  departs : Departs p source targets
  /-- The edges lead to blocks that wait, to first blocks of loops, or to a new block that is
  entered. -/
  arrives : ∀ t ∈ targets, (t.1 ∈ waitingOf p.opened ∧ t.2 ≠ .backEdge) ∨
    (t.1 ∈ headsOf p.opened ∧ (t.2 = .backEdge ∨ t.2 = .continueOn)) ∨
    (t.1 = p.state.size ∧ p'.state.current = p.state.size ∧
      p'.state.kindAt p.state.size ≠ .unreachable ∧
      t.2 ≠ .backEdge ∧ t.2 ≠ .continueOn)
  /-- The current block stays, and if the next node goes there then nothing has left it; or another
  block is entered. -/
  current : (p'.state.current = p.state.current ∧ (p'.live = true → p.live = true ∧ targets = [])) ∨
    p.Top (p'.state.current ∈ ·.waiting) ∨
      (p'.state.current = p.state.size ∧ p.state.size < p'.state.size)
  size_le : p.state.size ≤ p'.state.size
  size_ge : p'.state.size ≤ p.state.size + 1
  kind : ∀ b < p.state.size, p'.state.kindAt b = p.state.kindAt b
  waiting_new : ∀ b ∈ waitingOf p'.opened, b ∈ waitingOf p.opened ∨
    (b = p.state.size ∧ p'.state.current = p.state.current ∧ p.state.size < p'.state.size ∧
      (p'.state.kindAt b).isLoop = false ∧ p'.state.kindAt b ≠ .unreachable)
  waiting_old : ∀ b ∈ waitingOf p.opened, b ∈ waitingOf p'.opened ∨ b = p'.state.current
  heads_new : ∀ h ∈ headsOf p'.opened, h ∈ headsOf p.opened ∨
    (h = p.state.size ∧ p'.state.current = p.state.size ∧ (p'.state.kindAt h).isLoop = true)
  dispatches_new : ∀ d ∈ dispatchesOf p'.opened, d ∈ dispatchesOf p.opened ∨
    (d = p.state.current ∧ p.live = true ∧ p'.live = false ∧ targets = [])

namespace Effect

variable {s : Lowering} {os' : List Opened} {live : Bool} {ls ls' : Notes}
  {source next : Nat} {kind : BlockKind} {targets : List (Nat × EdgeKind)}

/-- A move that changes neither edges nor books. -/
lemma quiet (hedges : p'.state.graph.edges = p.state.graph.edges)
    (hsize : p'.state.size = p.state.size) (hkind : ∀ b, p'.state.kindAt b = p.state.kindAt b)
    (hwaiting : waitingOf p'.opened = waitingOf p.opened)
    (hheads : headsOf p'.opened = headsOf p.opened)
    (hdispatches : dispatchesOf p'.opened = dispatchesOf p.opened)
    (hcurrent : p'.state.current = p.state.current) (hlive : p.live = true) : Effect p p' 0 [] where
  edges := by rw [hedges, map_nil, append_nil]
  departs := .none
  arrives t ht := absurd ht not_mem_nil
  current := .inl ⟨hcurrent, fun _ => ⟨hlive, rfl⟩⟩
  size_le := hsize.ge
  size_ge := hsize.le.trans (Nat.le_succ _)
  kind b _ := hkind b
  waiting_new b hb := .inl (hwaiting ▸ hb)
  waiting_old b hb := .inl (hwaiting ▸ hb)
  heads_new h hh := .inl (hheads ▸ hh)
  dispatches_new d hd := .inl (hdispatches ▸ hd)

/-- A move that enters a block that waits. -/
lemma entering (hdeparts : Departs ⟨s, os, live, ls⟩ source targets)
    (harrives : ∀ t ∈ targets, t.1 ∈ waitingOf os ∧ t.2 ≠ .backEdge ∨
      t.1 ∈ headsOf os ∧ (t.2 = .backEdge ∨ t.2 = .continueOn))
    (hnext : Progress.Top ⟨s, os, live, ls⟩ (next ∈ ·.waiting))
    (hwaiting : ∀ b, b ∈ waitingOf os ↔ b = next ∨ b ∈ waitingOf os')
    (hheads : headsOf os' ⊆ headsOf os) (hdispatches : dispatchesOf os' ⊆ dispatchesOf os) :
    Effect ⟨s, os, live, ls⟩ ⟨{ s.linked source targets with current := next }, os', true, ls'⟩
      source targets where
  edges := edges_linked targets
  departs := hdeparts
  arrives t ht := (harrives t ht).imp_right .inl
  current := .inr (.inl hnext)
  size_le := (size_linked targets).ge
  size_ge := (size_linked targets).le.trans (Nat.le_succ _)
  kind b _ := kindAt_linked b
  waiting_new b hb := .inl ((hwaiting b).mpr (.inr hb))
  waiting_old b hb := ((hwaiting b).mp hb).symm
  heads_new _ hh := .inl (hheads hh)
  dispatches_new _ hd := .inl (hdispatches hd)

/-- A move that enters a new block. -/
lemma creating {s' : Lowering} (hcurrent : s'.current = s.size) (hsize : s'.size = s.size + 1)
    (hedges : s'.graph.edges = s.graph.edges ++ targets.map fun t => ⟨source, t.1, t.2⟩)
    (hkind : s'.kindAt s.size = kind) (hold : ∀ b < s.size, s'.kindAt b = s.kindAt b)
    (hdeparts : Departs ⟨s, os, live, ls⟩ source targets)
    (harrives : ∀ t ∈ targets, t.1 ∈ waitingOf os ∧ t.2 ≠ .backEdge ∨
      t.1 ∈ headsOf os ∧ (t.2 = .backEdge ∨ t.2 = .continueOn) ∨
      t.1 = s.size ∧ kind ≠ .unreachable ∧ t.2 ≠ .backEdge ∧ t.2 ≠ .continueOn)
    (hwaiting : waitingOf os' = waitingOf os)
    (hheads : ∀ h ∈ headsOf os', h ∈ headsOf os ∨ h = s.size ∧ kind.isLoop = true)
    (hdispatches : dispatchesOf os' = dispatchesOf os) :
    Effect ⟨s, os, live, ls⟩ ⟨s', os', true, ls'⟩ source targets := by
  refine ⟨hedges, hdeparts, fun t ht => ?_, .inr (.inr ⟨hcurrent, ?_⟩), ?_,
    hsize.le, hold, fun b hb => ?_, fun b hb => ?_, fun h hh => ?_, fun d hd => ?_⟩
  · rcases harrives t ht with h | h | ⟨h₁, h₂, h₃⟩
    · exact .inl h
    · exact .inr (.inl h)
    · refine .inr (.inr ⟨h₁, hcurrent, ?_, h₃⟩)
      exact hkind.symm ▸ h₂
  · exact hsize ▸ Nat.lt_succ_self _
  · exact hsize ▸ Nat.le_succ _
  · exact .inl (hwaiting ▸ hb)
  · exact .inl (hwaiting.symm ▸ hb)
  · refine (hheads h hh).imp_right fun ⟨heq, hloop⟩ => ⟨heq, hcurrent, ?_⟩
    subst heq
    exact hkind.symm ▸ hloop
  · exact .inl (hdispatches ▸ hd)

/-- A move that enters a new block, with an edge that may lead there. -/
lemma creatingLinked (hdeparts : Departs ⟨s, os, live, ls⟩ source targets)
    (harrives : ∀ t ∈ targets, t.1 = s.size ∧ kind ≠ .unreachable ∧
      t.2 ≠ .backEdge ∧ t.2 ≠ .continueOn)
    (hwaiting : waitingOf os' = waitingOf os)
    (hheads : ∀ h ∈ headsOf os', h ∈ headsOf os ∨ h = s.size ∧ kind.isLoop = true)
    (hdispatches : dispatchesOf os' = dispatchesOf os) :
    Effect ⟨s, os, live, ls⟩
      ⟨{ (s.reserve kind).linked source targets with current := s.size }, os', true, ls'⟩ source
      targets := by
  refine .creating rfl ?_ (edges_linked targets) ?_ (fun b hb => ?_) hdeparts
    (fun t ht => .inr (.inr (harrives t ht)))
    hwaiting hheads hdispatches
  · exact (size_linked targets).trans (size_reserve kind)
  · exact (kindAt_linked s.size).trans (kindAt_reserve_size kind)
  · exact (kindAt_linked b).trans (kindAt_reserve kind hb)

/-- A move that reserves a block. -/
lemma reserving {live' : Bool} (hloop : kind.isLoop = false)
    (hkind : kind ≠ .unreachable) (hlive : live = true)
    (hwaiting : ∀ b, b ∈ waitingOf os' ↔ b ∈ waitingOf os ∨ b = s.size)
    (hheads : headsOf os' = headsOf os)
    (hdispatches : ∀ d ∈ dispatchesOf os', d ∈ dispatchesOf os ∨ d = s.current ∧ live' = false) :
    Effect ⟨s, os, live, ls⟩ ⟨s.reserve kind, os', live', ls⟩ 0 [] where
  edges := (append_nil _).symm
  departs := .none
  arrives t ht := absurd ht not_mem_nil
  current := .inl ⟨rfl, fun _ => ⟨hlive, rfl⟩⟩
  size_le := (size_reserve kind).symm ▸ Nat.le_succ _
  size_ge := (size_reserve kind).le
  kind b hb := kindAt_reserve kind hb
  waiting_new b hb := by
    refine ((hwaiting b).mp hb).imp_right ?_
    rintro rfl
    refine ⟨rfl, rfl, (size_reserve kind).symm ▸ Nat.lt_succ_self _, ?_, ?_⟩
    · exact (kindAt_reserve_size kind).symm ▸ hloop
    · exact (kindAt_reserve_size kind).symm ▸ hkind
  waiting_old b hb := .inl ((hwaiting b).mpr (.inl hb))
  heads_new h hh := .inl (hheads ▸ hh)
  dispatches_new d hd := (hdispatches d hd).imp_right fun ⟨heq, hlive'⟩ => ⟨heq, hlive, hlive', rfl⟩

end Effect

lemma Onward.outgoing {waiting : List Nat} {targets : List (Nat × EdgeKind)}
    (h : Onward waiting targets) :
    Outgoing (targets.map Prod.snd) := by
  cases h with
  | single => exact .fallThrough
  | branch => exact .branch

lemma Onward.arrives {waiting : List Nat} {targets : List (Nat × EdgeKind)}
    (h : Onward waiting targets) :
    ∀ t ∈ targets, t.1 ∈ waiting ∧ t.2 ≠ .backEdge := by
  cases h with
  | single hb => simpa using hb
  | branch hb hc => simpa using ⟨hb, hc⟩

/-- **Every move has an effect** of this form. -/
theorem Move.effect (m : Move p p') (hfits : ∀ o ∈ p.opened, o.Fits) :
    ∃ source targets, Effect p p' source targets := by
  cases m with
  | place n => exact ⟨_, _, .quiet rfl (size_placed n) (kindAt_placed n) rfl rfl rfl rfl rfl⟩
  | begin => exact ⟨_, _, .quiet rfl rfl (fun _ => rfl) rfl rfl rfl rfl rfl⟩
  | finish => exact ⟨_, _, .quiet rfl rfl (fun _ => rfl) rfl rfl rfl rfl rfl⟩
  | @cut s os ls target kind log hjump =>
    refine ⟨_, _, .creating (size_linked _) size_cut (edges_linked _) kindAt_cut_size
      (fun b hb => kindAt_cut hb) ?_ ?_ rfl
      (fun h hh => .inl hh) rfl⟩
    · cases hjump with
      | nowhere => exact .none
      | breakOut => exact .current rfl .breakOut
      | continueOn => exact .current rfl .continueOn
    · intro t ht
      obtain ⟨b, hb, rfl⟩ := mem_map.mp ht
      obtain rfl := Option.mem_toList.mp hb
      obtain ⟨hkind, hb | ⟨hb, hcontinue⟩⟩ := hjump.arrives hfits
      · exact .inl ⟨hb, by rcases hkind with rfl | rfl <;> simp⟩
      · exact .inr (.inl ⟨hb, .inr hcontinue⟩)
  | @beginLoop s os ls kind n hkind =>
    have hloop : kind.isLoop = true ∧ kind ≠ .unreachable := by
      cases n <;> cases hkind <;> exact ⟨rfl, by simp⟩
    refine ⟨_, _, .creatingLinked (.current rfl .fallThrough) ?_ rfl (fun h hh => ?_) rfl⟩
    · intro t ht
      obtain rfl := mem_singleton.mp ht
      exact ⟨rfl, hloop.2, by simp, by simp⟩
    · rcases mem_cons.mp hh with rfl | hh
      · exact .inr ⟨rfl, hloop.1⟩
      · exact .inl hh
  | reserve kind hloop hkind =>
    refine ⟨_, _, .reserving hloop hkind rfl (fun b => ?_) rfl (fun d hd => .inl hd)⟩
    simp only [waitingOf_cons, mem_append, mem_singleton, or_right_comm]
  | @leave s o os ls targets o' front next rest htargets hwaiting hwaiting' hloop hdispatch _ =>
    refine ⟨_, _, .entering (.current rfl htargets.outgoing) (fun t ht => .inl ?_)
      ⟨o, os, rfl, ?_⟩ (fun b => ?_) ?_ ?_⟩
    · obtain ⟨hmem, hkind⟩ := htargets.arrives t ht
      exact ⟨mem_append_left _ hmem, hkind⟩
    · show next ∈ o.waiting
      rw [hwaiting]
      exact mem_append_right _ mem_cons_self
    · simp only [waitingOf_cons, hwaiting, hwaiting', mem_append, mem_cons]
      tauto
    · rw [headsOf_cons, headsOf_cons, Opened.head?, Opened.head?, hloop]
      exact Subset.refl _
    · rw [dispatchesOf_cons, dispatchesOf_cons, hdispatch]
      exact Subset.refl _
  | @finishLoop s os ls n head done exit =>
    refine ⟨_, _, .entering (.current rfl .backEdge) (fun t ht => .inr ?_)
      ⟨_, os, rfl, mem_singleton_self done⟩
      (fun b => mem_cons) (subset_cons_self _ _) (Subset.refl _)⟩
    obtain rfl := mem_singleton.mp ht
    exact ⟨mem_cons_self, .inl rfl⟩
  | @beginSwitch s os ls =>
    refine ⟨_, _, .reserving rfl (by simp) rfl (fun b => ?_) rfl (fun d hd => ?_)⟩
    · exact mem_cons.trans Or.comm
    · exact (mem_cons.mp hd).symm.imp_right fun h => ⟨h, rfl⟩
  | @clause s o os ls before kind hbefore hkind =>
    refine ⟨before, [(s.size, kind)], .creatingLinked (.dispatch ⟨o, os, rfl, hbefore⟩ rfl ?_) ?_
      rfl (fun h hh => .inl hh) rfl⟩
    · simpa using hkind
    · rcases hkind with rfl | rfl <;> simp
  | @endClause s o os ls done hdone =>
    refine ⟨_, _, edges_linked _, .current rfl .fallThrough, fun t ht => ?_,
      .inl ⟨current_linked, by simp⟩, (size_linked _).ge,
      (size_linked _).le.trans (Nat.le_succ _), fun b _ => kindAt_linked b, fun b hb => .inl hb,
      fun b hb => .inl hb, fun h hh => .inl hh, fun d hd => .inl hd⟩
    obtain rfl := mem_singleton.mp ht
    exact .inl ⟨mem_append_left _ hdone, by simp⟩
  | @finishSwitch s os ls before done exit targets htargets =>
    refine ⟨_, _, .entering (.dispatch ⟨_, os, rfl, rfl⟩ rfl ?_) ?_
      ⟨_, os, rfl, mem_singleton_self done⟩
      (fun b => mem_cons) (Subset.refl _) (subset_cons_self _ _)⟩
    · rcases htargets with rfl | rfl <;> simp
    · rcases htargets with rfl | rfl <;> simp

/-! ## The order of entering -/

/-- The blocks that wait stay distinct, and the block that is entered does not wait any more. -/
lemma Move.nodup (m : Move p p') (hnodup : (waitingOf p.opened).Nodup)
    (hlt : ∀ b ∈ waitingOf p.opened, b < p.state.size) :
    (waitingOf p'.opened).Nodup ∧
    (p'.state.current ∈ waitingOf p'.opened → p'.state.current = p.state.current) := by
  have hfresh : p.state.size ∉ waitingOf p.opened := fun hmem => Nat.lt_irrefl _ (hlt _ hmem)
  cases m with
  | place | begin | finish => exact ⟨hnodup, fun _ => rfl⟩
  | endClause => exact ⟨hnodup, fun _ => current_linked⟩
  | beginLoop | clause => exact ⟨hnodup, fun hmem => absurd hmem hfresh⟩
  | cut => exact ⟨hnodup, fun hmem => absurd (size_linked _ ▸ hmem) hfresh⟩
  | finishLoop | finishSwitch =>
    obtain ⟨hnext, hnodup⟩ := nodup_cons.mp hnodup
    exact ⟨hnodup, fun hmem => absurd hmem hnext⟩
  | beginSwitch => exact ⟨nodup_cons.mpr ⟨hfresh, hnodup⟩, fun _ => rfl⟩
  | @reserve s o os ls kind =>
    refine ⟨?_, fun _ => rfl⟩
    rw [waitingOf_cons] at hnodup hfresh ⊢
    show (o.waiting ++ [s.size] ++ waitingOf os).Nodup
    rw [append_assoc, singleton_append]
    exact nodup_middle.mpr (nodup_cons.mpr ⟨hfresh, hnodup⟩)
  | @leave s o os ls targets o' front next rest htargets hwaiting hwaiting' =>
    rw [waitingOf_cons, hwaiting, append_assoc, cons_append, nodup_middle] at hnodup
    obtain ⟨hnext, hnodup⟩ := nodup_cons.mp hnodup
    rw [waitingOf_cons, hwaiting', append_assoc]
    exact ⟨hnodup, fun hmem => absurd hmem hnext⟩

/-- An edge that closes a loop: it is a back edge, or `continue` takes it to the first block of a
loop. -/
def Graph.Closes (g : Graph) (e : Edge) : Prop :=
  e.kind = .backEdge ∨ (e.kind = .continueOn ∧ (g.block e.target).kind.isLoop = true)

/-- **The order of entering.**  The blocks in `order` have been entered, one after the other, and
none of them waits.  Edges leave blocks that have been entered.  If they do not close a loop, they
lead to a block that waits or to one that was entered later. -/
structure Progress.Ordered (p : Progress) (order : List Nat) : Prop where
  nodup : (order ++ waitingOf p.opened).Nodup
  lt : ∀ b ∈ order ++ waitingOf p.opened, b < p.state.size
  entry : 0 ∈ order
  current : p.state.current ∈ order
  heads : ∀ h ∈ headsOf p.opened, h ∈ order ∧ (p.state.kindAt h).isLoop = true
  waiting : ∀ b ∈ waitingOf p.opened, (p.state.kindAt b).isLoop = false ∧
    p.state.kindAt b ≠ .unreachable
  dispatches : ∀ d ∈ dispatchesOf p.opened, d ∈ order ∧ (p.live = true → p.state.current ≠ d)
  fits : ∀ o ∈ p.opened, o.Fits
  source : ∀ e ∈ p.state.graph.edges, e.source ∈ order
  forward : ∀ e ∈ p.state.graph.edges, ¬p.state.graph.Closes e →
    e.target ∈ waitingOf p.opened ∨ [e.source, e.target].Sublist order
  closing : ∀ e ∈ p.state.graph.edges, p.state.graph.Closes e → e.target ∈ order

/-- The order with the current block in it. -/
def Progress.entered (p : Progress) (order : List Nat) : List Nat :=
  if p.state.current ∈ order then order else order ++ [p.state.current]

namespace Progress.Ordered

variable {order : List Nat} {source : Nat} {targets : List (Nat × EdgeKind)}

lemma not_mem_waiting (h : p.Ordered order) {b : Nat} (hb : b ∈ order) : b ∉ waitingOf p.opened :=
  fun hw => (nodup_append.mp h.nodup).2.2 b hb b hw rfl

lemma target_lt (h : p.Ordered order) {e : Edge} (he : e ∈ p.state.graph.edges) :
    e.target < p.state.size := by
  refine h.lt _ (mem_append.mpr ?_)
  by_cases hcloses : p.state.graph.Closes e
  · exact .inl (h.closing e he hcloses)
  · rcases h.forward e he hcloses with hwaiting | hsub
    · exact .inr hwaiting
    · exact .inl (hsub.subset (by simp))

/-- The edges join blocks of the graph. -/
lemma joined (h : p.Ordered order) : p.state.graph.Joined :=
  fun e he => ⟨h.lt _ (mem_append_left _ (h.source e he)), h.target_lt he⟩

/-- A block that is entered with a move comes last. -/
lemma entered_eq (h : p.Ordered order)
    (hcurrent : p'.state.current ∈ waitingOf p.opened ∨ p'.state.current = p.state.size) :
    p'.entered order = order ++ [p'.state.current] := by
  refine if_neg fun hmem => ?_
  rcases hcurrent with hc | hc
  · exact h.not_mem_waiting hmem hc
  · have := h.lt _ (mem_append_left _ hmem)
    omega

end Progress.Ordered

lemma Progress.current_mem_entered (p : Progress) (order : List Nat) :
    p.state.current ∈ p.entered order := by
  rw [entered]
  split
  · assumption
  · simp

lemma Progress.subset_entered (p : Progress) (order : List Nat) :
    order.Sublist (p.entered order) := by
  rw [entered]
  split
  · exact Sublist.refl _
  · exact sublist_append_left _ _

lemma Progress.mem_entered {p : Progress} {order : List Nat} {b : Nat} (h : b ∈ p.entered order) :
    b ∈ order ∨ (b = p.state.current ∧ p.state.current ∉ order) := by
  rw [entered] at h
  split at h
  · exact .inl h
  next hc => simpa [hc] using h

namespace Effect

open Progress

variable {order : List Nat} {source : Nat} {targets : List (Nat × EdgeKind)}

/-- Whether an edge closes a loop does not change. -/
lemma closes_iff (E : Effect p p' source targets) {e : Edge} (he : e.target < p.state.size) :
    p'.state.graph.Closes e ↔ p.state.graph.Closes e := by
  have hkind : (p'.state.graph.block e.target).kind = (p.state.graph.block e.target).kind :=
    E.kind _ he
  rw [Graph.Closes, Graph.Closes, hkind]

lemma mem_edges (E : Effect p p' source targets) {e : Edge} (he : e ∈ p'.state.graph.edges) :
    e ∈ p.state.graph.edges ∨ (e.source = source ∧ (e.target, e.kind) ∈ targets) := by
  rw [E.edges, mem_append, mem_map] at he
  refine he.imp_right ?_
  rintro ⟨t, ht, rfl⟩
  exact ⟨rfl, ht⟩

/-- Where an edge of a move leads. -/
lemma lands (E : Effect p p' source targets) {b : Nat} {kind : EdgeKind}
    (ht : (b, kind) ∈ targets) :
    (b ∈ waitingOf p.opened ∧ kind ≠ .backEdge) ∨
    (b ∈ headsOf p.opened ∧ (kind = .backEdge ∨ kind = .continueOn)) ∨
    (b = p.state.size ∧ p'.state.current = p.state.size ∧ p'.state.kindAt b ≠ .unreachable ∧
      kind ≠ .backEdge ∧
      kind ≠ .continueOn) := by
  rcases E.arrives _ ht with h | h | ⟨rfl, h⟩
  · exact .inl h
  · exact .inr (.inl h)
  · exact .inr (.inr ⟨rfl, h⟩)

lemma source_mem (E : Effect p p' source targets) (h : p.Ordered order)
    {t : Nat × EdgeKind} (ht : t ∈ targets) :
    source ∈ order := by
  cases E.departs with
  | none => exact absurd ht not_mem_nil
  | current => exact h.current
  | dispatch hd => exact (h.dispatches _ hd.mem_dispatches).1

end Effect

open Progress in
/-- **A move keeps the order of entering.** -/
lemma Progress.Ordered.move {order : List Nat} (h : p.Ordered order) (m : Move p p') :
    p'.Ordered (p'.entered order) := by
  obtain ⟨source, targets, E⟩ := m.effect h.fits
  obtain ⟨hnodup, hentered⟩ :=
    m.nodup (nodup_append.mp h.nodup).2.1 fun b hb => h.lt b (mem_append_right _ hb)
  have hsub := p'.subset_entered order
  have hlt : ∀ b ∈ order, b < p.state.size := fun b hb => h.lt b (mem_append_left _ hb)
  -- an edge to a block that is entered with the move leads forward
  have hlast : ∀ {a b}, a ∈ order → (b ∈ waitingOf p.opened ∨ b = p.state.size) →
    b = p'.state.current →
      [a, b].Sublist (p'.entered order) := by
    rintro a b ha hb rfl
    rw [h.entered_eq hb]
    exact (singleton_sublist.mpr ha).append (Sublist.refl _)
  -- the edges of the move, one by one
  have hnew : ∀ e : Edge, e.source = source → (e.target, e.kind) ∈ targets →
      (¬p'.state.graph.Closes e → e.target ∈ waitingOf p'.opened ∨
        [e.source, e.target].Sublist (p'.entered order)) ∧
        (p'.state.graph.Closes e → e.target ∈ order) := by
    rintro e rfl ht
    have hsource := E.source_mem h ht
    rcases E.lands ht with ⟨hw, hkind⟩ | ⟨hh, hkind⟩ | ⟨hsize, hcurrent, -, hback, hcontinue⟩
    · have htarget := h.lt _ (mem_append_right _ hw)
      refine ⟨fun _ => ?_, fun hcloses => ?_⟩
      · exact (E.waiting_old _ hw).imp_right (hlast hsource (.inl hw))
      · rcases (E.closes_iff htarget).mp hcloses with hback | ⟨-, hloop⟩
        · exact absurd hback hkind
        · exact absurd hloop (Bool.eq_false_iff.mp (h.waiting _ hw).1)
    · obtain ⟨hmem, hloop⟩ := h.heads _ hh
      refine ⟨fun hcloses => absurd ((E.closes_iff (hlt _ hmem)).mpr ?_) hcloses, fun _ => hmem⟩
      exact hkind.imp_right fun hcontinue => ⟨hcontinue, hloop⟩
    · refine ⟨fun _ => .inr (hlast hsource (.inr hsize) (hsize.trans hcurrent.symm)),
        fun hcloses => ?_⟩
      rcases hcloses with hb | ⟨hc, -⟩
      · exact absurd hb hback
      · exact absurd hc hcontinue
  refine ⟨?nodup, ?lt, hsub.subset h.entry, p'.current_mem_entered order, ?heads, ?waiting,
    ?dispatches, m.fits h.fits, ?source, ?forward, ?closing⟩
  case nodup =>
    refine nodup_append.mpr ⟨?_, hnodup, ?_⟩
    · rw [entered]
      split
      · exact (nodup_append.mp h.nodup).1
      next hc => exact concat_eq_append ▸ (nodup_append.mp h.nodup).1.concat hc
    · rintro b hb _ hw rfl
      rcases mem_entered hb with hb | ⟨rfl, hc⟩
      · rcases E.waiting_new b hw with hw | ⟨rfl, -⟩
        · exact h.not_mem_waiting hb hw
        · exact Nat.lt_irrefl _ (hlt _ hb)
      · exact hc (hentered hw ▸ h.current)
  case lt =>
    intro b hb
    have hsize := E.size_le
    rcases mem_append.mp hb with hb | hb
    · rcases mem_entered hb with hb | ⟨rfl, -⟩
      · exact (hlt b hb).trans_le hsize
      · rcases E.current with ⟨hc, -⟩ | hc | ⟨hc, hgrow⟩
        · exact (hc ▸ hlt _ h.current).trans_le hsize
        · exact (h.lt _ (mem_append_right _ hc.mem_waiting)).trans_le hsize
        · exact hc ▸ hgrow
    · rcases E.waiting_new b hb with hw | ⟨rfl, -, hgrow, -⟩
      · exact (h.lt b (mem_append_right _ hw)).trans_le hsize
      · exact hgrow
  case heads =>
    intro b hb
    rcases E.heads_new b hb with hb | ⟨rfl, hc, hloop⟩
    · obtain ⟨hmem, hloop⟩ := h.heads b hb
      exact ⟨hsub.subset hmem, (E.kind b (hlt b hmem)).symm ▸ hloop⟩
    · exact ⟨hc ▸ p'.current_mem_entered order, hloop⟩
  case waiting =>
    intro b hb
    rcases E.waiting_new b hb with hw | ⟨-, -, -, hkind⟩
    · rw [E.kind b (h.lt b (mem_append_right _ hw))]
      exact h.waiting b hw
    · exact hkind
  case dispatches =>
    intro d hd
    rcases E.dispatches_new d hd with hd | ⟨rfl, -, hlive, -⟩
    · obtain ⟨hmem, hne⟩ := h.dispatches d hd
      refine ⟨hsub.subset hmem, fun hlive hc => ?_⟩
      rcases E.current with ⟨hsame, hkeep⟩ | hw | ⟨hnew, -⟩
      · exact hne (hkeep hlive).1 (hsame.symm.trans hc)
      · exact h.not_mem_waiting hmem (hc ▸ hw.mem_waiting)
      · exact Nat.lt_irrefl _ (hnew ▸ hc ▸ hlt d hmem)
    · exact ⟨hsub.subset h.current, fun hlive' => absurd (hlive.symm.trans hlive') nofun⟩
  case source =>
    intro e he
    rcases E.mem_edges he with he | ⟨rfl, ht⟩
    · exact hsub.subset (h.source e he)
    · exact hsub.subset (E.source_mem h ht)
  case forward =>
    intro e he hcloses
    rcases E.mem_edges he with he | ⟨hsource, ht⟩
    · rcases h.forward e he (fun hc => hcloses ((E.closes_iff (h.target_lt he)).mpr hc))
        with hw | hord
      · exact (E.waiting_old _ hw).imp_right (hlast (h.source e he) (.inl hw))
      · exact .inr (hord.trans hsub)
    · exact (hnew e hsource ht).1 hcloses
  case closing =>
    intro e he hcloses
    rcases E.mem_edges he with he | ⟨hsource, ht⟩
    · exact hsub.subset (h.closing e he ((E.closes_iff (h.target_lt he)).mp hcloses))
    · exact hsub.subset ((hnew e hsource ht).2 hcloses)

/-- At the start only the entry has been entered. -/
lemma Progress.ordered_start (fn : Node) : (start fn).Ordered [0] where
  nodup := nodup_singleton 0
  lt _ hb := mem_singleton.mp hb ▸ Nat.zero_lt_one
  entry := mem_singleton_self 0
  current := mem_singleton_self 0
  heads _ hh := absurd hh not_mem_nil
  waiting _ hb := absurd hb not_mem_nil
  dispatches _ hd := absurd hd not_mem_nil
  fits _ ho := absurd ho not_mem_nil
  source _ he := absurd he not_mem_nil
  forward _ he := absurd he not_mem_nil
  closing _ he := absurd he not_mem_nil

/-- **Invariants of a lowering.**  What holds at the start and is kept by every move of a lowering
in order holds at the end. -/
theorem Moves.invariant {fn : Node} {I : Progress → Prop} (hstart : I (.start fn))
    (hmove : ∀ {p p' order}, p.Ordered order → Move p p' → I p → I p') (ms : Moves (.start fn) p) :
    I p ∧ ∃ order, p.Ordered order := by
  induction ms with
  | refl => exact ⟨hstart, [0], Progress.ordered_start fn⟩
  | tail _ m ih =>
    obtain ⟨hI, order, h⟩ := ih
    exact ⟨hmove h m hI, _, h.move m⟩

end Recast.Flow
