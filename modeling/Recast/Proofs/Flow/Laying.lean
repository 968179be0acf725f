import Recast.Proofs.Flow.Layout
import Recast.Proofs.Flow.Realization

/-!
# Laying behaviours

`Laid exits s s' B` says of two moments of a lowering that a graph which keeps what was laid in
between realizes `B` there, whatever else is in the graph.  `Lays exits x B` says of a step that it
lays `B` whenever it is taken.

There is one rule for each way in which a lowering puts steps together.  All of them go the same
way: follow the lowering from one block to the next (`Lowering.Builds`), then follow what the graph
keeps of it backwards (`Builds.kept_run`, `Builds.kept_leaveTo`), and put together what the parts
do.

The clauses of a switch are the exception, since the edges that lead to them all leave one block,
which is not the current one when they are added; `LaidClauses` is about them.
-/

namespace Recast.Flow

open List
open Behaviour Lowering

/-! ## Laying a behaviour -/

/-- The blocks to which `break` and `continue` go exist. -/
def Within (n : Nat) (exits : List Exit) : Prop :=
  ∀ e ∈ exits, e.breakTo < n ∧ ∀ c, e.continueTo = some c → c < n

lemma Within.mono {n m : Nat} {exits : List Exit} (h : Within n exits) (hnm : n ≤ m) :
    Within m exits := by
  intro e he
  obtain ⟨hb, hc⟩ := h e he
  exact ⟨hb.trans_le hnm, fun c hcont => (hc c hcont).trans_le hnm⟩

lemma Within.cons {n b : Nat} {c : Option Nat} {exits : List Exit} (h : Within n exits) (hb : b < n)
    (hc : ∀ d, c = some d → d < n) : Within n (⟨b, c⟩ :: exits) := by
  intro e he
  rcases mem_cons.mp he with rfl | he
  · exact ⟨hb, hc⟩
  · exact h e he

lemma Within.breakTarget {n b : Nat} {exits : List Exit} (h : Within n exits)
    (hb : Lower.breakTarget? exits = some b) : b < n := by
  cases exits with
  | nil => cases hb
  | cons e es =>
    obtain rfl : e.breakTo = b := Option.some.inj hb
    exact (h e mem_cons_self).1

lemma Within.continueTarget {n c : Nat} {exits : List Exit} (h : Within n exits)
    (hc : Lower.continueTarget? exits = some c) : c < n := by
  obtain ⟨e, he, hcont⟩ := exists_of_findSome?_eq_some hc
  exact (h e he).2 c hcont

/-- **Laying a behaviour.**  Between two moments of a lowering there was laid what does this. -/
structure Laid (exits : List Exit) (s s' : Lowering) (B : Behaviour) : Prop where
  ready : s'.Ready
  grows : s.Grows s'
  realizes : ∀ g, s.Kept [] s' g → g.Realizes exits s.position s'.position B

/-- Whenever the step is taken, it lays this. -/
def Lays (exits : List Exit) (x : Lower Unit) (B : Behaviour) : Prop :=
  ∀ s : Lowering, s.Ready → Within s.size exits → Laid exits s (x.run s).2 B

variable {exits exits' : List Exit} {s s' : Lowering} {x y z : Lower Unit} {A B C : Behaviour}

/-- What is laid in the course of a compound statement is kept with the whole. -/
lemma Lays.builds {pending : List Nat} (hx : Lays exits x A) (hb : s.Builds pending s')
    (hw : Within s'.size exits) :
    s.Builds pending (x.run s').2 ∧ ∀ {g}, s.Kept pending (x.run s').2 g →
      s.Kept pending s' g ∧ g.Realizes exits s'.position (x.run s').2.position A := by
  have h := hx s' hb.ready hw
  refine ⟨hb.run h.ready h.grows, ?_⟩
  intro g hk
  obtain ⟨hkept, hpart⟩ := hb.kept_run h.grows hk
  exact ⟨hkept, h.realizes g hpart⟩

/-! ## Simple statements -/

lemma lays_return : Lays exits (return ()) (stop .through) :=
  fun s hs _ => ⟨hs, .refl s, fun _ _ => .skip⟩

lemma lays_place (n : Node) : Lays exits (Lower.place n) (emit n) := by
  intro s hs _
  refine ⟨hs.placed n, .placed hs n, ?_⟩
  intro g hk
  rw [show ((Lower.place n).run s).2.position = s.position.next from position_placed hs n]
  exact .emit (hk.holds hs)

lemma Lays.seq (hx : Lays exits x A) (hy : Lays exits y B) : Lays exits (do x; y) (A.seq B) := by
  intro s hs hw
  obtain ⟨hb₁, hk₁⟩ := hx.builds hs.builds hw
  obtain ⟨hb₂, hk₂⟩ := hy.builds hb₁ (hw.mono hb₁.grows.size_le)
  refine ⟨hb₂.ready, hb₂.grows, ?_⟩
  intro g hk
  obtain ⟨hk', hB⟩ := hk₂ hk
  exact (hk₁ hk').2.seq hB

lemma lays_placeAll (ns : List Node) : Lays exits (Lower.placeAll ns) (emitAll ns) := by
  induction ns with
  | nil => exact lays_return
  | cons n ns ih => exact (lays_place n).seq ih

/-- The current block is left for good, and what comes next goes to a new block. -/
lemma Laid.stop {e : Ending} (target : Option Nat) (kind : EdgeKind) (hs : s.Ready)
    (ht : ∀ b, target = some b → b < s.size)
    (he : ∀ q, Graph.landing exits q e = target.map (⟨·, 0⟩)) :
    Laid exits s (s.cut (target.toList.map fun b => (b, kind))) (stop e) := by
  rw [cut_eq hs.current_lt (by simpa using ht)]
  have hb := hs.builds.reserve .unreachable
  have hlt : ∀ t ∈ target.toList.map fun b => (b, kind), t.1 < (s.reserve .unreachable).size := by
    intro t hmem
    obtain ⟨b, hb, rfl⟩ := mem_map.mp hmem
    rw [size_reserve]
    exact Nat.lt_succ_of_lt (ht b (Option.mem_toList.mp hb))
  have hb' : s.Builds [] _ := hb.leaveTo _ s.size hlt (by simp) (by simp)
  refine ⟨hb'.ready, hb'.grows, ?_⟩
  intro g hk
  obtain ⟨-, hend⟩ := hb.kept_leaveTo (by simp) (by simp) hk
  have hfst : (Prod.fst ∘ fun b : Nat => (b, kind)) = id := rfl
  rw [position_reserve hs, map_map, hfst, map_id] at hend
  exact .stop hend (he _)

lemma lays_cutOff : Lays exits Lower.cutOff (stop .halted) := by
  intro s hs _
  exact Laid.stop none .fallThrough hs (by simp) (fun _ => rfl)

/-- What is said on the way is no part of the graph. -/
lemma Laid.logged (h : Laid exits s s' B) (log : Log) : Laid exits s { s' with log := log } B where
  ready := ⟨h.ready.current_lt, h.ready.unended, h.ready.joined⟩
  grows := ⟨h.grows.size_le, h.grows.same, h.grows.nodes, h.grows.moved⟩
  realizes g hk := h.realizes g ⟨hk.same, hk.nodes⟩

/-- `break` and `continue` go where the statements around them say, and end the function if none
takes them up. -/
lemma lays_leave (word : String) : Lays exits (Lower.leave exits word) (stop (endingOf word)) := by
  intro s hs hw
  rw [Lower.leave, endingOf]
  by_cases hword : (word == "break") = true
  · rw [if_pos hword, if_pos hword]
    cases ht : Lower.breakTarget? exits with
    | none =>
      exact (Laid.stop none .breakOut hs (by simp) (fun q => by rw [Graph.landing, ht])).logged _
    | some b =>
      have he : ∀ q, Graph.landing exits q .broken = (some b).map (⟨·, 0⟩) :=
        fun q => by rw [Graph.landing, ht]
      refine Laid.stop (some b) .breakOut hs ?_ he
      rintro _ ⟨⟩
      exact hw.breakTarget ht
  · rw [if_neg hword, if_neg hword]
    cases ht : Lower.continueTarget? exits with
    | none =>
      exact (Laid.stop none .continueOn hs (by simp) (fun q => by rw [Graph.landing, ht])).logged _
    | some c =>
      have he : ∀ q, Graph.landing exits q .continued = (some c).map (⟨·, 0⟩) :=
        fun q => by rw [Graph.landing, ht]
      refine Laid.stop (some c) .continueOn hs ?_ he
      rintro _ ⟨⟩
      exact hw.continueTarget ht

/-! ## Conditions -/

/-- What is done if a condition holds, with what comes behind it. -/
lemma Laid.ifThen (hs : s.Ready) (hw : Within s.size exits) (hx : Lays exits x A) :
    let done := (s.reserve .ifThen).size
    Laid exits s
      ((x.run (((s.reserve .ifThen).reserve .ifDone).leaveTo
        [(s.size, .branchTrue), (done, .branchFalse)] s.size)).2.leaveTo
        [(done, .fallThrough)] done)
      (choice A (Behaviour.stop .through)) := by
  simp only [size_reserve]
  have hb₀ : s.Builds [s.size + 1, s.size] ((s.reserve .ifThen).reserve .ifDone) := by
    simpa only [size_reserve] using (hs.builds.reserve .ifThen).reserve .ifDone
  have hb₁ : s.Builds [s.size + 1] _ :=
    hb₀.leaveTo [(s.size, .branchTrue), (s.size + 1, .branchFalse)] s.size
      (by simp only [size_reserve, mem_cons, not_mem_nil, or_false, forall_eq_or_imp, forall_eq]
          omega) (by simp) (by simp)
  obtain ⟨hb₂, hk₂⟩ := hx.builds hb₁ (hw.mono hb₁.grows.size_le)
  have hdone := (hb₂.vacant (s.size + 1) (by simp)).2.lt
  have hb₃ : s.Builds [] _ :=
    hb₂.leaveTo [(s.size + 1, .fallThrough)] (s.size + 1) (by simpa using hdone) (by simp) (by simp)
  refine ⟨hb₃.ready, hb₃.grows, ?_⟩
  intro g hk
  obtain ⟨hk, hend⟩ := hb₂.kept_leaveTo (by simp) (by simp) hk
  obtain ⟨hk, hthen⟩ := hk₂ hk
  obtain ⟨-, hcond⟩ := hb₀.kept_leaveTo (by simp) (by simp) hk
  rw [position_reserve (hs.reserve _), position_reserve hs] at hcond
  rw [hb₀.position_leaveTo (by simp)] at hthen
  rw [hb₂.position_leaveTo (by simp)]
  exact .choice hcond (hthen.jump hend) .skip

/-- What is done if a condition holds and if it does not, with what comes behind both. -/
lemma Laid.ifElse (hs : s.Ready) (hw : Within s.size exits) (hx : Lays exits x A)
    (hy : Lays exits y B) :
    let elseBlock := (s.reserve .ifThen).size
    let done := ((s.reserve .ifThen).reserve .ifElse).size
    Laid exits s
      ((y.run ((x.run ((((s.reserve .ifThen).reserve .ifElse).reserve .ifDone).leaveTo
        [(s.size, .branchTrue), (elseBlock, .branchFalse)] s.size)).2.leaveTo
          [(done, .fallThrough)] elseBlock)).2.leaveTo [(done, .fallThrough)] done)
      (choice A B) := by
  simp only [size_reserve]
  have hb₀ : s.Builds [s.size + 2, s.size + 1, s.size]
      (((s.reserve .ifThen).reserve .ifElse).reserve .ifDone) := by
    simpa only [size_reserve] using ((hs.builds.reserve .ifThen).reserve .ifElse).reserve .ifDone
  have hb₁ : s.Builds [s.size + 2, s.size + 1] _ :=
    hb₀.leaveTo [(s.size, .branchTrue), (s.size + 1, .branchFalse)] s.size
      (by simp; omega) (by simp) (by simp)
  obtain ⟨hb₂, hk₂⟩ := hx.builds hb₁ (hw.mono hb₁.grows.size_le)
  have hdone₂ := (hb₂.vacant (s.size + 2) (by simp)).2.lt
  have hb₃ : s.Builds [s.size + 2] _ :=
    hb₂.leaveTo [(s.size + 2, .fallThrough)] (s.size + 1)
      (by simpa using hdone₂) (by simp) (by simp)
  obtain ⟨hb₄, hk₄⟩ := hy.builds hb₃ (hw.mono hb₃.grows.size_le)
  have hdone₄ := (hb₄.vacant (s.size + 2) (by simp)).2.lt
  have hb₅ : s.Builds [] _ :=
    hb₄.leaveTo [(s.size + 2, .fallThrough)] (s.size + 2)
      (by simpa using hdone₄) (by simp) (by simp)
  refine ⟨hb₅.ready, hb₅.grows, ?_⟩
  intro g hk
  obtain ⟨hk, hend⟩ := hb₄.kept_leaveTo (by simp) (by simp) hk
  obtain ⟨hk, helse⟩ := hk₄ hk
  obtain ⟨hk, hend'⟩ := hb₂.kept_leaveTo (by simp) (by simp) hk
  obtain ⟨hk, hthen⟩ := hk₂ hk
  obtain ⟨-, hcond⟩ := hb₀.kept_leaveTo (by simp) (by simp) hk
  rw [position_reserve ((hs.reserve _).reserve _), position_reserve (hs.reserve _),
    position_reserve hs] at hcond
  rw [hb₀.position_leaveTo (by simp)] at hthen
  rw [hb₂.position_leaveTo (by simp)] at helse
  rw [hb₄.position_leaveTo (by simp)]
  exact .choice hcond (hthen.jump hend') (helse.jump hend)

/-! ## Loops -/

/-- How the head of a loop is left: to the body and, if the loop has a way out there, behind the
loop. -/
def headTargets (body done : Nat) (hasExit : Bool) : List (Nat × EdgeKind) :=
  if hasExit then [(body, .branchTrue), (done, .branchFalse)] else [(body, .fallThrough)]

lemma headTargets_lt {body done n : Nat} (hbody : body < n) (hdone : done < n) (hasExit : Bool) :
    ∀ t ∈ headTargets body done hasExit, t.1 < n := by
  cases hasExit with
  | false => simpa [headTargets] using hbody
  | true => simpa [headTargets] using ⟨hbody, hdone⟩

/-- A loop does its rounds if its parts do theirs. -/
lemma realizes_loop {g : Graph} {p r : Position} {loop bodyBlock done cont : Nat} {hasExit : Bool}
    {head body between : Behaviour} (hp : g.EndsAt p [loop])
    (hhead : g.Realizes exits ⟨loop, 0⟩ r head)
    (hr : g.EndsAt r ((headTargets bodyBlock done hasExit).map Prod.fst))
    (hbody : g.Realizes (⟨done, some cont⟩ :: exits) ⟨bodyBlock, 0⟩ ⟨cont, 0⟩ body)
    (hbetween : g.Realizes exits ⟨cont, 0⟩ ⟨loop, 0⟩ between) :
    g.Realizes exits p ⟨done, 0⟩ (rounds head body between (hasExit = true)) := by
  have hrounds : g.Realizes exits ⟨loop, 0⟩ ⟨done, 0⟩
      (rounds head body between (hasExit = true)) := by
    refine .rounds hhead hr ?_ ?_ ?_ hbody hbetween
    · cases hasExit <;> simp [headTargets]
    · rintro rfl
      simp [headTargets]
    · cases hasExit <;> simp [headTargets]
  exact hrounds.offers.branch hp (by simp)

/-- The head of a loop is entered. -/
def loopStart (s : Lowering) (kind : BlockKind) : Lowering :=
  (s.reserve kind).leaveTo [(s.size, .fallThrough)] s.size

@[simp] lemma size_loopStart (kind : BlockKind) : (loopStart s kind).size = s.size + 1 :=
  (size_leaveTo _).trans (size_reserve kind)

/-- The blocks of a loop can as well be reserved before its head is entered. -/
lemma reserve_loopStart (hs : s.Ready) (kind₀ kind₁ : BlockKind) :
    (loopStart s kind₀).reserve kind₁ =
    ((s.reserve kind₀).reserve kind₁).leaveTo [(s.size, .fallThrough)] s.size :=
  reserve_leaveTo kind₁ s.size (hs.reserve kind₀).current_lt (by simp)

/-- The rounds of a loop with nothing between them: the body ends where the head begins. -/
lemma Laid.loop (kind₀ kind₁ kind₂ : BlockKind) (hasExit : Bool) (hs : s.Ready)
    (hw : Within s.size exits) (hx : Lays exits x A)
    (hy : Lays (⟨((loopStart s kind₀).reserve kind₁).size, some s.size⟩ :: exits) y B) :
    let bodyBlock := (loopStart s kind₀).size
    let done := ((loopStart s kind₀).reserve kind₁).size
    Laid exits s
      ((y.run ((x.run (((loopStart s kind₀).reserve kind₁).reserve kind₂)).2.leaveTo
        (headTargets bodyBlock done hasExit) bodyBlock)).2.leaveTo [(s.size, .backEdge)] done)
      (rounds A B (Behaviour.stop .through) (hasExit = true)) := by
  simp only [size_reserve, size_loopStart] at hy ⊢
  rw [reserve_loopStart hs, reserve_leaveTo kind₂ s.size ((hs.reserve _).reserve _).current_lt
    (forall_mem_singleton.mpr (by rw [size_reserve, size_reserve]; omega))]
  have hb₀ : s.Builds [s.size + 2, s.size + 1, s.size]
      (((s.reserve kind₀).reserve kind₁).reserve kind₂) := by
    simpa only [size_reserve] using ((hs.builds.reserve kind₀).reserve kind₁).reserve kind₂
  have hb₁ : s.Builds [s.size + 2, s.size + 1] _ :=
    hb₀.leaveTo [(s.size, .fallThrough)] s.size (by simp; omega) (by simp) (by simp)
  obtain ⟨hb₂, hk₂⟩ := hx.builds hb₁ (hw.mono hb₁.grows.size_le)
  have hlt₁ := (hb₂.vacant (s.size + 1) (by simp)).2.lt
  have hlt₂ := (hb₂.vacant (s.size + 2) (by simp)).2.lt
  have hb₃ : s.Builds [s.size + 2] _ :=
    hb₂.leaveTo _ (s.size + 1) (headTargets_lt hlt₁ hlt₂ hasExit) (by simp) (by simp)
  have hlt₃ := (hb₃.vacant (s.size + 2) (by simp)).2.lt
  obtain ⟨hb₄, hk₄⟩ := hy.builds hb₃
    ((hw.mono hb₃.grows.size_le).cons hlt₃ (by rintro _ ⟨⟩; omega))
  have hlt₄ := (hb₄.vacant (s.size + 2) (by simp)).2.lt
  have hb₅ : s.Builds [] _ :=
    hb₄.leaveTo [(s.size, .backEdge)] (s.size + 2) (by simp; omega) (by simp) (by simp)
  refine ⟨hb₅.ready, hb₅.grows, ?_⟩
  intro g hk
  obtain ⟨hk, hback⟩ := hb₄.kept_leaveTo (by simp) (by simp) hk
  obtain ⟨hk, hbody⟩ := hk₄ hk
  obtain ⟨hk, hleave⟩ := hb₂.kept_leaveTo (by simp) (by simp) hk
  obtain ⟨hk, hhead⟩ := hk₂ hk
  obtain ⟨-, hinto⟩ := hb₀.kept_leaveTo (by simp) (by simp) hk
  rw [position_reserve ((hs.reserve _).reserve _), position_reserve (hs.reserve _),
    position_reserve hs] at hinto
  rw [hb₀.position_leaveTo (by simp)] at hhead
  rw [hb₂.position_leaveTo (by simp)] at hbody
  rw [hb₄.position_leaveTo (by simp)]
  exact realizes_loop hinto hhead hleave (hbody.jump hback) .skip

/-- The same with one node for the head, where the other blocks are reserved after the node was
placed. -/
lemma Laid.loopNode (kind₀ kind₁ kind₂ : BlockKind) (n : Node) (hs : s.Ready)
    (hw : Within s.size exits)
    (hy : Lays (⟨(((loopStart s kind₀).placed n).reserve kind₁).size, some s.size⟩ :: exits) y B) :
    let loop := (loopStart s kind₀).placed n
    Laid exits s
      ((y.run (((loop.reserve kind₁).reserve kind₂).leaveTo
        (headTargets loop.size (loop.reserve kind₁).size true) loop.size)).2.leaveTo
          [(s.size, .backEdge)] (loop.reserve kind₁).size)
      (rounds (emit n) B (Behaviour.stop .through) True) := by
  have hb : s.Builds [] (loopStart s kind₀) :=
    (hs.builds.reserve kind₀).leaveTo [(s.size, .fallThrough)] s.size (by simp) (by simp) (by simp)
  have hreserve := reserve_placed hb.ready n kind₁
  have hreserve' := reserve_placed (hb.ready.reserve kind₁) n kind₂
  simp only [hreserve, hreserve', size_placed] at hy ⊢
  have h := Laid.loop kind₀ kind₁ kind₂ true hs hw (lays_place n) hy
  rw [eq_self_iff_true] at h
  exact h

/-- The rounds of a loop with something between them: the body ends where that begins, and that ends
where the head begins. -/
lemma Laid.loopPost (kind₀ kind₁ kind₂ kind₃ : BlockKind) (hasExit : Bool) (hs : s.Ready)
    (hw : Within s.size exits) (hx : Lays exits x A)
    (hy : Lays (⟨((loopStart s kind₀).reserve kind₁).size,
      some (((loopStart s kind₀).reserve kind₁).reserve kind₂).size⟩ :: exits) y B)
        (hz : Lays exits z C) :
    let bodyBlock := (loopStart s kind₀).size
    let done := ((loopStart s kind₀).reserve kind₁).size
    let postBlock := (((loopStart s kind₀).reserve kind₁).reserve kind₂).size
    Laid exits s
      ((z.run
        ((y.run
          ((x.run ((((loopStart s kind₀).reserve kind₁).reserve kind₂).reserve kind₃)).2.leaveTo
        (headTargets bodyBlock done hasExit) bodyBlock)).2.leaveTo
          [(postBlock, .fallThrough)] postBlock)).2.leaveTo [(s.size, .backEdge)] done)
      (rounds A B C (hasExit = true)) := by
  simp only [size_reserve, size_loopStart] at hy ⊢
  rw [reserve_loopStart hs, reserve_leaveTo kind₂ s.size ((hs.reserve _).reserve _).current_lt
    (forall_mem_singleton.mpr (by rw [size_reserve, size_reserve]; omega)),
    reserve_leaveTo kind₃ s.size (((hs.reserve _).reserve _).reserve _).current_lt
      (forall_mem_singleton.mpr (by rw [size_reserve, size_reserve, size_reserve]; omega))]
  have hb₀ : s.Builds [s.size + 3, s.size + 2, s.size + 1, s.size]
      ((((s.reserve kind₀).reserve kind₁).reserve kind₂).reserve kind₃) := by
    simpa only [size_reserve]
      using (((hs.builds.reserve kind₀).reserve kind₁).reserve kind₂).reserve kind₃
  have hb₁ : s.Builds [s.size + 3, s.size + 2, s.size + 1] _ :=
    hb₀.leaveTo [(s.size, .fallThrough)] s.size (by simp; omega) (by simp) (by simp)
  obtain ⟨hb₂, hk₂⟩ := hx.builds hb₁ (hw.mono hb₁.grows.size_le)
  have hlt₁ := (hb₂.vacant (s.size + 1) (by simp)).2.lt
  have hlt₂ := (hb₂.vacant (s.size + 2) (by simp)).2.lt
  have hb₃ : s.Builds [s.size + 3, s.size + 2] _ :=
    hb₂.leaveTo _ (s.size + 1) (headTargets_lt hlt₁ hlt₂ hasExit) (by simp) (by simp)
  have hlt₃ := (hb₃.vacant (s.size + 3) (by simp)).2.lt
  obtain ⟨hb₄, hk₄⟩ := hy.builds hb₃
    ((hw.mono hb₃.grows.size_le).cons (by omega) (by rintro _ ⟨⟩; exact hlt₃))
  have hlt₄ := (hb₄.vacant (s.size + 3) (by simp)).2.lt
  have hb₅ : s.Builds [s.size + 2] _ :=
    hb₄.leaveTo [(s.size + 3, .fallThrough)] (s.size + 3) (by simpa using hlt₄) (by simp) (by simp)
  obtain ⟨hb₆, hk₆⟩ := hz.builds hb₅ (hw.mono hb₅.grows.size_le)
  have hlt₆ := (hb₆.vacant (s.size + 2) (by simp)).2.lt
  have hb₇ : s.Builds [] _ :=
    hb₆.leaveTo [(s.size, .backEdge)] (s.size + 2) (by simp; omega) (by simp) (by simp)
  refine ⟨hb₇.ready, hb₇.grows, ?_⟩
  intro g hk
  obtain ⟨hk, hback⟩ := hb₆.kept_leaveTo (by simp) (by simp) hk
  obtain ⟨hk, hbetween⟩ := hk₆ hk
  obtain ⟨hk, hend⟩ := hb₄.kept_leaveTo (by simp) (by simp) hk
  obtain ⟨hk, hbody⟩ := hk₄ hk
  obtain ⟨hk, hleave⟩ := hb₂.kept_leaveTo (by simp) (by simp) hk
  obtain ⟨hk, hhead⟩ := hk₂ hk
  obtain ⟨-, hinto⟩ := hb₀.kept_leaveTo (by simp) (by simp) hk
  rw [position_reserve (((hs.reserve _).reserve _).reserve _),
    position_reserve ((hs.reserve _).reserve _),
    position_reserve (hs.reserve _), position_reserve hs] at hinto
  rw [hb₀.position_leaveTo (by simp)] at hhead
  rw [hb₂.position_leaveTo (by simp)] at hbody
  rw [hb₄.position_leaveTo (by simp)] at hbetween
  rw [hb₆.position_leaveTo (by simp)]
  exact realizes_loop hinto hhead hleave (hbody.jump hend) (hbetween.jump hback)

/-! ## Switches -/

/-- **Laying clauses.**  The clauses of a switch were laid between two moments.  Each begins with a
new block, an edge leads there from the block `before`, which is not the current one any more, and
all end at the block `done`. -/
structure LaidClauses (exits : List Exit) (before done : Nat) (s s' : Lowering)
    (entries : List Nat) (B : Behaviour) :
    Prop where
  joined : s'.graph.Joined
  size_le : s.size ≤ s'.size
  same : ∀ b < s.size, b ≠ before → Graph.Same b s.graph s'.graph
  nodes_before : (s'.graph.block before).nodes = (s.graph.block before).nodes
  successors_before : s'.graph.successors before = s.graph.successors before ++ entries
  offers : ∀ g, (∀ b, s.size ≤ b → b < s'.size → Graph.Same b s'.graph g) →
    g.Offers exits entries ⟨done, 0⟩ B

variable {before done : Nat} {entries : List Nat}

lemma LaidClauses.nil (hs : s.graph.Joined) :
    LaidClauses exits before done s s [] (fun _ _ => False) where
  joined := hs
  size_le := Nat.le_refl _
  same _ _ _ := ⟨rfl, rfl⟩
  nodes_before := rfl
  successors_before := (append_nil _).symm
  offers _ _ := Graph.offers_nil

/-- The moment at which the body of a clause begins. -/
def clauseStart (s : Lowering) (before : Nat) (kind : EdgeKind) : Lowering :=
  { (s.reserve .switchBody).linked before [(s.size, kind)] with current := s.size }

lemma size_clauseStart (kind : EdgeKind) : (clauseStart s before kind).size = s.size + 1 := by
  show ((s.reserve .switchBody).linked before [(s.size, kind)]).size = _
  rw [size_linked, size_reserve]

lemma same_clauseStart (kind : EdgeKind) {b : Nat} (hb : b < s.size) (hne : b ≠ before) :
    Graph.Same b s.graph (clauseStart s before kind).graph :=
  (same_reserve .switchBody hb).trans (same_linked _ hne)

lemma ready_clauseStart (kind : EdgeKind) (hs : s.graph.Joined) (hbefore : before < s.size) :
    (clauseStart s before kind).Ready where
  current_lt := by
    rw [size_clauseStart]
    exact Nat.lt_succ_self _
  unended := by
    have hne : s.size ≠ before := by omega
    exact (same_linked (s := s.reserve .switchBody) [(s.size, kind)] hne).2.trans
      (hs.successors_eq_nil (Nat.le_refl _))
  joined := by
    refine joined_linked (joined_reserve hs .switchBody) ?_ ?_
    · rw [size_reserve]
      omega
    · simp

lemma position_clauseStart (kind : EdgeKind) :
    (clauseStart s before kind).position = ⟨s.size, 0⟩ := by
  show (⟨s.size,
    (((s.reserve .switchBody).linked before [(s.size, kind)]).graph.block s.size).nodes.length⟩ :
    Position) = _
  rw [nodes_linked]
  exact congrArg _ (congrArg length (Graph.nodes_addBlock s.graph .switchBody (Nat.le_refl _)))

/-- One more clause: its body is laid, its last block leads to the end of the switch, and the other
clauses follow. -/
lemma Laid.clause {kind : EdgeKind} (hbefore : before < s.size)
    {a : Lowering} (hA : Laid exits (clauseStart s before kind) a A)
    (hB : LaidClauses exits before done (a.linked a.current [(done, .fallThrough)]) s' entries B) :
    LaidClauses exits before done s s' (s.size :: entries) (choice A B) := by
  have hsize := hA.grows.size_le
  have hsize' := hB.size_le
  rw [size_clauseStart] at hsize
  rw [size_linked] at hsize'
  have hcur : s.size ≤ a.current := by
    rcases hA.grows.moved with hm | hm
    · exact Nat.le_of_eq hm.symm
    · rw [size_clauseStart] at hm
      omega
  -- what the body and the other clauses leave of the blocks that were there before
  have hrest : ∀ b < s.size, Graph.Same b (clauseStart s before kind).graph
      (a.linked a.current [(done, .fallThrough)]).graph := by
    intro b hb
    refine (hA.grows.same b ?_ (show b ≠ s.size by omega)).trans (same_linked _ (by omega))
    rw [size_clauseStart]
    omega
  refine ⟨hB.joined, by omega, ?_, ?_, ?_, ?_⟩
  · intro b hb hne
    refine ((same_clauseStart kind hb hne).trans (hrest b hb)).trans (hB.same b ?_ hne)
    rw [size_linked]
    omega
  · rw [hB.nodes_before, (hrest before hbefore).1]
    exact (nodes_linked _ before).trans (same_reserve _ hbefore).1
  · rw [hB.successors_before, (hrest before hbefore).2]
    have hlinked := successors_linked (s := s.reserve .switchBody) (b := before) [(s.size, kind)]
    rw [show (clauseStart s before kind).graph.successors before = _ from hlinked]
    exact (append_assoc _ _ _)
  · intro g hg
    -- the blocks of the body are as they were when it was left
    have hbody : ∀ b, s.size ≤ b → b < a.size →
        Graph.Same b (a.linked a.current [(done, .fallThrough)]).graph g := by
      intro b hle hlt
      refine (hB.same b ?_ (by omega)).trans (hg b hle (by omega))
      rw [size_linked]
      exact hlt
    have hlast : Graph.Same a.current (a.leaveTo [(done, .fallThrough)] a.current).graph g :=
      hbody _ hcur hA.ready.current_lt
    have hkept : (clauseStart s before kind).Kept [] a g := by
      refine ⟨?_, ?_⟩
      · intro b hb hlt hne _
        refine (same_linked [(done, .fallThrough)] hne).trans (hbody b ?_ hlt)
        rcases hb with rfl | hb
        · exact Nat.le_refl _
        · rw [size_clauseStart] at hb
          omega
      · have hnodes : (g.block a.current).nodes = (a.graph.block a.current).nodes :=
          hlast.1.trans (nodes_linked _ _)
        exact hnodes ▸ prefix_refl _
    have hrealizes := (hA.realizes g hkept).jump (hA.ready.endsAt hlast)
    rw [position_clauseStart] at hrealizes
    refine hrealizes.offers.append (hB.offers g ?_)
    intro b hle hlt
    rw [size_linked] at hle
    exact hg b (by omega) hlt

/-- The end of a switch: without a default clause, control may go there right away. -/
def switchDone (s s' : Lowering) (hasDefault : Bool) : Lowering :=
  { s'.linked s.current (if hasDefault then [] else [(s.size, .switchDefault)]) with
    current := s.size }

section SwitchDone

variable {hasDefault : Bool} (hs : s.Ready)
  (hA : LaidClauses (⟨s.size, none⟩ :: exits) s.current s.size (s.reserve .switchDone) s' entries A)

lemma size_switchDone : (switchDone s s' hasDefault).size = s'.size := size_linked _

lemma same_switchDone {b : Nat} (h : b ≠ s.current) :
    Graph.Same b s'.graph (switchDone s s' hasDefault).graph :=
  same_linked _ h

include hA in
lemma LaidClauses.size_lt : s.size < s'.size := by
  have hsize := hA.size_le
  rw [size_reserve] at hsize
  exact hsize

include hs hA in
lemma LaidClauses.same_done :
    Graph.Same s.size (s.reserve .switchDone).graph (switchDone s s' hasDefault).graph := by
  have hne : s.size ≠ s.current := (Nat.ne_of_lt hs.current_lt).symm
  refine (hA.same s.size ?_ hne).trans (same_switchDone hne)
  rw [size_reserve]
  exact Nat.lt_succ_self _

include hs hA in
lemma LaidClauses.nodes_switchDone :
    ((switchDone s s' hasDefault).graph.block s.current).nodes = (s.graph.block s.current).nodes :=
  (nodes_linked _ _).trans (hA.nodes_before.trans (same_reserve .switchDone hs.current_lt).1)

include hs hA in
lemma LaidClauses.successors_switchDone : (switchDone s s' hasDefault).graph.successors s.current =
    entries ++ if hasDefault then [] else [s.size] := by
  have hbefore : s'.graph.successors s.current = entries := by
    rw [hA.successors_before]
    show s.graph.successors s.current ++ entries = entries
    rw [hs.unended, nil_append]
  show (s'.linked s.current _).graph.successors s.current = _
  rw [successors_linked, hbefore]
  cases hasDefault with
  | false => rfl
  | true => rfl

include hs hA in
lemma LaidClauses.ready_switchDone : (switchDone s s' hasDefault).Ready where
  current_lt := by
    rw [size_switchDone]
    exact hA.size_lt
  unended := (hA.same_done hs).2.trans (hs.joined.successors_eq_nil (Nat.le_refl _))
  joined := by
    refine joined_linked hA.joined (hs.current_lt.trans hA.size_lt) ?_
    cases hasDefault with
    | false => simpa using hA.size_lt
    | true => simp

include hs hA in
lemma LaidClauses.grows_switchDone : s.Grows (switchDone s s' hasDefault) where
  size_le := by
    rw [size_switchDone]
    exact hA.size_lt.le
  same b hb hne := by
    refine ((same_reserve .switchDone hb).trans (hA.same b ?_ hne)).trans (same_switchDone hne)
    rw [size_reserve]
    exact Nat.lt_succ_of_lt hb
  nodes := by
    exact hA.nodes_switchDone hs ▸ prefix_refl _
  moved := Or.inr (Nat.le_refl _)

include hs hA in
lemma LaidClauses.position_switchDone : (switchDone s s' hasDefault).position = ⟨s.size, 0⟩ := by
  have hnil : ((switchDone s s' hasDefault).graph.block s.size).nodes = [] := by
    rw [(hA.same_done hs).1]
    exact Graph.nodes_addBlock s.graph .switchDone (Nat.le_refl _)
  show (⟨s.size, ((switchDone s s' hasDefault).graph.block s.size).nodes.length⟩ : Position) = _
  rw [hnil]
  rfl

include hs hA in
/-- One clause of a switch is taken or, without a default clause, perhaps none. -/
lemma LaidClauses.switch (hne : hasDefault = true → entries ≠ []) :
    Laid exits s (switchDone s s' hasDefault)
      (breakable fun t e => A t e ∨ hasDefault = false ∧ Behaviour.stop .through t e) := by
  refine ⟨hA.ready_switchDone hs, hA.grows_switchDone hs, ?_⟩
  intro g hk
  have hlt := hs.current_lt
  have hoffers : g.Offers (⟨s.size, none⟩ :: exits) entries ⟨s.size, 0⟩ A := by
    refine hA.offers g ?_
    intro b hle hlt
    rw [size_reserve] at hle
    refine (same_switchDone (show b ≠ s.current by omega)).trans
      (hk.same b (Or.inr (by omega)) ?_ (show b ≠ s.size by omega) not_mem_nil)
    rw [size_switchDone]
    exact hlt
  have hcur : Graph.Same s.current (switchDone s s' hasDefault).graph g := by
    refine hk.same s.current (Or.inl rfl) ?_ (show s.current ≠ s.size by omega) not_mem_nil
    rw [size_switchDone]
    exact hlt.trans hA.size_lt
  have hend : g.EndsAt s.position (entries ++ if hasDefault then [] else [s.size]) := by
    refine ⟨?_, ?_⟩
    · rw [position, hcur.1, hA.nodes_switchDone hs]
    · show g.successors s.current = _
      rw [hcur.2, hA.successors_switchDone hs]
  rw [hA.position_switchDone hs]
  refine .breakable ((hoffers.orNone hasDefault).branch hend ?_)
  cases hasDefault with
  | false => simp
  | true => simpa using hne rfl

end SwitchDone

end Recast.Flow
