import Mathlib.Data.List.Flatten
import Recast.Proofs.Lockstep.Units
import Recast.Proofs.Names.Completion

/-!
# Completion in step

Two readings of one unit complete the same declarations, each when it is first needed.

**Waking a declaration.**  The identifiers of a declaration that waits are busy: nothing is known
about them, and they are none of those that a computation is about.  When it becomes active it is
their turn, and when it is complete they have had it.  So to complete a declaration is, from
outside, a computation on no identifiers at all.

* `Reading.Sound.completes` — declarations are completed in step, however deep.
-/

namespace Recast.Lockstep

open List hiding modify
open Lexical
open Resolve hiding bind
open Ty (Alike Matching Matches)

variable {L : Link} {p : Prop} {T : List Ident} {r r' : Resolver} {b b' : Nat} {t t' : Ty}
  {s s' : Scope} [hL : L.Lawful]

/-! ## Types of bindings -/

/-- What is known about pending declarations does not depend on types. -/
def Link.Loose (L : Link) : Prop := ∀ {r r'}, Link.SamePending r r' → r'.info.defs = r.info.defs →
  r'.info.uses = r.info.uses → L.okay r → L.okay r' ∧ L.busy r' = L.busy r

omit hL in
lemma Link.Loose.moves (h : L.Loose) (hsame : Link.SamePending r r')
    (hdefs : r'.info.defs = r.info.defs)
    (huses : r'.info.uses = r.info.uses) (hsize : r'.info.bindings.size = r.info.bindings.size)
    (hname : ∀ b, (r'.info.binding b).name = (r.info.binding b).name)
    (hkind : ∀ b, (r'.info.binding b).kind = (r.info.binding b).kind) : L.Moves [] r r' := by
  intro hokay _
  obtain ⟨hokay', hbusy⟩ := h hsame hdefs huses hokay
  exact ⟨hokay', fun i hi => hbusy ▸ hi, fun _ _ _ _ => by rw [hdefs], fun _ _ _ _ => by rw [huses],
    Nat.le_of_eq hsize.symm, fun b _ => hname b, fun b _ => hkind b⟩

lemma binding_setType (b : Nat) (t : Ty) (r : Resolver) (c : Nat) :
    ((setType b t).run r).2.info.binding c =
    if b = c ∧ c < r.info.bindings.size then { r.info.binding c with type := t }
      else r.info.binding c := by
  show ({ r.info with bindings := r.info.bindings.modify b _ } : Info).binding c = _
  rw [Info.binding, Info.binding, Array.getD_eq_getD_getElem?, Array.getD_eq_getD_getElem?,
    Array.getElem?_modify]
  by_cases hc : c < r.info.bindings.size
  · rw [Array.getElem?_eq_getElem hc]
    by_cases hb : b = c
    · rw [if_pos hb, if_pos ⟨hb, hc⟩]
      rfl
    · rw [if_neg hb, if_neg fun h => hb h.1]
  · have hout : ¬(b = c ∧ c < r.info.bindings.size) := fun h => hc h.2
    rw [Array.getElem?_eq_none (Nat.le_of_not_lt hc), if_neg hout]
    split <;> rfl

lemma sim_setType (hloose : L.Loose) (hb : p → L.binds b b') (ht : p → Alike L.matching t t') :
    Sim L p [] (setType b t) (setType b' t') fun _ _ => True := by
  have hname : ∀ (b : Nat) (t : Ty) (r : Resolver) (c : Nat),
      (((setType b t).run r).2.info.binding c).name = (r.info.binding c).name := by
    intro b t r c
    rw [binding_setType]
    split <;> rfl
  have hmoves : ∀ r, L.Moves [] r ((setType b t).run r).2 := by
    intro r
    refine hloose.moves ⟨rfl, rfl⟩ rfl rfl Array.size_modify (hname b t r) fun c => ?_
    rw [binding_setType]
    split <;> rfl
  refine ⟨hmoves, fun hp later r r' _ hagree _ => ⟨?_, trivial⟩⟩
  have hsize : ∀ (b : Nat) (t : Ty) (r : Resolver), ((setType b t).run r).2.info.bindings.size =
      r.info.bindings.size :=
    fun _ _ _ => Array.size_modify
  refine { hagree with
    okay := (hmoves r hagree.okay (by simp)).okay
    inv := hL.inv hagree.inv ⟨rfl, rfl⟩ ⟨rfl, rfl⟩
    made := ?_
    next := ?_
    binding := ?_
    renamed := ?_ }
  · intro c c' hc
    rw [hsize, hsize]
    exact hagree.made hc
  · intro k
    rw [hsize, hsize]
    exact hagree.next k
  · intro c c' hc
    have hrel := hagree.binding hc
    rw [binding_setType, binding_setType]
    by_cases hset : b = c ∧ c < r.info.bindings.size
    · rw [if_pos hset, if_pos ⟨(hL.one (hb hp) hc).mp hset.1, (hagree.made hc).mp hset.2⟩]
      exact { hrel with type := ht hp }
    · rw [if_neg hset, if_neg fun h => hset ⟨(hL.one (hb hp) hc).mpr h.1, (hagree.made hc).mpr h.2⟩]
      exact hrel
  · intro c c' hc hmade
    rw [hsize] at hmade
    rw [hname, hname]
    exact hagree.renamed hc hmade

/-! ## What a declaration stands for -/

/-- Records what a named type stands for. -/
def standFor (n : Nat) (t : Ty) : Resolve Unit :=
  modify fun r => { r with info := { r.info with underlying := r.info.underlying.complete n t } }

/-- A type, if it is a named one, stands for another. -/
def nowStandsFor (t : Ty) : Ty → Resolve Unit
  | .named n _ _ => standFor n t
  | _ => pure ()

lemma sim_standFor (hloose : L.Loose) (hone : L.matching.OneToOne) {n n' : Nat}
    (hn : p → L.matching.decl n n') (ht : p → Alike L.matching t t') :
    Sim L p [] (standFor n t) (standFor n' t') fun _ _ => True := by
  have hmoves : ∀ r, L.Moves [] r ((standFor n t).run r).2 := fun r =>
    hloose.moves ⟨rfl, rfl⟩ rfl rfl rfl (fun _ => rfl) fun _ => rfl
  refine ⟨hmoves, fun hp later r r' _ hagree _ => ⟨?_, trivial⟩⟩
  exact { hagree with
    okay := (hmoves r hagree.okay (by simp)).okay
    inv := hL.inv hagree.inv ⟨rfl, rfl⟩ ⟨rfl, rfl⟩
    underlying := hagree.underlying.complete hone (hn hp) (ht hp) }

lemma sim_nowStandsFor (hloose : L.Loose) (hone : L.matching.OneToOne) {u u' : Ty}
    (hu : p → Alike L.matching u u') (ht : p → Alike L.matching t t') :
    Sim L p [] (nowStandsFor t u) (nowStandsFor t' u') fun _ _ => True := by
  cases u with
  | named n name package =>
    refine Sim.choose (q := fun n' => u' = .named n' name package ∧ L.matching.decl n n') ?_
      fun n' => ?_
    · intro hp
      cases hu hp with
      | named hn => exact ⟨_, rfl, hn⟩
    · refine Sim.congr ?_ fun hp => by rw [hp.2.1, nowStandsFor]
      exact sim_standFor hloose hone (fun hp => hp.2.2) fun hp => ht hp.1
  | _ =>
    have hnothing : Sim L p [] (pure ()) (pure ()) fun _ _ => True := sim_pure fun _ => trivial
    refine hnothing.congr fun hp => ?_
    cases hu hp
    rfl

/-- Recording what a declaration stands for: an alias for a type, and any other for a new one. -/
lemma sim_settle (hloose : L.Loose) (hone : L.matching.OneToOne) {d d' : Pending}
    (hb : p → L.binds d.binding d'.binding)
    (halias : d'.isAlias = d.isAlias) (ht : p → Alike L.matching t t') :
    Sim L p [] (settle d t) (settle d' t') fun _ _ => True := by
  have hsettle : ∀ (d : Pending) (t : Ty), settle d t = if d.isAlias then setType d.binding t
      else bindingAt d.binding >>= fun z => nowStandsFor t z.type := fun _ _ => rfl
  rw [hsettle, hsettle, halias]
  refine sim_ite (fun _ => Iff.rfl) (sim_setType hloose hb ht) ?_
  exact (sim_bindingAt hb).after fun z z' => sim_nowStandsFor hloose hone
    (fun hp => hp.2.type) fun hp => ht hp.1

/-! ## Declarations of a unit -/

variable {R : Reading} {i : Ident} {d d' : Pending}

lemma declIdents_eq (ds : List Pending) :
    declIdents ds = ds.flatMap fun d => identifiers [d.type] := by
  induction ds with
  | nil => exact identifiers_nil
  | cons d ds ih =>
    have hcons : identifiers (d.type :: ds.map Pending.type) =
        identifiers [d.type] ++ declIdents ds :=
      identifiers_append [d.type] (ds.map Pending.type)
    rw [declIdents, map_cons, hcons, ih, flatMap_cons]

lemma mem_declIdents {ds : List Pending} :
    i ∈ declIdents ds ↔ ∃ d ∈ ds, i ∈ identifiers [d.type] := by
  rw [declIdents_eq, mem_flatMap]

lemma mem_waiting : d ∈ waiting r ↔ d ∈ r.pending ∧ d.binding ∉ r.active := by
  simp [waiting]

/-- Leaves a declaration behind. -/
def finish (b : Nat) : Resolve Unit := modify fun r =>
  { r with active := r.active.filter (· != b), pending := r.pending.filter (·.binding != b) }

lemma waiting_finish (b : Nat) (r : Resolver) :
    ∀ d ∈ waiting ((finish b).run r).2, d ∈ waiting r := by
  intro d hd
  obtain ⟨hpending, hactive⟩ := mem_waiting.mp hd
  obtain ⟨hpending, hne⟩ := mem_filter.mp hpending
  exact mem_waiting.mpr ⟨hpending, fun hmem => hactive (mem_filter.mpr ⟨hmem, hne⟩)⟩

/-- What is left to do when a declaration has become active. -/
def completeActive (complete : Nat → Resolve Ty) (s : Scope) (d : Pending) : Resolve Ty := do
  let t ← asType d.type (← expr complete s none d.type)
  settle d t
  finish d.binding
  return (← bindingAt d.binding).type

/-- A declaration becomes active. -/
def activate (d : Pending) (r : Resolver) : Resolver := { r with active := d.binding :: r.active }

lemma waiting_activate (d : Pending) (r : Resolver) :
    ∀ d' ∈ waiting (activate d r), d' ∈ waiting r ∧ d'.binding ≠ d.binding := by
  intro d' hd'
  obtain ⟨hpending, hactive⟩ := mem_waiting.mp hd'
  rw [activate, mem_cons, not_or] at hactive
  exact ⟨mem_waiting.mpr ⟨hpending, hactive.2⟩, hactive.1⟩

lemma completeWithin_active (s : Scope) (n : Nat)
    (hfind : r.pending.find? (·.binding == b) = some d)
    (hactive : b ∉ r.active) : (completeWithin s (n + 1) b).run r =
      (completeActive (completeWithin s n) s d).run (activate d r) := by
  have hcontains : ¬(r.active.contains b = true) := by simpa using hactive
  rw [completeWithin_succ, hfind]
  dsimp only
  rw [if_neg hcontains]
  rfl

lemma completeWithin_idle (s : Scope) (n : Nat)
    (h : r.pending.find? (·.binding == b) = none ∨ b ∈ r.active) :
    (completeWithin s (n + 1) b).run r = ((r.info.binding b).type, r) := by
  rw [completeWithin_succ]
  cases hfind : r.pending.find? (·.binding == b) with
  | none => rfl
  | some d =>
    rw [hfind] at h
    have hcontains : r.active.contains b = true := by simpa using h
    dsimp only
    rw [if_pos hcontains]

/-- A binding that is found pending and is not active waits. -/
lemma mem_waiting_of_find? (hfind : r.pending.find? (·.binding == b) = some d)
    (hactive : b ∉ r.active) : d ∈ waiting r := by
  have hb : d.binding = b := by simpa using find?_some hfind
  exact mem_waiting.mpr ⟨mem_of_find?_eq_some hfind, hb ▸ hactive⟩

namespace Reading

lemma loose : R.link.Loose := by
  intro r r' hsame hdefs huses hokay
  refine ⟨Pends.kept hokay hsame ?_ ?_, busy_kept hsame⟩
  · exact fun _ _ _ => by rw [hdefs]
  · exact fun _ _ _ => by rw [huses]

/-! ### What waits -/

/-- What is known about pending declarations is known about fewer of them. -/
lemma Pends.fewer (h : R.Pends r) (hpending : r'.pending.Sublist r.pending)
    (hwaiting : ∀ d ∈ waiting r', d ∈ waiting r) (hinfo : r'.info = r.info) : R.Pends r' := by
  have hidents : ∀ i ∈ declIdents (waiting r'), i ∈ declIdents (waiting r) := by
    intro i hi
    obtain ⟨d, hd, hi⟩ := mem_declIdents.mp hi
    exact mem_declIdents.mpr ⟨d, hwaiting d hd, hi⟩
  refine ⟨fun d hd => h.knows d (hpending.subset hd), fun hc => ?_,
    fun hc i hi => h.occurs hc i (hidents i hi), fun hc i hi => ?_, fun hc i hi => ?_⟩
  · have := h.nodup hc
    rw [declIdents_eq] at this ⊢
    exact this.sublist (hpending.flatMap _)
  · rw [hinfo, h.defs hc i (hidents i hi)]
  · rw [hinfo, h.uses hc i (hidents i hi)]

/-- A step that makes declarations active, or leaves them behind. -/
lemma moves_fewer (hpending : r'.pending.Sublist r.pending)
    (hwaiting : ∀ d ∈ waiting r', d ∈ waiting r)
    (hinfo : r'.info = r.info) : R.link.Moves [] r r' := by
  intro hokay _
  refine ⟨Pends.fewer hokay hpending hwaiting hinfo, ?_, fun _ _ _ _ => by rw [hinfo],
    fun _ _ _ _ => by rw [hinfo],
    Nat.le_of_eq (by rw [hinfo]), fun _ _ => by rw [hinfo], fun _ _ => by rw [hinfo]⟩
  intro i hi
  by_cases hc : R.change = none
  · rw [busy_of_none hc] at hi
    cases hi
  · rw [busy_of_change hc] at hi ⊢
    obtain ⟨d, hd, hi⟩ := mem_declIdents.mp hi
    exact mem_declIdents.mpr ⟨d, hwaiting d hd, hi⟩

lemma moves_activate (d : Pending) (r : Resolver) : R.link.Moves [] r (activate d r) :=
  moves_fewer (Sublist.refl _) (fun d' hd' => (waiting_activate d r d' hd').1) rfl

/-- No two pending declarations have an identifier in common. -/
lemma Pends.disjoint (h : R.Pends r) (hc : R.change ≠ none) (hd : d ∈ r.pending)
    (hd' : d' ∈ r.pending)
    (hne : d'.binding ≠ d.binding) : (identifiers [d.type]).Disjoint (identifiers [d'.type]) := by
  have hnodup := h.nodup hc
  rw [declIdents_eq] at hnodup
  have : Std.Symm (Function.onFun List.Disjoint fun d : Pending => identifiers [d.type]) :=
    ⟨fun _ _ h _ hi hi' => h hi' hi⟩
  exact (nodup_flatMap.mp hnodup).2.forall hd hd' fun heq => hne (congrArg Pending.binding heq.symm)

/-- It is the turn of the identifiers in a declaration that becomes active. -/
lemma ready_activate {later : List Ident} (hd : d ∈ waiting r) (hokay : R.Pends r)
    (hready : R.link.Ready later [] r) :
    R.link.Ready later (identifiers [d.type]) (activate d r) := by
  intro hc
  have hf := hready hc
  have hbusy : ∀ i ∈ identifiers [d.type], i ∈ declIdents (waiting r) :=
    fun i hi => mem_declIdents.mpr ⟨d, hd, hi⟩
  have hnodup := hokay.nodup hc
  have hlater := hf.free_later
  have hpending := (mem_waiting.mp hd).1
  rw [declIdents_eq] at hnodup
  rw [busy_of_change hc] at hlater
  refine ⟨fun i hi => hokay.occurs hc i (hbusy i hi), hf.occurs_later,
    (nodup_flatMap.mp hnodup).1 d hpending,
    fun i hi hmem => hlater i hmem (hbusy i hi), ?_, ?_, fun i hi => hokay.defs hc i (hbusy i hi),
    fun i hi => hokay.uses hc i (hbusy i hi)⟩
  · rw [busy_of_change hc]
    intro i hi hmem
    obtain ⟨d', hd', hi'⟩ := mem_declIdents.mp hmem
    obtain ⟨hwaiting, hne⟩ := waiting_activate d r d' hd'
    exact hokay.disjoint hc hpending (mem_waiting.mp hwaiting).1 hne hi hi'
  · rw [busy_of_change hc]
    intro i hi hmem
    obtain ⟨d', hd', hi'⟩ := mem_declIdents.mp hmem
    exact hlater i hi (mem_declIdents.mpr ⟨d', (waiting_activate d r d' hd').1, hi'⟩)

/-! ### Completing one declaration -/

namespace Sound

variable (h : R.Sound)

include h

/-- A declaration that one run finds pending belongs to the one that the other run finds. -/
lemma find?_pending {ds ds' : List Pending} (hds : Forall₂ R.PendingRel ds ds')
    (hb : R.binds b b') :
    Option.Rel R.PendingRel (ds.find? (·.binding == b)) (ds'.find? (·.binding == b')) := by
  induction hds with
  | nil => exact .none
  | @cons d d' ds ds' hd _ ih =>
    have hone := h.one hd.binding hb
    by_cases heq : d.binding = b
    · rw [find?_cons_of_pos (by simpa using heq), find?_cons_of_pos (by simpa using hone.mp heq)]
      exact .some hd
    · rw [find?_cons_of_neg (by simpa using heq),
        find?_cons_of_neg (by simpa using mt hone.mpr heq)]
      exact ih

/-- What is left when one declaration is left behind. -/
lemma filter_by {α : Type} {A : α → α → Prop} (binding : α → Nat) {as as' : List α}
    (hA : ∀ {a a'}, A a a' → R.binds (binding a) (binding a'))
    (has : Forall₂ A as as') (hb : R.binds b b') :
    Forall₂ A (as.filter (binding · != b)) (as'.filter (binding · != b')) := by
  induction has with
  | nil => exact .nil
  | @cons a a' as as' ha _ ih =>
    have hone := h.one (hA ha) hb
    by_cases heq : binding a = b
    · rw [filter_cons_of_neg (by simpa using heq), filter_cons_of_neg (by simpa using hone.mp heq)]
      exact ih
    · rw [filter_cons_of_pos (by simpa using heq),
        filter_cons_of_pos (by simpa using mt hone.mpr heq)]
      exact .cons ha ih

lemma mem_active {as as' : List Nat} (has : Forall₂ R.binds as as') (hb : R.binds b b') :
    b ∈ as ↔ b' ∈ as' := by
  induction has with
  | nil => simp
  | cons ha _ ih => rw [mem_cons, mem_cons, ih, h.one hb ha]

lemma sim_finish (hb : p → R.binds b b') :
    Sim R.link p [] (finish b) (finish b') fun _ _ => True := by
  have hmoves : ∀ r, R.link.Moves [] r ((finish b).run r).2 := fun r =>
    moves_fewer filter_sublist (waiting_finish b r) rfl
  refine ⟨hmoves, fun hp later r r' _ hagree _ => ⟨?_, trivial⟩⟩
  refine { hagree with okay := (hmoves r hagree.okay (by simp)).okay, inv := ⟨?_, ?_⟩ }
  · exact h.filter_by Pending.binding (fun hd => hd.binding) hagree.inv.1 (hb hp)
  · exact h.filter_by (fun b => b) (fun hb => hb) hagree.inv.2 (hb hp)

lemma sim_completeActive {C : Completion} (hone : R.matching.OneToOne) (hC : R.link.Completes C)
    (hs : R.link.scopes false s s') (b' : Nat) (hb : p → R.binds d.binding b')
    (hd : R.link.Knows [d.type]) :
    Sim R.link p (identifiers [d.type]) (completeActive C.complete s d)
      (completeActive C.complete' s' ⟨b', d.type.relabel R.labels, d.isAlias⟩)
      (Alike R.matching) := by
  have hb' : p →
    R.link.binds d.binding (Pending.mk b' (d.type.relabel R.labels) d.isAlias).binding := hb
  have := h.lawful
  exact (simExpr d.type hd (fun _ => hs) fun _ => .none).close fun t t' =>
    (sim_asType hd.self.knows fun hp => hp.2).after fun u u' =>
      (sim_settle loose hone (fun hp => hb' hp.1.1) rfl fun hp => hp.2).after fun _ _ =>
        (h.sim_finish fun hp => hb hp.1.1.1).after fun _ _ =>
          (sim_bindingAt fun hp => hb hp.1.1.1.1).after fun _ _ => sim_pure fun hp => hp.2.type

section Wake

variable {C : Completion} (hone : R.matching.OneToOne) (hC : R.link.Completes C)
  (hs : R.link.scopes false s s') (hd : d ∈ waiting r)

include hone hC hs hd

/-- From outside, a declaration that waits is completed on no identifiers but busy ones. -/
lemma moves_completeActive :
    R.link.Moves [] r ((completeActive C.complete s d).run (activate d r)).2 := by
  intro hokay hnone
  have hnothing : R.link.Ready [] [] r := fun _ =>
    ⟨by simp, by simp, nodup_nil, by simp, by simp, by simp, by simp, by simp⟩
  have hactive := moves_activate d r hokay hnone
  have hmoved :=
    (h.sim_completeActive hone hC hs d.binding False.elim
      (hokay.knows d (mem_waiting.mp hd).1)).moves
    (activate d r) hactive.okay (h.lawful.free hactive.okay (ready_activate hd hokay hnothing))
  have hfree : R.change ≠ none → ∀ k, k ∉ Link.numbers (R.link.busy r) →
      k ∉ Link.numbers (identifiers [d.type]) := by
    intro hc k hk hmem
    obtain ⟨i, hi, rfl⟩ := mem_map.mp hmem
    rw [busy_of_change hc] at hk
    exact hk (Link.mem_numbers_of_mem (mem_declIdents.mpr ⟨d, hd, hi⟩))
  exact { hmoved with
    busy := fun i hi => hactive.busy i (hmoved.busy i hi)
    defs := fun hc k _ hk => hmoved.defs hc k (hfree hc k hk) (hactive.not_mem_busy hk)
    uses := fun hc k _ hk => hmoved.uses hc k (hfree hc k hk) (hactive.not_mem_busy hk) }

lemma agree_completeActive (hrel : R.PendingRel d d') {later : List Ident}
    (hready : R.link.Ready later [] r) (hagree : R.link.Agree r r')
    (hforetold : R.link.Foretold later ((completeActive C.complete s d).run (activate d r)).2) :
    R.link.Agree ((completeActive C.complete s d).run (activate d r)).2
        ((completeActive C.complete' s' d').run (activate d' r')).2 ∧
      Alike R.matching ((completeActive C.complete s d).run (activate d r)).1
        ((completeActive C.complete' s' d').run (activate d' r')).1 := by
  have hknows := hagree.okay.knows d (mem_waiting.mp hd).1
  obtain ⟨b', type', isAlias'⟩ := d'
  obtain ⟨hb, rfl, rfl⟩ := hrel
  refine (h.sim_completeActive hone hC hs b' (fun _ => hb) hknows).run trivial later _ _
    (ready_activate hd hagree.okay hready) ?_
    hforetold
  exact { hagree with
    okay := (moves_activate d r hagree.okay (by simp)).okay
    inv := ⟨hagree.inv.1, .cons hb hagree.inv.2⟩ }

end Wake

/-- **Declarations are completed in step**, however deep. -/
theorem completes (hone : R.matching.OneToOne) (hs : R.link.scopes false s s') (n : Nat) :
    R.link.Completes ⟨completeWithin s n, completeWithin s' n⟩ := by
  have := h.lawful
  -- The induction is on how many declarations may still be started.
  induction n with
  | zero =>
    have htype : ∀ {b b'} {q : Prop}, (q → R.binds b b') → Sim R.link q [] (completeWithin s 0 b)
        (completeWithin s' 0 b') (Alike R.matching) := fun hb =>
      (sim_bindingAt hb).after fun _ _ => sim_pure fun hp => hp.2.type
    exact ⟨fun b r => (htype (False.elim : False → R.binds b b)).moves r,
      fun hb => htype fun _ => hb⟩
  | succ n ih =>
    have hmoves : ∀ b r, R.link.Moves [] r ((completeWithin s (n + 1) b).run r).2 := by
      intro b r
      by_cases hidle : r.pending.find? (·.binding == b) = none ∨ b ∈ r.active
      · rw [completeWithin_idle s n hidle]
        exact Link.moves_refl
      · rw [not_or] at hidle
        obtain ⟨d, hfind⟩ := Option.ne_none_iff_exists'.mp hidle.1
        rw [completeWithin_active s n hfind hidle.2]
        have hmoves := h.moves_completeActive hone ih hs (mem_waiting_of_find? hfind hidle.2)
        exact hmoves
    refine ⟨hmoves, fun {b b'} hb => ⟨hmoves b, fun _ later r r' hready hagree hforetold => ?_⟩⟩
    have hpending := h.find?_pending hagree.inv.1 hb
    have hactive := h.mem_active hagree.inv.2 hb
    change R.link.Foretold later ((completeWithin s (n + 1) b).run r).2 at hforetold
    show R.link.Agree ((completeWithin s (n + 1) b).run r).2
      ((completeWithin s' (n + 1) b').run r').2 ∧
      Alike R.matching ((completeWithin s (n + 1) b).run r).1
        ((completeWithin s' (n + 1) b').run r').1
    generalize hfind : r.pending.find? (·.binding == b) =
      o, hfind' : r'.pending.find? (·.binding == b') = o' at hpending
    by_cases hidle : o = none ∨ b ∈ r.active
    · have hidle' : o' = none ∨ b' ∈ r'.active := by
        refine hidle.imp (fun hnone => ?_) hactive.mp
        subst hnone
        cases hpending
        rfl
      rw [completeWithin_idle s n (hfind ▸ hidle), completeWithin_idle s' n (hfind' ▸ hidle')]
      exact ⟨hagree, (hagree.binding hb).type⟩
    · rw [not_or] at hidle
      cases hpending with
      | none => exact absurd rfl hidle.1
      | some hrel =>
        rw [completeWithin_active s n hfind hidle.2] at hforetold ⊢
        rw [completeWithin_active s' n hfind' (mt hactive.mpr hidle.2)]
        have hagree' :=
          h.agree_completeActive hone ih hs (mem_waiting_of_find? hfind hidle.2) hrel
            hready hagree hforetold
        exact hagree'

end Sound

end Reading

end Recast.Lockstep
