import Recast.Proofs.Demand.Aftermath
import Recast.Proofs.Demand.Announcing
import Recast.Proofs.Names.Coverage

/-!
# Completion ends

A name in the type of one declaration leads to another declaration, so that the depth of completion
is not bounded by any tree.  It is bounded all the same: a declaration has its turn only if it
waits, and while it is active it does not.

**Depth.**  Two ways to complete declarations that agree while few declarations wait agree one turn
further out while one more does (`Agree.turn`).  So whatever is given in place of the turns beyond
the number of declarations is never asked (`agree_completeWithin`).

**Underway.**  While some declarations are active, the type expression of each of the others has
been evaluated exactly once if it is complete, and never if it waits (`Underway`).

* `resolution_terminates` — resolution ends for every unit, with all types complete.
-/

namespace Recast.Demand

open List hiding get modify
open Resolve hiding bind
open Lexical
open Lockstep

variable {r₀ r r' : Resolver} {A : List Nat} {d e : Pending} {k n b : Nat} {t : Ty} {s : Scope}
  {complete complete' : Nat → Resolve Ty}

/-! ## Declarations -/

/-- The state in which the completion of declarations begins. -/
structure Outset (r₀ : Resolver) : Prop where
  active : r₀.active = []
  nodup_bindings : (r₀.pending.map Pending.binding).Nodup
  nodup_ids : (typeIds r₀.pending).Nodup
  made : ∀ d ∈ r₀.pending, d.binding < r₀.info.bindings.size
  unrecorded : r₀.recorded = []
  standing : ∀ n t, r₀.info.underlying.find? n = some t → t.isNamed = false
  number : ∀ d ∈ r₀.pending, d.isAlias = false →
    ∃ n name package, (r₀.info.binding d.binding).type = .named n name package

namespace Outset

variable (h : Outset r₀)

include h

lemma eq_of_binding_eq (hd : d ∈ r₀.pending) (he : e ∈ r₀.pending) (heq : d.binding = e.binding) :
    d = e :=
  inj_on_of_nodup_map h.nodup_bindings hd he heq

/-- No two declarations have a node in common. -/
lemma eq_of_mem_ids (hd : d ∈ r₀.pending) (he : e ∈ r₀.pending) (hk : k ∈ ids [d.type])
    (hk' : k ∈ ids [e.type]) : d = e := by
  by_contra hne
  have : Std.Symm (Function.onFun List.Disjoint fun d : Pending => ids [d.type]) :=
    ⟨fun _ _ h _ hk hk' => h hk' hk⟩
  exact (nodup_flatMap.mp h.nodup_ids).2.forall hd he hne hk hk'

lemma root_not_mem_children (hd : d ∈ r₀.pending) (he : e ∈ r₀.pending) :
    e.type.id ∉ ids d.type.children := by
  have hcons : ids [d.type] = d.type.id :: ids d.type.children := by
    rw [ids_cons, ids_nil, append_nil]
  intro hmem
  have heq : d = e :=
    h.eq_of_mem_ids hd he (hcons ▸ mem_cons_of_mem _ hmem) (Regime.mem_ids_self e.type [])
  subst heq
  have hnodup := (nodup_flatMap.mp h.nodup_ids).1 d hd
  rw [hcons] at hnodup
  exact (nodup_cons.mp hnodup).1 hmem

end Outset

/-- **Some declarations are active.** -/
structure Underway (r₀ : Resolver) (A : List Nat) (r : Resolver) : Prop where
  active : r.active = A
  pending : r.pending.Sublist r₀.pending
  begun : ∀ d ∈ r₀.pending, d.binding ∈ A → d ∈ r.pending
  size : r₀.info.bindings.size ≤ r.info.bindings.size
  kept : ∀ b < r₀.info.bindings.size, (∀ d ∈ r₀.pending, d.isAlias = true → d.binding ≠ b) →
    r.info.binding b = r₀.info.binding b
  elsewhere : ∀ k, k ∉ typeIds r₀.pending → entry r k = entry r₀ k
  standing : ∀ n t, r.info.underlying.find? n = some t → t.isNamed = false
  waits : ∀ d ∈ r.pending, r.recorded.count d.type.id = 0
  evaluated : ∀ d ∈ r₀.pending, d ∉ r.pending → r.recorded.count d.type.id = recordings d.type
  stands : ∀ d ∈ r₀.pending, d ∉ r.pending → ∀ n name package,
    d.isAlias = false → (r₀.info.binding d.binding).type = .named n name package →
      (r.info.underlying.find? n).isSome = true

lemma Outset.underway (h : Outset r₀) : Underway r₀ [] r₀ where
  active := h.active
  pending := .refl _
  begun _ hd _ := hd
  size := Nat.le_refl _
  kept _ _ _ := rfl
  elsewhere _ _ := rfl
  standing := h.standing
  waits _ _ := by rw [h.unrecorded, count_nil]
  evaluated _ hd hd' := absurd hd hd'
  stands _ hd hd' := absurd hd hd'

/-- Steps that complete nothing, in which no type expression is evaluated to its end. -/
lemma Underway.recorded {T U : Nat → Prop} (h : Underway r₀ A r) (hrec : Recorded T U r r')
    (hT : ∀ k, T k → k ∈ typeIds r₀.pending) (hU : ∀ d ∈ r₀.pending, ¬U d.type.id) :
    Underway r₀ A r' := by
  obtain ⟨ks, hks, hmem⟩ := hrec.trace
  have hcount : ∀ d ∈ r₀.pending, r'.recorded.count d.type.id = r.recorded.count d.type.id := by
    intro d hd
    rw [hks, count_append, count_eq_zero.mpr fun hk => hU d hd (hmem _ hk), Nat.zero_add]
  exact {
    active := hrec.active.trans h.active
    pending := hrec.pending ▸ h.pending
    begun := hrec.pending ▸ h.begun
    size := Nat.le_trans h.size hrec.size
    kept :=
      fun b hb halias => (hrec.binding b (Nat.lt_of_lt_of_le hb h.size)).trans (h.kept b hb halias)
    elsewhere := fun k hk => (hrec.same k fun hk' => hk (hT k hk')).trans (h.elsewhere k hk)
    standing := hrec.underlying ▸ h.standing
    waits := by
      intro d hd
      rw [hrec.pending] at hd
      rw [hcount d (h.pending.subset hd), h.waits d hd]
    evaluated := by
      intro d hd hd'
      rw [hrec.pending] at hd'
      rw [hcount d hd, h.evaluated d hd hd']
    stands := by
      rw [hrec.pending, hrec.underlying]
      exact h.stands }

lemma Underway.activate (hr₀ : Outset r₀) (h : Underway r₀ A r) (hd : d ∈ r.pending) :
    Underway r₀ (d.binding :: A) (activate d r) :=
  { h with
    active := congrArg _ h.active
    begun := by
      intro e he hA
      rcases mem_cons.mp hA with heq | hA
      · exact hr₀.eq_of_binding_eq he (h.pending.subset hd) heq ▸ hd
      · exact h.begun e he hA }

lemma isNamed_underlying {env : Underlying} (h : ∀ n t, env.find? n = some t → t.isNamed = false)
    (t : Ty) :
    (t.underlying env).isNamed = false := by
  cases t with
  | named n name package =>
    show ((env.find? n).getD .invalid).isNamed = false
    cases hfind : env.find? n with
    | none => rfl
    | some t' => exact h n t' hfind
  | _ => rfl

/-- What a declaration stands for is no named type. -/
lemma standing_settled {env : Underlying} (h : ∀ n t, env.find? n = some t → t.isNamed = false)
    (d : Pending) (t u : Ty) :
    ∀ n t', (settled d t env u).find? n = some t' → t'.isNamed = false := by
  intro n t' hfind
  cases u with
  | named m name package =>
    rw [settled] at hfind
    split at hfind
    · exact h n t' hfind
    · rw [Underlying.complete, Table.find?_insert] at hfind
      split at hfind
      · cases hfind
        exact isNamed_underlying h t
      · exact h n t' hfind
  | _ => exact h n t' hfind

/-- What stood for something does so when one more declaration has been settled. -/
lemma isSome_settled {env : Underlying} (h : (env.find? n).isSome = true) (d : Pending) (t u : Ty) :
    ((settled d t env u).find? n).isSome = true := by
  cases u with
  | named m name package =>
    rw [settled]
    split
    · exact h
    · rw [Underlying.complete, Table.find?_insert]
      split
      · rfl
      · exact h
  | _ => exact h

/-- **A declaration is concluded** and is not active any more. -/
lemma Underway.conclude (hr₀ : Outset r₀) (h : Underway r₀ (d.binding :: A) r)
    (hd : d ∈ r₀.pending) (hA : d.binding ∉ A) (hc : Concluded d t r r') : Underway r₀ A r' := by
  have hpending : d ∈ r.pending := h.begun d hd mem_cons_self
  have hmem : ∀ e ∈ r₀.pending, (e ∈ r'.pending ↔ e ∈ r.pending ∧ e ≠ d) := by
    intro e he
    rw [hc.pending, mem_filter, bne_iff_ne]
    refine and_congr_right fun _ =>
      not_congr ⟨fun heq => hr₀.eq_of_binding_eq he hd heq, fun heq => heq ▸ rfl⟩
  have hroot : ∀ e ∈ r₀.pending, e ≠ d →
      (replicate (recordings d.type) d.type.id).count e.type.id = 0 := by
    intro e he hne
    refine count_eq_zero.mpr fun hk => hne ?_
    exact hr₀.eq_of_mem_ids he hd (Regime.mem_ids_self e.type [])
      (eq_of_mem_replicate hk ▸ Regime.mem_ids_self d.type [])
  have hbinding : ∀ b < r₀.info.bindings.size,
    (∀ e ∈ r₀.pending, e.isAlias = true → e.binding ≠ b) →
      r'.info.binding b = r₀.info.binding b := by
    intro b hb halias
    rw [hc.binding, if_neg fun hset => halias d hd hset.1 hset.2.1]
    exact h.kept b hb halias
  exact {
    active := by
      rw [hc.active, h.active, filter_cons_of_neg (by simp)]
      exact filter_eq_self.mpr fun c hmem => bne_iff_ne.mpr fun heq => hA (heq ▸ hmem)
    pending := hc.pending ▸ filter_sublist.trans h.pending
    begun :=
      fun e he heA => (hmem e he).mpr
        ⟨h.begun e he (mem_cons_of_mem _ heA), fun heq => hA (heq ▸ heA)⟩
    size := hc.size ▸ h.size
    kept := hbinding
    elsewhere := by
      intro k hk
      refine (hc.same k fun heq => hk ?_).trans (h.elsewhere k hk)
      exact mem_flatMap.mpr ⟨d, hd, heq ▸ Regime.mem_ids_self d.type []⟩
    standing := hc.underlying ▸ standing_settled h.standing d t _
    waits := by
      intro e he
      have he₀ : e ∈ r₀.pending := h.pending.subset (mem_of_mem_filter (hc.pending ▸ he))
      obtain ⟨hwaits, hne⟩ := (hmem e he₀).mp he
      rw [hc.recorded, count_append, hroot e he₀ hne, h.waits e hwaits]
    evaluated := by
      intro e he he'
      rw [hmem e he, not_and, not_not] at he'
      rw [hc.recorded, count_append]
      by_cases heq : e = d
      · rw [heq, count_replicate_self, h.waits d hpending, Nat.add_zero]
      · rw [hroot e he heq, Nat.zero_add]
        exact h.evaluated e he fun hwaits => heq (he' hwaits)
    stands := by
      intro e he he' n name package halias htype
      rw [hmem e he, not_and, not_not] at he'
      rw [hc.underlying]
      by_cases heq : e = d
      · subst heq
        have hsame : r.info.binding e.binding = r₀.info.binding e.binding := by
          refine h.kept _ (hr₀.made e he) fun e' he'' halias' heq => ?_
          rw [hr₀.eq_of_binding_eq he'' he heq, halias] at halias'
          cases halias'
        rw [hsame, htype, settled, halias, Underlying.complete, if_neg (by simp),
          Table.find?_insert, if_pos rfl]
        rfl
      · exact isSome_settled
          (h.stands e he (fun hwaits => heq (he' hwaits)) n name package halias htype) d t _ }

/-! ## Depth -/

/-- **Two ways to complete declarations agree** while fewer than `k` declarations wait. -/
def Agree (r₀ : Resolver) (k : Nat) (complete complete' : Nat → Resolve Ty) : Prop :=
  ∀ A b r, Underway r₀ A r →
  (waiting r).length < k → (complete b).run r = (complete' b).run r ∧
    Underway r₀ A ((complete b).run r).2 ∧
    ((complete b).run r).2.pending.Sublist r.pending

/-- No more declarations wait if no more are pending. -/
lemma length_waiting_le (hpending : r'.pending.Sublist r.pending) (hactive : r'.active = r.active) :
    (waiting r').length ≤ (waiting r).length := by
  rw [waiting, waiting, hactive]
  exact (hpending.filter _).length_le

/-- A declaration that becomes active does not wait any more. -/
lemma length_waiting_activate (hd : d ∈ waiting r) :
    (waiting (activate d r)).length < (waiting r).length := by
  have heq : waiting (activate d r) = (waiting r).filter fun e => e.binding != d.binding := by
    rw [waiting, waiting, filter_filter]
    refine filter_congr fun e _ => ?_
    show (!(d.binding :: r.active).contains e.binding) = _
    rw [contains_cons, Bool.not_or]
    rfl
  rw [heq]
  exact length_filter_lt_length_iff_exists.mpr ⟨d, hd, by simp⟩

/-- What holds while the type expression of an active declaration is evaluated. -/
def evaluating (hr₀ : Outset r₀) (hd : d ∈ r₀.pending) (A : List Nat) (k : Nat) (ds : List Pending)
    (hagree : Agree r₀ k complete complete') : Regime where
  complete := complete
  complete' := complete'
  inv r := Underway r₀ A r ∧ (waiting r).length < k ∧ r.pending.Sublist ds
  nodes k := k ∈ ids [d.type]
  typed k := k ∈ ids d.type.children
  names _ := True
  wanted _ := True
  fresh _ := trivial
  stable h hrec := by
    refine ⟨h.1.recorded hrec (fun k hk => mem_flatMap.mpr ⟨d, hd, hk⟩) fun e he =>
      hr₀.root_not_mem_children hd he, ?_, hrec.pending ▸ h.2.2⟩
    exact Nat.lt_of_le_of_lt (length_waiting_le (by rw [hrec.pending]) hrec.active) h.2.1
  completes _ h := by
    obtain ⟨heq, hunderway, hsub⟩ := hagree A _ _ h.1 h.2.1
    refine ⟨heq, hunderway, ?_, hsub.trans h.2.2⟩
    exact Nat.lt_of_le_of_lt (length_waiting_le hsub (hunderway.active.trans h.1.active.symm)) h.2.1

/-- **One turn further out** one more declaration may wait. -/
lemma Agree.turn (hr₀ : Outset r₀) (s : Scope) (h : Agree r₀ k complete complete') :
    Agree r₀ (k + 1) (turn s complete) (turn s complete') := by
  intro A b r hr hk
  rcases turn_cases r b with hidle | ⟨d, hfind, hd, rfl, hactive⟩
  · rw [run_turn_idle hidle, run_turn_idle hidle]
    exact ⟨rfl, hr, .refl _⟩
  · rw [run_turn_active hfind hactive, run_turn_active hfind hactive]
    have hd₀ := hr.pending.subset hd
    have hwaits : (waiting (activate d r)).length < k := by
      have := length_waiting_activate (mem_waiting.mpr ⟨hd, hactive⟩)
      omega
    have hparts : (evaluating hr₀ hd₀ (d.binding :: A) k r.pending h).CoversParts d.type :=
      { nodes := fun l hl => by
          show l ∈ ids [d.type]
          rw [ids_cons]
          exact mem_cons_of_mem _ (mem_append_left _ hl)
        typed := fun _ hl => hl
        names := fun _ _ => trivial
        own := fun _ hl => Regime.mem_marks hl ▸ Regime.mem_ids_self d.type [] }
    have hkeeps : (evaluating hr₀ hd₀ (d.binding :: A) k r.pending h).Keeps
      (evaluate complete s none d.type)
        (evaluate complete' s none d.type) fun _ => True :=
          Regime.keepsEvaluate _ d.type hparts fun _ _ _ _ => trivial
    obtain ⟨heq, ⟨hunderway, -, hsub⟩, -⟩ :=
      hkeeps (activate d r) ⟨hr.activate hr₀ hd, hwaits, .refl _⟩
    rw [run_bind, run_bind, ← heq]
    obtain ⟨hconcluded, -⟩ := concluded d ((evaluate complete s none d.type).run (activate d r)).1
      ((evaluate complete s none d.type).run (activate d r)).2
    refine ⟨rfl, hunderway.conclude hr₀ hd₀ (hr.active ▸ hactive) hconcluded, ?_⟩
    rw [hconcluded.pending]
    exact filter_sublist.trans hsub

/-- **The bound of completion does not matter**: what comes in place of the turns behind it is never
asked. -/
lemma agree_completeWithin (hr₀ : Outset r₀) (bottom : Nat → Resolve Ty) (s : Scope) (n k : Nat) :
    Agree r₀ (n + 1) (completeFrom bottom s (n + 1 + k)) (completeWithin s n) := by
  induction n with
  | zero =>
    intro A b r hr hk
    have hnone : waiting r = [] := length_eq_zero_iff.mp (Nat.lt_one_iff.mp hk)
    rw [Nat.zero_add, Nat.add_comm, completeFrom]
    rcases turn_cases r b with hidle | ⟨d, -, hd, rfl, hactive⟩
    · rw [run_turn_idle hidle]
      exact ⟨rfl, hr, .refl _⟩
    · have hmem := mem_waiting.mpr ⟨hd, hactive⟩
      rw [hnone] at hmem
      cases hmem
  | succ n ih =>
    rw [completeFrom_behind, completeWithin_succ]
    exact ih.turn hr₀ s

/-- A declaration that has had its turn is not pending any more, if nothing was active before. -/
lemma turn_pending (s : Scope) (complete : Nat → Resolve Ty) (hactive : r.active = []) :
    ∀ d ∈ ((turn s complete b).run r).2.pending, d.binding ≠ b := by
  rcases turn_cases r b with hidle | ⟨d, hfind, hd, rfl, hactive'⟩
  · rw [run_turn_idle hidle]
    intro d hd heq
    rcases hidle with hnone | hmem
    · exact find?_eq_none.mp hnone d hd (beq_iff_eq.mpr heq)
    · rw [hactive] at hmem
      cases hmem
  · rw [run_turn_active hfind hactive', run_bind]
    obtain ⟨hconcluded, -⟩ := concluded d ((evaluate complete s none d.type).run (activate d r)).1
      ((evaluate complete s none d.type).run (activate d r)).2
    rw [hconcluded.pending]
    exact fun e he => bne_iff_ne.mp (mem_filter.mp he).2

/-- **All declarations are completed** in the same way, one after the other. -/
lemma Agree.completeAll (h : Agree r₀ k (Demand.turn s complete) complete') {bs : List Nat}
    (hr : Underway r₀ [] r) (hk : (waiting r).length < k) (hbs : ∀ d ∈ r.pending, d.binding ∈ bs) :
    (Resolve.completeAll (Demand.turn s complete) bs).run r =
      (Resolve.completeAll complete' bs).run r ∧
      Underway r₀ [] ((Resolve.completeAll (Demand.turn s complete) bs).run r).2 ∧
      ((Resolve.completeAll (Demand.turn s complete) bs).run r).2.pending = [] := by
  induction bs generalizing r with
  | nil => exact ⟨rfl, hr, eq_nil_iff_forall_not_mem.mpr fun d hd => nomatch hbs d hd⟩
  | cons b bs ih =>
    obtain ⟨heq, hr', hsub⟩ := h [] b r hr hk
    have hpending := turn_pending (b := b) s complete hr.active
    rw [Resolve.completeAll, Resolve.completeAll, run_bind, run_bind, ← heq]
    refine ih hr' (Nat.lt_of_le_of_lt (length_waiting_le hsub (hr'.active.trans hr.active.symm)) hk)
      fun d hd => ?_
    exact (mem_cons.mp (hbs d (hsub.subset hd))).resolve_left (hpending d hd)

/-! ## A whole unit -/

/-- The last line of the log. -/
def report : Resolve Unit := do
  let r ← get
  note (r.file ++ ": resolved " ++ toString r.info.types.size ++ " types, " ++
    toString r.info.defs.size ++
    " defs, " ++ toString r.info.uses.size ++ " uses (" ++
      toString r.unresolved ++ " unresolved names)")

/-- The resolution of a unit with another way to complete its declarations, which is given the scope
of the package and the number of declarations. -/
def fileBy (completer : Scope → Nat → Nat → Resolve Ty) (f : File) : Resolve Unit := do
  modify fun r => { r with package := f.package.name }
  let frame ← importPackages f.imports {}
  let (funcs, frame) ← declareAll f.decls frame
  let scope : Scope := [frame, Library.predeclaredFrame]
  let declared := (← get).pending.map Pending.binding
  completeAll (completer scope declared.length) declared
  resolveFunctions (completer scope declared.length) scope funcs f.decls
  report

/-- All that resolving a unit finds out when its declarations are completed in another way. -/
def ofFileBy (completer : Scope → Nat → Nat → Resolve Ty) (name : String) (f : File) : Resolver :=
  let start : Resolver :=
    { file := name
      info := { bindings := Library.predeclared.toArray, underlying := Library.underlying } }
  ((fileBy completer f).run start).2

lemma ofFile_eq_ofFileBy (name : String) (f : File) :
    Resolver.ofFile name f = ofFileBy completeWithin name f := by
  rw [Resolver.ofFile, ofFileBy, file, fileBy]
  rfl

section Unit

variable (name : String) (f : File)

/-- The state in which all types are complete, if they are completed in this way. -/
def completedBy (complete : Nat → Resolve Ty) : Resolver :=
  ((completeAll complete ((declared name f).2.pending.map Pending.binding)).run
    (declared name f).2).2

/-- The state behind the types, if they are completed in this way. -/
def resolvedBy (complete : Nat → Resolve Ty) : Resolver :=
  ((resolveFunctions complete (packageScope name f) (declared name f).1.1 f.decls).run
    (completedBy name f complete)).2

lemma ofFileBy_eq (completer : Scope → Nat → Nat → Resolve Ty) : ofFileBy completer name f =
    (report.run (resolvedBy name f
      (completer (packageScope name f) (declared name f).2.pending.length))).2 := by
  rw [ofFileBy, fileBy]
  simp only [length_map]
  rfl

variable {f}

lemma typeIds_declared : typeIds (declared name f).2.pending = ids (f.decls.flatMap typeNodes) := by
  rw [← (pending_declared name f).1]
  generalize (declared name f).2.pending = ds
  induction ds with
  | nil => exact ids_nil.symm
  | cons d ds ih =>
    have hcons : ids (d.type :: ds.map Pending.type) = ids [d.type] ++ ids (ds.map Pending.type) :=
      ids_append [d.type] _
    rw [map_cons, hcons, ← ih]
    rfl

lemma standing_library : ∀ n t, Library.underlying.find? n = some t → t.isNamed = false := by
  have hall : ∀ e ∈ Library.underlying.entries, e.2.isNamed = false := by decide
  exact fun n t ht => hall _ (findIn_mem ht)

lemma outset_declared (hnodup : (ids f.decls).Nodup) : Outset (declared name f).2 where
  active := (opening name f).active
  nodup_bindings := (pending_declared name f).2.1
  nodup_ids := by
    rw [typeIds_declared]
    exact (nodup_partIds hnodup).of_append_right.of_append_left
  made := (early_declared name f).1.pending
  unrecorded := (opening name f).recorded
  standing := by
    rw [(opening name f).underlying]
    exact standing_library
  number := by
    intro d hd halias
    rw [(opening name f).pending] at hd
    obtain ⟨a, ha, hpending⟩ := mem_filterMap.mp hd
    obtain ⟨n, hn⟩ := named_of_pending ha hpending halias
    rw [binding_of_pending ha hpending, ((opening name f).binding a ha).2]
    exact ⟨n, _, _, hn⟩

/-- Completion with something else behind the bound, and any number of turns more. -/
def completeBeyond (f : File) (bottom : Nat → Resolve Ty) (k : Nat) : Nat → Resolve Ty :=
  completeFrom bottom (packageScope name f) ((declared name f).2.pending.length + 1 + k)

/-- **All types are complete**, with whatever comes behind the bound. -/
lemma completed_underway (hnodup : (ids f.decls).Nodup) (bottom : Nat → Resolve Ty) (k : Nat) :
    completedBy name f (completeBeyond name f bottom k) = completedBy name f (completer name f) ∧
      Underway (declared name f).2 [] (completedBy name f (completeBeyond name f bottom k)) ∧
      (completedBy name f (completeBeyond name f bottom k)).pending = [] := by
  have hr₀ := outset_declared name hnodup
  have hagree :=
    agree_completeWithin hr₀ bottom (packageScope name f) (declared name f).2.pending.length k
  rw [completeFrom_behind] at hagree
  rw [completeBeyond, completeFrom_behind]
  obtain ⟨heq, hunderway, hnil⟩ :=
    hagree.completeAll hr₀.underway (Nat.lt_succ_of_le (length_filter_le ..))
    fun d hd => mem_map_of_mem (f := Pending.binding) hd
  exact ⟨congrArg Prod.snd heq, hunderway, hnil⟩

/-- The nodes that are not looked at any more when all types are complete. -/
def passed (f : File) (k : Nat) : Prop :=
  k ∈ ids (f.decls.flatMap typeNodes) ∨ k ∈ ids (f.decls.flatMap nameNodes)

lemma not_passed {k : Nat} (hnodup : (ids f.decls).Nodup)
    (hk : k ∈ ids (f.decls.flatMap headNodes) ++
    (ids (f.decls.flatMap varNodes) ++ ids (f.decls.flatMap bodyNodes))) : ¬passed f k := by
  have hparts := nodup_partIds hnodup
  rintro (htype | hname)
  · exact disjoint_of_nodup_append hparts.of_append_right htype hk
  · exact disjoint_of_nodup_append hparts hname (mem_append_right _ hk)

/-- **What comes behind the types** does not depend on the bound, and leaves the types alone. -/
lemma resolved_aftermath (hnodup : (ids f.decls).Nodup) {complete complete' : Nat → Resolve Ty}
    (hidle : Idle complete)
    (hidle' : Idle complete') (heq : completedBy name f complete = completedBy name f complete')
    (hnil : (completedBy name f complete).pending = []) :
    resolvedBy name f complete = resolvedBy name f complete' ∧
      Aftermath ((declared name f).1.1.map Signed.binding) (passed f) (completedBy name f complete)
        (resolvedBy name f complete) := by
  have hfuncs :=
    fun {α : Type} (g : FuncType → Option Block → List α) => declareAll_functions g f.decls
    ((importPackages f.imports {}).run (initial name f)).1
    ((importPackages f.imports {}).run (initial name f)).2
  have hheads : ∀ g ∈ (declared name f).1.1, ∀ k ∈ ids [.funcType g.type], ¬passed f k := by
    intro g hg k hk
    refine not_passed hnodup (mem_append_left _ ?_)
    rw [headNodes, ← hfuncs fun type _ => [Node.funcType type]]
    exact mem_ids_of_mem (mem_flatMap.mpr ⟨g, hg, mem_singleton_self _⟩) hk
  have hbodies : ∀ g ∈ (declared name f).1.1, ∀ k ∈ ids (bodyStmts g.body), ¬passed f k := by
    intro g hg k hk
    refine not_passed hnodup (mem_append_right _ (mem_append_right _ ?_))
    rw [bodyNodes, ← hfuncs fun _ body => bodyStmts body]
    exact mem_ids_flatMap hg hk
  have hvars : ∀ k ∈ ids (f.decls.flatMap varNodes), ¬passed f k := fun k hk =>
    not_passed hnodup (mem_append_right _ (mem_append_left _ hk))
  obtain ⟨hrun, hafter⟩ := aftermath_resolveFunctions (s := packageScope name f) hidle hidle' hnil
    (fun g hg => mem_map_of_mem (f := Signed.binding) hg) hheads hvars hbodies
  rw [resolvedBy, resolvedBy, ← heq]
  exact ⟨congrArg Prod.snd hrun, hafter⟩

/-- No function has the binding of a type. -/
lemma binding_not_function {a : Announced} {d : Pending} (ha : a ∈ announced name f)
    (hd : a.pending = some d) :
    a.binding ∉ (declared name f).1.1.map Signed.binding := by
  rw [(opening name f).functions]
  intro hmem
  obtain ⟨a', ha', heq⟩ := mem_map.mp hmem
  obtain ⟨ha', hnone⟩ := mem_filter.mp ha'
  have hsame := inj_on_of_nodup_map nodup_binding_announce ha' ha heq
  rw [hsame, hd] at hnone
  cases hnone

/-- What is announced is known by its binding when everything has been resolved. -/
lemma defs_announced {r₁ r : Resolver} {a : Announced} (hnodup : (ids f.decls).Nodup)
    (hunderway : Underway (declared name f).2 [] r₁)
    (hafter : Aftermath ((declared name f).1.1.map Signed.binding) (passed f) r₁ r)
    (ha : a ∈ announced name f) :
    r.info.defs.find? a.name.mark.id = some a.binding := by
  have hparts := nodup_partIds hnodup
  have hname : a.name.mark.id ∈ ids (f.decls.flatMap nameNodes) := by
    rw [← map_id_announce]
    exact mem_map_of_mem (f := fun a => a.name.mark.id) ha
  have helsewhere : a.name.mark.id ∉ typeIds (declared name f).2.pending := by
    rw [typeIds_declared]
    exact fun hmem => disjoint_of_nodup_append hparts hname (mem_append_left _ hmem)
  have hentry := (hafter.same _ (.inr hname)).trans (hunderway.elsewhere _ helsewhere)
  refine (congrArg Entry.own hentry).trans ?_
  show (declared name f).2.info.defs.find? a.name.mark.id = _
  rw [(opening name f).defs]
  refine Table.find?_insertAll_of_mem ?_ ha
  rw [announced, map_id_announce]
  exact hparts.of_append_left

/-- **A type declaration when everything has been resolved.** -/
lemma typeDecl_complete {r₁ r : Resolver} {m : Mark} {i : Ident} {type : Node} {isAlias : Bool}
    (hnodup : (ids f.decls).Nodup)
    (hunderway : Underway (declared name f).2 [] r₁) (hnil : r₁.pending = [])
    (hafter : Aftermath ((declared name f).1.1.map Signed.binding) (passed f) r₁ r)
    (hd : .typeDecl m i type isAlias ∈ f.decls) :
    r.recorded.count type.id = recordings type ∧
    (isAlias = false → ∃ b d, r.info.defs.find? i.mark.id = some b ∧
      (r.info.binding b).type = .named d i.name f.package.name ∧
      (r.info.underlying.find? d).isSome = true) := by
  have hopening := opening name f
  obtain ⟨a, ha, rfl, hpending, k, hvalue⟩ := exists_announced f.package.name
    ((importPackages f.imports {}).run (initial name f)).2.info.bindings.size Library.firstDecl hd
  have hmem : (⟨a.binding, type, isAlias⟩ : Pending) ∈ (declared name f).2.pending := by
    rw [hopening.pending]
    exact mem_filterMap.mpr ⟨a, ha, hpending⟩
  have hdone : (⟨a.binding, type, isAlias⟩ : Pending) ∉ r₁.pending := hnil ▸ not_mem_nil
  have htype : type.id ∈ ids (f.decls.flatMap typeNodes) :=
    mem_ids_flatMap hd (Regime.mem_ids_self type [])
  refine ⟨(hafter.count _ (.inl htype)).trans (hunderway.evaluated _ hmem hdone), ?_⟩
  rintro rfl
  obtain ⟨hsize, hbinding⟩ := hopening.binding a ha
  have hkept : r₁.info.binding a.binding = a.value := by
    refine (hunderway.kept _ hsize fun d hd' halias heq => ?_).trans hbinding
    have hsame := (outset_declared name hnodup).eq_of_binding_eq hd' hmem heq
    rw [hsame] at halias
    cases halias
  refine ⟨a.binding, k, ?_, ?_, ?_⟩
  · exact defs_announced name hnodup hunderway hafter ha
  · rw [hafter.binding _ (Nat.lt_of_lt_of_le hsize hunderway.size)
      (binding_not_function name ha hpending), hkept, hvalue]
    rfl
  · rw [hafter.underlying]
    refine hunderway.stands _ hmem hdone k a.name.name f.package.name rfl ?_
    rw [hbinding, hvalue]
    rfl

/-- Underlying types are found in one step where none of them is named. -/
lemma underlying_idempotent {env : Underlying} (h : ∀ n t, env.find? n = some t → t.isNamed = false)
    (t : Ty) :
    (t.underlying env).underlying env = t.underlying env := by
  have hnamed := isNamed_underlying h t
  cases hu : t.underlying env with
  | named n name package =>
    rw [hu] at hnamed
    cases hnamed
  | _ => rfl

end Unit

/-- **Resolution ends**, whatever cycles run through the declarations of a unit.  Declarations are
completed inside each other to no greater depth than there are declarations: whatever is done behind
that depth, and however many turns more there may be, the result is the same.  In it no declaration
is pending or active, the type expression of every declaration has been evaluated exactly once,
every type that is no alias stands for something, and nothing stands for a named type. -/
theorem resolution_terminates (name : String) (f : File) :
    let r := Resolver.ofFile name f.numbered
    r = ofFileBy (completeFrom typeAsIs) name f.numbered ∧
    (∀ bottom k, ofFileBy (fun scope n => completeFrom bottom scope (n + 1 + k)) name f.numbered =
      r) ∧
    r.pending = [] ∧ r.active = [] ∧
    (∀ m i type isAlias, .typeDecl m i type isAlias ∈ f.numbered.decls →
      r.recorded.count type.id = recordings type ∧
      (isAlias = false → ∃ b d, r.info.defs.find? i.mark.id = some b ∧
        (r.info.binding b).type = .named d i.name f.numbered.package.name ∧
          (r.info.underlying.find? d).isSome = true)) ∧
    (∀ d t, r.info.underlying.find? d = some t → t.isNamed = false) ∧
    ∀ t : Ty, (t.underlying r.info.underlying).underlying r.info.underlying =
        t.underlying r.info.underlying := by
  have hnodup := Lexical.nodup_ids_decls f
  generalize f.numbered = f at hnodup ⊢
  intro r
  have hwithin : Resolve.completeWithin = completeFrom typeAsIs := by
    funext s n
    exact completeWithin_eq s n
  have hidle' : Idle (Lockstep.completer name f) := idle_completeWithin _ _
  have hby : ∀ bottom k, resolvedBy name f (completeBeyond name f bottom k) =
      resolvedBy name f (Lockstep.completer name f) := by
    intro bottom k
    obtain ⟨heq, -, hnil⟩ := completed_underway name hnodup bottom k
    refine (resolved_aftermath name hnodup ?_ hidle' heq hnil).1
    rw [completeBeyond, completeFrom_behind]
    exact idle_turn _ _
  have hr : r = (report.run (resolvedBy name f (Lockstep.completer name f))).2 :=
    (ofFile_eq_ofFileBy name f).trans (ofFileBy_eq name f _)
  obtain ⟨heq, hunderway, hnil⟩ := completed_underway name hnodup typeAsIs 0
  rw [heq] at hunderway hnil
  obtain ⟨-, hafter⟩ := resolved_aftermath name hnodup hidle' hidle' rfl hnil
  have hstanding : ∀ d t, r.info.underlying.find? d = some t → t.isNamed = false := by
    rw [hr]
    show ∀ d t, (resolvedBy name f (Lockstep.completer name f)).info.underlying.find? d = some t → _
    rw [hafter.underlying]
    exact hunderway.standing
  refine ⟨?_, fun bottom k => ?_, ?_, ?_, fun m i type isAlias hd => ?_, hstanding,
    underlying_idempotent hstanding⟩
  · rw [← hwithin]
    exact ofFile_eq_ofFileBy name f
  · rw [ofFileBy_eq, hr]
    exact congrArg (fun r => (report.run r).2) (hby bottom k)
  · rw [hr]
    exact hafter.pending
  · rw [hr]
    exact hafter.active.trans hunderway.active
  · rw [hr]
    exact (typeDecl_complete name hnodup hunderway hnil hafter hd :)

end Recast.Demand
