import Recast.Proofs.Names.Recording
import Recast.Proofs.Names.Visits

/-!
# Reading a word

A computation of the resolver *reads* a word of events if, in any environment that its scope shows,
it makes the bindings right for all events of the word.  The rules here put computations together as
words are put together.

**Background.**  To resolve an expression may complete type declarations that are written elsewhere.
What that can change is fixed beforehand: the `busy` numbers.  An invariant of the state says the
rest about it, and does not depend on what is recorded about numbers other than the busy and the
`held` ones.

**Literals.**  The keys of a literal are looked up unless it is a struct.  Its type is recorded
behind its elements only, so that a reading is right if what was foretold about the literals comes
true: `Background.Foretold`.

* `Reads` — a computation reads a word.
* `Reads.bind` — one after the other.
* `Reads.bracketed` — in a scope of its own.
-/

namespace Recast.Lexical

open List hiding get
open Resolve hiding bind

/-- A type that is a struct itself. -/
def isStruct : Ty → Bool
  | .struct .. => true
  | _ => false

/-- Nothing has happened to type declarations. -/
structure Calm (r r' : Resolver) : Prop where
  pending : r'.pending = r.pending
  active : r'.active = r.active
  underlying : r'.info.underlying = r.info.underlying

lemma Calm.trans {r r' r'' : Resolver} (h : Calm r r') (h' : Calm r' r'') : Calm r r'' :=
  ⟨h'.pending.trans h.pending, h'.active.trans h.active, h'.underlying.trans h.underlying⟩

/-- How type declarations are completed while something else is resolved, and what is foretold about
literals. -/
structure Background where
  complete : Nat → Resolve Ty
  inv : Resolver → Prop
  /-- Completion records something about these numbers only. -/
  busy : List Nat
  /-- The invariant depends on these numbers too. -/
  held : List Nat
  isStruct? : Nat → Option Bool
  env : Underlying
  completes : ∀ b r, inv r → inv ((complete b).run r).2 ∧ Changes busy r ((complete b).run r).2
  stable : ∀ T r r', inv r → Changes T r r' → Calm r r' → T.Disjoint busy → T.Disjoint held → inv r'

namespace Background

/-- The background in which no declaration is left to complete. -/
def idle (isStruct? : Nat → Option Bool) (env : Underlying) : Background where
  complete _ := pure .invalid
  inv _ := True
  busy := []
  held := []
  isStruct? := isStruct?
  env := env
  completes _ _ _ := ⟨trivial, .refl _ _⟩
  stable _ _ _ _ _ _ _ _ := trivial

variable (bg : Background)

/-- What was foretold about the literals among some nodes has come true. -/
def Foretold (r : Resolver) (T : List Nat) : Prop :=
  ∀ k ∈ T, ∀ t, r.info.types.find? k = some t →
    bg.isStruct? k = none ∨ bg.isStruct? k = some (isStruct (t.underlying bg.env))

/-- Some nodes can be resolved in an environment: they are none of those that matter elsewhere. -/
structure Clear (σ : Env) (T : List Nat) : Prop where
  nodup : T.Nodup
  busy : T.Disjoint bg.busy
  held : T.Disjoint bg.held
  env : T.Disjoint σ.ids
  env_busy : σ.ids.Disjoint bg.busy

/-- Nothing is known about some nodes.  Where something is foretold about them, what named types
stand for does not change any more. -/
structure Ready (r : Resolver) (T : List Nat) : Prop where
  inv : bg.inv r
  untouched : Untouched r T
  fixed : ∀ k ∈ T, bg.isStruct? k ≠ none → ∀ r', bg.inv r' → r'.info.underlying = bg.env

/-- A stretch of resolution that concerns some nodes and makes the bindings right for a word, under
a condition. -/
structure Step (cond : Prop) (σ : Env) (w : List Event) (T : List Nat) (r r' : Resolver) :
    Prop where
  changes : Changes (T ++ bg.busy) r r'
  inv : bg.inv r'
  holds : cond → bg.Foretold r' T → HoldsAll r'.info bg.isStruct? σ w

end Background

/-- **Reading a word**: in any environment that the scope shows, a computation makes the bindings
right for the word, and what it gives fits the environment behind the word. -/
structure Reads {α : Type} (bg : Background) (cond : Prop) (scope : Scope) (T : List Nat)
    (w : List Event) (x : Resolve α) (post : Env → Info → α → Prop) : Prop where
  ids : ∀ e ∈ w, ∀ k ∈ e.ids, k ∈ T
  step : ∀ σ r, bg.Clear σ T → bg.Ready r T → Shows r.info σ scope →
    bg.Step cond σ w T r (x.run r).2 ∧ post (σ.run w) (x.run r).2.info (x.run r).1

/-- What a computation gives has a scope in it that shows the environment. -/
def Showing {α : Type} (out : α → Scope) : Env → Info → α → Prop :=
  fun σ info a => Shows info σ (out a)

variable {α β : Type} {bg : Background} {cond : Prop} {scope : Scope} {T U : List Nat}
  {w w' : List Event} {σ : Env}
  {r r' r'' : Resolver} {x : Resolve α} {f : α → Resolve β} {out : α → Scope}
  {post : Env → Info → α → Prop}

namespace Background

lemma Clear.left (h : bg.Clear σ (T ++ U)) : bg.Clear σ T where
  nodup := h.nodup.of_append_left
  busy _ hk := h.busy (mem_append_left _ hk)
  held _ hk := h.held (mem_append_left _ hk)
  env _ hk := h.env (mem_append_left _ hk)
  env_busy := h.env_busy

lemma Clear.right (h : bg.Clear σ (T ++ U)) : bg.Clear σ U where
  nodup := h.nodup.of_append_right
  busy _ hk := h.busy (mem_append_right _ hk)
  held _ hk := h.held (mem_append_right _ hk)
  env _ hk := h.env (mem_append_right _ hk)
  env_busy := h.env_busy

/-- What comes behind a word can be resolved in the environment behind it. -/
lemma Clear.behind (h : bg.Clear σ (T ++ U)) (hids : ∀ e ∈ w, ∀ k ∈ e.ids, k ∈ T) :
    bg.Clear (σ.run w) U where
  nodup := h.right.nodup
  busy := h.right.busy
  held := h.right.held
  env k hk hσ := by
    rcases Env.mem_ids_run hσ with hσ | ⟨e, he, hk'⟩
    · exact h.right.env hk hσ
    · exact disjoint_of_nodup_append h.nodup (hids e he k hk') hk
  env_busy k hσ := by
    rcases Env.mem_ids_run hσ with hσ | ⟨e, he, hk'⟩
    · exact h.env_busy hσ
    · exact h.busy (mem_append_left _ (hids e he k hk'))

lemma Clear.nested (h : bg.Clear σ T) : bg.Clear ([] :: σ) T :=
  ⟨h.nodup, h.busy, h.held, h.env, h.env_busy⟩

lemma Ready.left (h : bg.Ready r (T ++ U)) : bg.Ready r T where
  inv := h.inv
  untouched := h.untouched.left
  fixed k hk := h.fixed k (mem_append_left _ hk)

/-- Nothing was recorded about what comes later. -/
lemma Ready.right (h : bg.Ready r (T ++ U)) (hclear : bg.Clear σ (T ++ U))
    (hs : bg.Step cond σ w T r r') :
    bg.Ready r' U := by
  refine ⟨hs.inv, h.untouched.right.kept hs.changes ?_,
    fun k hk => h.fixed k (mem_append_right _ hk)⟩
  intro k hk hmem
  rcases mem_append.mp hmem with hmem | hmem
  · exact disjoint_of_nodup_append hclear.nodup hmem hk
  · exact hclear.busy (mem_append_right _ hk) hmem

/-- Nothing is recorded later about some nodes. -/
lemma Clear.not_mem_late (h : bg.Clear σ (T ++ U)) : ∀ k ∈ T, k ∉ U ++ bg.busy := by
  intro k hk hmem
  rcases mem_append.mp hmem with hmem | hmem
  · exact disjoint_of_nodup_append h.nodup hk hmem
  · exact h.busy (mem_append_left _ hk) hmem

lemma Clear.late (h : bg.Clear σ (T ++ U)) (hids : ∀ e ∈ w, ∀ k ∈ e.ids, k ∈ T) :
    ∀ e ∈ w, ∀ k ∈ e.ids, k ∉ U ++ bg.busy :=
  fun e he k hk => h.not_mem_late k (hids e he k hk)

/-- One stretch behind the other, which records nothing about what the word is about. -/
lemma Step.trans (h : bg.Step cond σ w T r r') (h' : bg.Step cond (σ.run w) w' U r' r'')
    (hclear : bg.Clear σ (T ++ U)) (hlate : ∀ e ∈ w, ∀ k ∈ e.ids, k ∉ U ++ bg.busy) :
    bg.Step cond σ (w ++ w') (T ++ U) r r'' := by
  refine ⟨?_, h'.inv, ?_⟩
  · refine (h.changes.mono ?_).trans (h'.changes.mono ?_)
    · intro k hk
      simp only [mem_append] at hk ⊢
      tauto
    · intro k hk
      simp only [mem_append] at hk ⊢
      tauto
  · intro hcond hforetold
    refine holdsAll_append.mpr ⟨(h.holds hcond ?_).kept h'.changes hlate ?_, h'.holds hcond ?_⟩
    · intro k hk t ht
      refine hforetold k (mem_append_left _ hk) t ?_
      rw [(h'.changes.same k (hclear.not_mem_late k hk)).types, ht]
    · intro k hk hmem
      rcases mem_append.mp hmem with hmem | hmem
      · exact hclear.env (mem_append_right _ hmem) hk
      · exact hclear.env_busy hk hmem
    · intro k hk
      exact hforetold k (mem_append_right _ hk)

/-- The condition may be stronger. -/
lemma Step.under {cond' : Prop} (hs : bg.Step cond σ w T r r') (h : cond' → cond) :
    bg.Step cond' σ w T r r' :=
  ⟨hs.changes, hs.inv, fun hcond => hs.holds (h hcond)⟩

/-- A scope goes on showing the environment in which a stretch begins. -/
lemma Step.shows (h : bg.Step cond σ w T r r') (hclear : bg.Clear σ T) (hs : Shows r.info σ scope) :
    Shows r'.info σ scope := by
  refine hs.kept h.changes fun k hk hmem => ?_
  rcases mem_append.mp hmem with hmem | hmem
  · exact hclear.env hmem hk
  · exact hclear.env_busy hk hmem

end Background

/-- What the second computation gives in the state behind the first. -/
lemma run_bind (x : Resolve α) (f : α → Resolve β) (r : Resolver) :
    (x >>= f).run r = (f (x.run r).1).run (x.run r).2 := rfl

/-! ## Rules -/

namespace Reads

/-- One computation after the other, in the scope that the first one gives. -/
lemma bind {post' : Env → Info → β → Prop} (hx : Reads bg cond scope T w x (Showing out))
    (hf : ∀ a, Reads bg cond (out a) U w' (f a) post') :
    Reads bg cond scope (T ++ U) (w ++ w') (x >>= f) post' where
  ids e he k hk := by
    rcases mem_append.mp he with he | he
    · exact mem_append_left _ (hx.ids e he k hk)
    · obtain ⟨a⟩ : Nonempty α := ⟨(x.run { file := "" }).1⟩
      exact mem_append_right _ ((hf a).ids e he k hk)
  step σ r hclear hready hs := by
    obtain ⟨hstep, hout⟩ := hx.step σ r hclear.left hready.left hs
    obtain ⟨hstep', hpost⟩ :=
      (hf _).step (σ.run w) _ (hclear.behind hx.ids) (hready.right hclear hstep) hout
    refine ⟨hstep.trans hstep' hclear (hclear.late hx.ids), ?_⟩
    rw [Env.run_append]
    exact hpost

/-- The nodes that a reading concerns may come in another order, and there may be more of them. -/
lemma mono (hx : Reads bg cond scope T w x post) (h : ∀ k, T.count k ≤ U.count k) :
    Reads bg cond scope U w x post := by
  have hsub : ∀ k ∈ T, k ∈ U := by
    intro k hk
    exact count_pos_iff.mp (Nat.lt_of_lt_of_le (count_pos_iff.mpr hk) (h k))
  refine ⟨fun e he k hk => hsub k (hx.ids e he k hk), ?_⟩
  intro σ r hclear hready hs
  have hclear' : bg.Clear σ T :=
    ⟨nodup_iff_count.mpr fun k => Nat.le_trans (h k) (nodup_iff_count.mp hclear.nodup k),
      fun k hk => hclear.busy (hsub k hk), fun k hk => hclear.held (hsub k hk),
      fun k hk => hclear.env (hsub k hk), hclear.env_busy⟩
  have hready' : bg.Ready r T :=
    ⟨hready.inv, fun k hk => hready.untouched k (hsub k hk), fun k hk => hready.fixed k (hsub k hk)⟩
  obtain ⟨hstep, hpost⟩ := hx.step σ r hclear' hready' hs
  refine ⟨⟨hstep.changes.mono ?_, hstep.inv, ?_⟩, hpost⟩
  · intro k hk
    rcases mem_append.mp hk with hk | hk
    · exact mem_append_left _ (hsub k hk)
    · exact mem_append_right _ hk
  · intro hcond hforetold
    exact hstep.holds hcond fun k hk => hforetold k (hsub k hk)

/-- A word that is right whenever another one is, and leads to the same environments. -/
lemma reword (hx : Reads bg cond scope T w x post) (hids : ∀ e ∈ w', ∀ k ∈ e.ids, k ∈ T)
    (hrun : ∀ σ : Env, σ.run w' = σ.run w)
    (h : ∀ info σ, cond → HoldsAll info bg.isStruct? σ w → HoldsAll info bg.isStruct? σ w') :
    Reads bg cond scope T w' x post where
  ids := hids
  step σ r hclear hready hs := by
    obtain ⟨hstep, hpost⟩ := hx.step σ r hclear hready hs
    rw [← hrun σ] at hpost
    refine ⟨⟨hstep.changes, hstep.inv, ?_⟩, hpost⟩
    intro hcond hforetold
    exact h _ σ hcond (hstep.holds hcond hforetold)

/-- **A scope of its own** is over when the computation is. -/
lemma bracketed (hx : Reads bg cond scope.nested T w x post) (hw : Stays w) :
    Reads bg cond scope T (bracketed w) x (Showing fun _ => scope) where
  ids e he k hk := by
    rcases mem_cons.mp he with rfl | he
    · cases hk
    · rcases mem_append.mp he with he | he
      · exact hx.ids e he k hk
      · cases mem_singleton.mp he
        cases hk
  step σ r hclear hready hs := by
    obtain ⟨hstep, -⟩ := hx.step ([] :: σ) r hclear.nested hready hs.nested
    refine ⟨⟨hstep.changes, hstep.inv, ?_⟩, ?_⟩
    · intro hcond hforetold
      exact ⟨trivial, holdsAll_append.mpr ⟨hstep.holds hcond hforetold, trivial, trivial⟩⟩
    · rw [Showing, hw.bracketed]
      exact (forall₂_cons.mp (hstep.shows hclear.nested hs.nested)).2

end Reads

/-! ## Steps that read nothing -/

/-- A computation that changes nothing that is known and nothing about type declarations, and does
not stop. -/
structure Silent {α : Type} (x : Resolve α) : Prop where
  info : ∀ r, (x.run r).2.info = r.info
  recorded : ∀ r, (x.run r).2.recorded = r.recorded
  pending : ∀ r, (x.run r).2.pending = r.pending
  active : ∀ r, (x.run r).2.active = r.active
  stopped : ∀ r, (x.run r).2.stopped = r.stopped

lemma silent_pure (a : α) : Silent (pure a : Resolve α) :=
  ⟨fun _ => rfl, fun _ => rfl, fun _ => rfl, fun _ => rfl, fun _ => rfl⟩

lemma Silent.bind (hx : Silent x) (hf : ∀ a, Silent (f a)) : Silent (x >>= f) where
  info r := ((hf _).info _).trans (hx.info r)
  recorded r := ((hf _).recorded _).trans (hx.recorded r)
  pending r := ((hf _).pending _).trans (hx.pending r)
  active r := ((hf _).active _).trans (hx.active r)
  stopped r := ((hf _).stopped _).trans (hx.stopped r)

lemma Still.silent (hx : Still x) : Silent x where
  info r := by
    obtain ⟨n, k, log, h⟩ := hx r
    rw [h]
  recorded r := by
    obtain ⟨n, k, log, h⟩ := hx r
    rw [h]
  pending r := by
    obtain ⟨n, k, log, h⟩ := hx r
    rw [h]
  active r := by
    obtain ⟨n, k, log, h⟩ := hx r
    rw [h]
  stopped r := by
    obtain ⟨n, k, log, h⟩ := hx r
    rw [h]

lemma silent_denotesType (m : Mark) : Silent (denotesType m) :=
  ⟨fun _ => rfl, fun _ => rfl, fun _ => rfl, fun _ => rfl, fun _ => rfl⟩

lemma silent_ite {c : Prop} [Decidable c] {x y : Resolve α} (hx : Silent x) (hy : Silent y) :
    Silent (if c then x else y) := by
  split
  · exact hx
  · exact hy

/-! ## Steps that record something -/

/-- A computation that records something about some nodes and leaves type declarations alone. -/
structure Records {α : Type} (T : List Nat) (x : Resolve α) : Prop where
  calm : ∀ r, Calm r (x.run r).2
  changes : ∀ r, Changes T r (x.run r).2

lemma Silent.records (hx : Silent x) : Records [] x where
  calm r := ⟨hx.pending r, hx.active r, by rw [hx.info r]⟩
  changes r := .of_info (hx.info r)

/-- To read the length of an array records nothing, even if it stops. -/
lemma records_arrayLength (n : Node) : Records [] (arrayLength n) := by
  rw [arrayLength.eq_def]
  split
  · split
    · exact (silent_pure _).records
    · exact ⟨fun _ => ⟨rfl, rfl, rfl⟩, fun _ => .of_info rfl⟩
  · exact (silent_pure _).records

lemma Records.bind (hx : Records T x) (hf : ∀ a, Records U (f a)) : Records (T ++ U) (x >>= f) where
  calm r := ((hx.calm r).trans ((hf _).calm _) :)
  changes r := (((hx.changes r).mono fun _ => mem_append_left _).trans
    (((hf _).changes _).mono fun _ => mem_append_right _) :)

lemma Records.mono (hx : Records T x) (h : ∀ k ∈ T, k ∈ U) : Records U x :=
  ⟨hx.calm, fun r => (hx.changes r).mono h⟩

lemma Records.afterSilent (hx : Silent x) (hf : ∀ a, Records T (f a)) : Records T (x >>= f) :=
  hx.records.bind hf

/-- A computation that only records something reads a word if it makes the bindings right for it. -/
lemma Records.reads (hx : Records T x) (hids : ∀ e ∈ w, ∀ k ∈ e.ids, k ∈ T)
    (h : ∀ σ r, bg.Clear σ T → bg.Ready r T → Shows r.info σ scope →
      (cond → HoldsAll (x.run r).2.info bg.isStruct? σ w) ∧
      post (σ.run w) (x.run r).2.info (x.run r).1) :
    Reads bg cond scope T w x post where
  ids := hids
  step σ r hclear hready hs := by
    obtain ⟨hholds, hpost⟩ := h σ r hclear hready hs
    refine ⟨⟨(hx.changes r).mono fun k hk => mem_append_left _ hk, ?_, fun hcond _ => hholds hcond⟩,
      hpost⟩
    exact bg.stable T r _ hready.inv (hx.changes r) (hx.calm r) hclear.busy hclear.held

lemma Silent.reads (hx : Silent x) : Reads bg cond scope [] [] x (Showing fun _ => scope) := by
  refine hx.records.reads (by simp) ?_
  intro σ r _ _ hs
  refine ⟨fun _ => trivial, ?_⟩
  rw [Showing, hx.info r]
  exact hs

/-- A result that has the scope in it. -/
lemma reads_pure {a : α} (ha : out a = scope) :
    Reads bg cond scope [] [] (pure a) (Showing out) := by
  subst ha
  have h : Reads bg cond (out a) [] [] (pure a) (Showing fun _ => out a) := (silent_pure a).reads
  exact ⟨h.ids, fun σ r hclear hready hs => ⟨(h.step σ r hclear hready hs).1, hs⟩⟩

namespace Reads

lemma afterSilent {post' : Env → Info → β → Prop} (hx : Silent x)
    (hf : ∀ a, Reads bg cond scope T w (f a) post') :
    Reads bg cond scope T w (x >>= f) post' := hx.reads.bind hf

end Reads

/-- A scope goes on showing an environment that has nothing to do with the nodes. -/
lemma Changes.shows (h : Changes T r r') (hclear : bg.Clear σ T) (hs : Shows r.info σ scope) :
    Shows r'.info σ scope :=
  hs.kept h fun _ hk hmem => hclear.env hmem hk

/-- To record a type concerns the types only. -/
lemma changes_typed (m : Mark) (t : Ty) (r : Resolver) :
    Changes [m.id] r ((typed m t).run r).2 where
  same k hk := by
    refine ⟨rfl, rfl, ?_⟩
    show (r.info.types.insert m.id t).find? k = r.info.types.find? k
    rw [Table.find?_insert, if_neg (Ne.symm (ne_of_not_mem_cons hk))]
  size_le := Nat.le_refl _
  untyped _ _ := rfl
  distinct _ h := h

lemma records_typed (m : Mark) (t : Ty) : Records [m.id] (typed m t) :=
  ⟨fun _ => ⟨rfl, rfl, rfl⟩, changes_typed m t⟩

/-- A computation that records nothing about names reads the empty word. -/
lemma Records.readsNothing (hx : Records T x) :
    Reads bg cond scope T [] x (Showing fun _ => scope) := by
  refine hx.reads (by simp) ?_
  intro σ r hclear _ hs
  exact ⟨fun _ => trivial, (hx.changes r).shows hclear hs⟩

/-- A reading that ends with something that concerns no name. -/
lemma Reads.finish (hx : Reads bg cond scope T w x (Showing out)) {out' : β → Scope}
    (hf : ∀ a, Records U (f a)) (hout : ∀ a r, out' ((f a).run r).1 = out a) :
    Reads bg cond scope (T ++ U) w (x >>= f) (Showing out') := by
  have h : Reads bg cond scope (T ++ U) (w ++ []) (x >>= f) (Showing out') := by
    refine hx.bind fun a => ⟨by simp, ?_⟩
    intro σ r hclear hready hs
    obtain ⟨hstep, hpost⟩ := (hf a).readsNothing.step σ r hclear hready hs
    refine ⟨hstep, ?_⟩
    rw [Showing, hout a r]
    exact hpost
  rwa [append_nil] at h

lemma Reads.thenSilent (hx : Reads bg cond scope T w x (Showing out)) {out' : β → Scope}
    (hf : ∀ a, Silent (f a)) (hout : ∀ a r, out' ((f a).run r).1 = out a) :
    Reads bg cond scope T w (x >>= f) (Showing out') := by
  have h := hx.finish (fun a => (hf a).records) hout
  rwa [append_nil] at h

/-- The same where there is no scope to go on with. -/
lemma Reads.close (hx : Reads bg cond scope T w x post) (hf : ∀ a, Records U (f a)) :
    Reads bg cond scope (T ++ U) w (x >>= f) (fun _ _ _ => True) where
  ids e he k hk := mem_append_left _ (hx.ids e he k hk)
  step σ r hclear hready hs := by
    obtain ⟨hstep, -⟩ := hx.step σ r hclear.left hready.left hs
    have hlate := (hf (x.run r).1).changes (x.run r).2
    have hlast : bg.Step cond (σ.run w) [] U (x.run r).2 ((x >>= f).run r).2 := by
      have hclear' := hclear.behind hx.ids
      refine ⟨hlate.mono fun k hk => mem_append_left _ hk, ?_, fun _ _ => trivial⟩
      exact bg.stable _ _ _ hstep.inv hlate ((hf _).calm _) hclear'.busy hclear'.held
    have h := hstep.trans hlast hclear (hclear.late hx.ids)
    rw [append_nil] at h
    exact ⟨h, trivial⟩

/-- To record what an identifier refers to concerns the uses only. -/
lemma changes_refers (i : Ident) (b : Nat) (r : Resolver) :
    Changes [i.mark.id] r ((refers i b).run r).2 where
  same k hk := by
    refine ⟨rfl, ?_, rfl⟩
    show (r.info.uses.insert i.mark.id b).find? k = r.info.uses.find? k
    rw [Table.find?_insert, if_neg (Ne.symm (ne_of_not_mem_cons hk))]
  size_le := Nat.le_refl _
  untyped _ _ := rfl
  distinct _ h := h

lemma records_refers (i : Ident) (b : Nat) : Records [i.mark.id] (refers i b) :=
  ⟨fun _ => ⟨rfl, rfl, rfl⟩, changes_refers i b⟩

/-- A new binding has the next number. -/
lemma binding_push (info : Info) (x : Binding) (b : Nat) :
    { info with bindings := info.bindings.push x }.binding b =
      if b = info.bindings.size then x else info.binding b := by
  rw [Info.binding, Info.binding, Array.getD_eq_getD_getElem?,
    Array.getD_eq_getD_getElem?, Array.getElem?_push]
  split
  · rfl
  · rfl

lemma size_bind (x : Binding) (r : Resolver) :
    ((Resolve.bind x).run r).2.info.bindings.size = r.info.bindings.size + 1 := Array.size_push x

lemma binding_bind (x : Binding) (r : Resolver) :
    ((Resolve.bind x).run r).2.info.binding r.info.bindings.size = x :=
  (binding_push r.info x _).trans (if_pos rfl)

lemma changes_bind (x : Binding) (r : Resolver) : Changes [] r ((Resolve.bind x).run r).2 where
  same _ _ := ⟨rfl, rfl, rfl⟩
  size_le := by
    show r.info.bindings.size ≤ (r.info.bindings.push x).size
    rw [Array.size_push]
    exact Nat.le_succ _
  untyped b hb := by
    show Lexical.untyped ({ r.info with bindings := r.info.bindings.push x }.binding b) = _
    rw [binding_push, if_neg (Nat.ne_of_lt hb)]
  distinct base h := by
    show base ≤ (r.info.bindings.push x).size ∧ ∀ k b, _ → _ ∧ b < (r.info.bindings.push x).size ∧ _
    rw [Array.size_push]
    refine ⟨Nat.le_succ_of_le h.1, ?_⟩
    intro k b hb
    obtain ⟨hbase, hlt, hinj⟩ := h.2 k b hb
    exact ⟨hbase, Nat.lt_succ_of_lt hlt, hinj⟩

/-- **A new binding belongs to one identifier only.** -/
lemma changes_bind_defines (i : Ident) (x : Binding) (r : Resolver) :
    Changes [i.mark.id] r ((Resolve.bind x >>= defines i).run r).2 := by
  have h := changes_bind x r
  refine ⟨?_, h.size_le, h.untyped, ?_⟩
  · intro k hk
    refine ⟨?_, rfl, rfl⟩
    show (r.info.defs.insert i.mark.id r.info.bindings.size).find? k = r.info.defs.find? k
    rw [Table.find?_insert, if_neg (Ne.symm (ne_of_not_mem_cons hk))]
  · intro base hd
    obtain ⟨hbase, hdefs⟩ := h.distinct base hd
    refine ⟨hbase, ?_⟩
    intro k b
    show (r.info.defs.insert i.mark.id r.info.bindings.size).find? k = some b →
      _ ∧ b < (r.info.bindings.push x).size ∧
        ∀ k', (r.info.defs.insert i.mark.id r.info.bindings.size).find? k' = some b → k' = k
    simp only [Table.find?_insert, Array.size_push]
    intro hb
    have hold : ∀ k', r.info.defs.find? k' = some b → b < r.info.bindings.size :=
      fun k' hk' => (hd.2 k' b hk').2.1
    split at hb
    · rename_i hk
      cases hb
      refine ⟨hd.1, Nat.lt_succ_self _, ?_⟩
      intro k' hk'
      split at hk'
      · rename_i heq
        exact heq.symm.trans hk
      · exact absurd (hold k' hk') (Nat.lt_irrefl _)
    · obtain ⟨hle, hlt, hinj⟩ := hd.2 k b hb
      refine ⟨hle, Nat.lt_succ_of_lt hlt, ?_⟩
      intro k' hk'
      split at hk'
      · cases hk'
        exact absurd hlt (Nat.lt_irrefl _)
      · exact hinj k' hk'

/-! ## Declarations -/

lemma define_eq {i : Ident} (hi : ¬(i.name == "_") = true) (t : Ty) (scope : Scope) :
    define i t scope = (do
    let b ← Resolve.bind
      { name := i.name, kind := .var, type := t, loc := i.mark.loc, package := (← get).package }
    defines i b
    let _ ← typed i.mark t
    return scope.declare i.name b) := if_neg hi

lemma define_blank {i : Ident} (hi : (i.name == "_") = true) (t : Ty) (scope : Scope) :
    define i t scope = pure scope := if_pos hi

lemma records_define (i : Ident) (t : Ty) (scope : Scope) :
    Records [i.mark.id] (define i t scope) := by
  by_cases hi : (i.name == "_") = true
  · rw [define_blank hi]
    exact (silent_pure scope).records.mono (by simp)
  · rw [define_eq hi]
    exact ⟨fun _ => ⟨rfl, rfl, rfl⟩, fun r => (changes_bind_defines i _ r).trans
      (changes_typed i.mark t _)⟩

/-- An identifier that is given a new binding has it for itself. -/
lemma declared_bind {i : Ident} {x : Binding} {info : Info} (hname : x.name = i.name)
    (hloc : x.loc = i.mark.loc) (hkind : x.kind ≠ .package)
    (hdefs : info.defs = r.info.defs.insert i.mark.id r.info.bindings.size)
    (hbindings : info.bindings = r.info.bindings.push x) :
    Declared info i ∧ (Origin.ident i).Stands info r.info.bindings.size := by
  have hfind : info.defs.find? i.mark.id = some r.info.bindings.size := by
    rw [hdefs, Table.find?_insert, if_pos rfl]
  have hlt : r.info.bindings.size < info.bindings.size := by
    rw [hbindings, Array.size_push]
    exact Nat.lt_succ_self _
  have hnew : info.binding r.info.bindings.size = x := by
    rw [Info.binding, hbindings]
    exact binding_bind x r
  rw [← hnew] at hname hloc hkind
  exact ⟨⟨_, hfind, hlt, hname, hloc⟩, hfind, hlt, iff_of_false hkind (by simp)⟩

/-- A new identifier has a binding of its own, and its name is visible. -/
lemma declared_define {i : Ident} (hi : ¬(i.name == "_") = true) (t : Ty)
    (hclear : bg.Clear σ [i.mark.id]) (hs : Shows r.info σ scope) :
    Declared ((define i t scope).run r).2.info i ∧
      Shows ((define i t scope).run r).2.info (σ.push i.name (.ident i))
        ((define i t scope).run r).1 := by
  have hs' := ((records_define i t scope).changes r).shows hclear hs
  rw [define_eq hi] at hs' ⊢
  have hnew : ∀ info : Info, info.defs = r.info.defs.insert i.mark.id r.info.bindings.size →
      info.bindings = r.info.bindings.push
        { name := i.name, kind := .var, type := t, loc := i.mark.loc, package := r.package } →
      Declared info i ∧ (Origin.ident i).Stands info r.info.bindings.size :=
        fun _ => declared_bind rfl rfl (by simp)
  exact ⟨(hnew _ rfl rfl).1, hs'.declare i.name (hnew _ rfl rfl).2⟩

/-- An identifier about which nothing is known has no binding. -/
lemma Background.Ready.bindingOf? {i : Ident} (h : bg.Ready r T) (hi : i.mark.id ∈ T) :
    r.info.bindingOf? i = none := by
  rw [Info.bindingOf?, (h.untouched _ hi).1]
  exact (h.untouched _ hi).2

lemma ids_of_singleton {e : Event} {k : Nat} (h : e.ids = [k]) :
    ∀ e' ∈ [e], ∀ k' ∈ e'.ids, k' ∈ [k] := by
  intro e' he'
  rw [mem_singleton.mp he', h]
  exact fun _ hk => hk

lemma ids_unlessBlank {event : Ident → Event} {i : Ident} (h : (event i).ids = [i.mark.id]) :
    (unlessBlank event i).ids = [i.mark.id] := by
  rw [unlessBlank]
  split
  · rfl
  · exact h

/-- **Declarations**: of a variable. -/
lemma reads_define (i : Ident) (t : Ty) :
    Reads bg cond scope [i.mark.id] [unlessBlank .declare i] (define i t scope) (Showing id) := by
  refine (records_define i t scope).reads (ids_of_singleton (ids_unlessBlank rfl)) ?_
  intro σ r hclear hready hs
  by_cases hi : (i.name == "_") = true
  · rw [define_blank hi, unlessBlank, if_pos hi]
    exact ⟨fun _ => ⟨hready.bindingOf? mem_cons_self, trivial⟩, hs⟩
  · obtain ⟨hdeclared, hshows⟩ := declared_define hi t hclear hs
    rw [unlessBlank, if_neg hi]
    exact ⟨fun _ => ⟨hdeclared, trivial⟩, hshows⟩

end Recast.Lexical
