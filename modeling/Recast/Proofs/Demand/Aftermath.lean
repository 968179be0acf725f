import Recast.Proofs.Demand.Turns
import Recast.Proofs.Names.Scoping

/-!
# Behind the types

When all type declarations are complete, there is nothing to complete any more.  Signatures, package
variables and bodies are resolved without another turn, and they leave alone what named types stand
for and what is known about the nodes of the type declarations and of the names that are declared.

* `aftermath_resolveFunctions` — what comes behind the types.
-/

namespace Recast.Demand

open List
open Resolve hiding bind
open Lexical

/-- What comes behind the types, seen from the state in which they are complete: nothing is
different about the protected nodes, and about bindings other than those of functions. -/
structure Aftermath (F : List Nat) (P : Nat → Prop) (r₁ r : Resolver) : Prop where
  pending : r.pending = []
  active : r.active = r₁.active
  underlying : r.info.underlying = r₁.info.underlying
  same : ∀ k, P k → entry r k = entry r₁ k
  count : ∀ k, P k → r.recorded.count k = r₁.recorded.count k
  size : r₁.info.bindings.size ≤ r.info.bindings.size
  binding : ∀ b < r₁.info.bindings.size, b ∉ F → r.info.binding b = r₁.info.binding b

/-- There is nothing to do where nothing is pending. -/
def Idle (complete : Nat → Resolve Ty) : Prop :=
  ∀ b r, r.pending = [] → (complete b).run r = ((r.info.binding b).type, r)

variable {F : List Nat} {P : Nat → Prop} {r₁ r r' : Resolver}
  {complete complete' : Nat → Resolve Ty}

lemma idle_turn (s : Scope) (complete : Nat → Resolve Ty) : Idle (turn s complete) := fun _ _ h =>
  run_turn_idle (.inl (by rw [h]; rfl))

lemma idle_completeWithin (s : Scope) (n : Nat) : Idle (completeWithin s n) := by
  cases n with
  | zero => exact fun _ _ _ => rfl
  | succ n =>
    rw [completeWithin_succ]
    exact idle_turn s _

lemma Aftermath.refl (h : r₁.pending = []) : Aftermath F P r₁ r₁ :=
  ⟨h, rfl, rfl, fun _ _ => rfl, fun _ _ => rfl, Nat.le_refl _, fun _ _ _ => rfl⟩

lemma Aftermath.recorded {U : Nat → Prop} (h : Aftermath F P r₁ r)
    (hrec : Recorded (fun k => ¬P k) U r r') (hU : ∀ k, U k → ¬P k) : Aftermath F P r₁ r' where
  pending := hrec.pending.trans h.pending
  active := hrec.active.trans h.active
  underlying := hrec.underlying.trans h.underlying
  same k hk := (hrec.same k (not_not.mpr hk)).trans (h.same k hk)
  count k hk := by
    obtain ⟨ks, hks, hU'⟩ := hrec.trace
    have hnone : ks.count k = 0 := count_eq_zero.mpr fun hmem => hU k (hU' k hmem) hk
    rw [hks, count_append, hnone, Nat.zero_add, h.count k hk]
  size := Nat.le_trans h.size hrec.size
  binding b hb hF := (hrec.binding b (Nat.lt_of_lt_of_le hb h.size)).trans (h.binding b hb hF)

/-- Functions get their types. -/
lemma Aftermath.setType (h : Aftermath F P r₁ r) {b : Nat} (hb : b ∈ F) (t : Ty) :
    Aftermath F P r₁ ((Resolve.setType b t).run r).2 where
  pending := h.pending
  active := h.active
  underlying := h.underlying
  same := h.same
  count := h.count
  size := Nat.le_trans h.size (Nat.le_of_eq Array.size_modify.symm)
  binding c hc hF := by
    have hne : ¬(b = c ∧ c < r.info.bindings.size) := fun heq => hF (heq.1 ▸ hb)
    rw [Lockstep.binding_setType, if_neg hne, h.binding c hc hF]

/-- What comes behind the types, in whatever way there is nothing to do. -/
def aftermath (F : List Nat) (P : Nat → Prop) (r₁ : Resolver) (hidle : Idle complete)
    (hidle' : Idle complete') : Regime where
  complete := complete
  complete' := complete'
  inv := Aftermath F P r₁
  nodes k := ¬P k
  typed k := ¬P k
  names _ := True
  wanted _ := True
  fresh _ := trivial
  stable h hrec := h.recorded hrec fun _ hk => hk
  completes {b r} _ h := by
    rw [hidle b r h.pending, hidle' b r h.pending]
    exact ⟨rfl, h⟩

section Stages

variable {hidle : Idle complete} {hidle' : Idle complete'} {ds : List Node}
  {fs : List Signed} {s : Scope}

/-- Everything is seen and covered but the protected nodes. -/
lemma sees_aftermath (s : Scope) : (aftermath F P r₁ hidle hidle').Sees s := fun _ _ _ _ => trivial

lemma covers_aftermath {ns : List Node} (h : ∀ k ∈ ids ns, ¬P k) (w : List Event) :
    (aftermath F P r₁ hidle hidle').Covers ns w := ⟨h, h, fun _ _ => trivial⟩

/-- Signatures. -/
lemma keeps_signAll (hF : ∀ f ∈ fs, f.binding ∈ F)
    (h : ∀ f ∈ fs, ∀ k ∈ ids [.funcType f.type], ¬P k) :
    (aftermath F P r₁ hidle hidle').Keeps (signAll complete s fs) (signAll complete' s fs)
      fun fs' => fs'.map (·.body) = fs.map (·.body) := by
  induction fs with
  | nil => exact Regime.keeps_pure rfl
  | cons f fs ih =>
    have hsignature := Regime.keepsSignature (aftermath F P r₁ hidle hidle') f.type
      (covers_aftermath (h f mem_cons_self) _) (sees_aftermath s.nested)
    have hset : ∀ t, (aftermath F P r₁ hidle hidle').Keeps
      (setType f.binding t) (setType f.binding t)
        fun _ => True := fun t r hr => ⟨rfl, hr.setType (hF f mem_cons_self) t, trivial⟩
    refine hsignature.bind fun p _ => (hset p.1).bind fun _ _ => ?_
    have hrest :=
      ih (fun g hg => hF g (mem_cons_of_mem _ hg)) fun g hg => h g (mem_cons_of_mem _ hg)
    exact hrest.bind fun fs' hfs' => Regime.keeps_pure (congrArg (f.body :: ·) hfs')

/-- Package variables. -/
lemma keeps_declareVars (h : ∀ k ∈ ids (ds.flatMap varNodes), ¬P k) :
    (aftermath F P r₁ hidle hidle').Keeps (declareVars complete ds s) (declareVars complete' ds s)
      fun _ => True := by
  induction ds generalizing s with
  | nil => exact Regime.keeps_pure trivial
  | cons d ds ih =>
    rw [flatMap_cons, ids_append] at h
    have hrest := fun s => ih (s := s) fun k hk => h k (mem_append_right _ hk)
    cases d with
    | varSpec m names type values =>
      refine (Regime.keepsStmt (aftermath F P r₁ hidle hidle') (.varSpec m names type values)
        (covers_aftermath (fun k hk => h k (mem_append_left _ hk)) _) (sees_aftermath s)).bind
        fun s' _ => ?_
      exact hrest s'
    | _ => exact hrest s

/-- Bodies of functions. -/
lemma keeps_resolveBodies (h : ∀ f ∈ fs, ∀ k ∈ ids (bodyStmts f.body), ¬P k) :
    (aftermath F P r₁ hidle hidle').Keeps (resolveBodies complete s fs)
    (resolveBodies complete' s fs)
      fun _ => True := by
  induction fs with
  | nil => exact Regime.keeps_pure trivial
  | cons f fs ih =>
    rw [resolveBodies_cons, resolveBodies_cons]
    refine Regime.Keeps.bind (Q := fun _ => True) ?_ fun _ _ => ih fun g hg =>
      h g (mem_cons_of_mem _ hg)
    have hbody := h f mem_cons_self
    rw [resolveBody, resolveBody]
    cases hf : f.body with
    | none => exact Regime.keeps_pure trivial
    | some body =>
      rw [hf] at hbody
      obtain ⟨m, ns⟩ := body
      exact (Regime.keepsStmts (aftermath F P r₁ hidle hidle') ns (covers_aftermath hbody _)
        (sees_aftermath _)).give trivial

/-- **What comes behind the types** does the same in whatever way there is nothing to complete, and
leaves them alone. -/
lemma aftermath_resolveFunctions (hidle : Idle complete) (hidle' : Idle complete')
    (hr₁ : r₁.pending = [])
    (hF : ∀ f ∈ fs, f.binding ∈ F) (hheads : ∀ f ∈ fs, ∀ k ∈ ids [.funcType f.type], ¬P k)
    (hvars : ∀ k ∈ ids (ds.flatMap varNodes), ¬P k)
    (hbodies : ∀ f ∈ fs, ∀ k ∈ ids (bodyStmts f.body), ¬P k) :
    (resolveFunctions complete s fs ds).run r₁ = (resolveFunctions complete' s fs ds).run r₁ ∧
      Aftermath F P r₁ ((resolveFunctions complete s fs ds).run r₁).2 := by
  have hkeeps : (aftermath F P r₁ hidle hidle').Keeps (resolveFunctions complete s fs ds)
    (resolveFunctions complete' s fs ds)
      fun _ => True := by
    refine (keeps_signAll hF hheads).bind fun fs' hfs' =>
      (keeps_declareVars hvars).bind fun s' _ => ?_
    refine keeps_resolveBodies fun f hf => ?_
    have hmem : f.body ∈ fs'.map Signed.body := mem_map_of_mem hf
    rw [hfs'] at hmem
    obtain ⟨g, hg, hbody⟩ := mem_map.mp hmem
    rw [← hbody]
    exact hbodies g hg
  obtain ⟨heq, hinv, -⟩ := hkeeps r₁ (.refl hr₁)
  exact ⟨heq, hinv⟩

end Stages

end Recast.Demand
