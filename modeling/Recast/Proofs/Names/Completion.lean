import Mathlib.Data.List.Pairwise
import Recast.Proofs.Names.Traversal

/-!
# Completing type declarations

A type declaration is completed when it is first needed, which may be while another one is active.
Whatever the order, the bindings are right for the names in all of them when none is pending any
more.

**Underway.**  While some declarations are active, each of the others is pending or complete.
Nothing is known about the nodes of a pending one, and for the names of a complete one the bindings
are right.  To complete a declaration is to make it active, to read its type with what is left as a
background, and to record what it stands for; each of the three keeps the invariant (`Underway`).

* `Declarations.completeWithin_step` — what completing one declaration does.
* `Declarations.completeAll_step` — after all of them nothing is pending.
-/

namespace Recast.Lexical

open List hiding modify
open Resolve hiding bind

/-! ## One declaration -/

/-- Records what a declaration stands for: an alias for a type, and any other for a new one. -/
def settle (d : Pending) (t : Ty) : Resolve Unit := do
  if d.isAlias then setType d.binding t
  else
    match (← bindingAt d.binding).type with
    | .named n _ _ =>
      modify fun r =>
        { r with info := { r.info with underlying := r.info.underlying.complete n t } }
    | _ => pure ()

lemma settle_bind (d : Pending) (t : Ty) (rest : Resolve Ty) : (do settle d t; rest) =
    (if d.isAlias then do setType d.binding t; rest
    else do
      let binding ← bindingAt d.binding
      match binding.type with
      | .named n _ _ =>
        modify fun r =>
          { r with info := { r.info with underlying := r.info.underlying.complete n t } }
        rest
      | _ => rest) := by
  rw [settle]
  cases d.isAlias with
  | true => rfl
  | false =>
    funext r
    show ((match (r.info.binding d.binding).type with
      | .named n _ _ => _
      | _ => _ : Resolve Unit) >>= fun _ => rest).run r =
      (match (r.info.binding d.binding).type with | .named n _ _ => _ | _ => _ : Resolve Ty).run r
    cases (r.info.binding d.binding).type with
    | _ => rfl

/-- Completes a declaration. -/
def completeDecl (complete : Nat → Resolve Ty) (package : Scope) (d : Pending) : Resolve Ty := do
  modify fun r => { r with active := d.binding :: r.active }
  let t ← asType d.type (← expr complete package none d.type)
  settle d t
  modify fun r =>
    { r with
      active := r.active.filter (· != d.binding)
      pending := r.pending.filter (·.binding != d.binding) }
  return (← bindingAt d.binding).type

/-- What is complete, active or no type declaration at all is left as it is. -/
lemma completeWithin_succ (package : Scope) (n b : Nat) (r : Resolver) :
    (completeWithin package (n + 1) b).run r =
    match r.pending.find? (·.binding == b) with
    | none => ((r.info.binding b).type, r)
    | some d =>
      if r.active.contains b then ((r.info.binding b).type, r)
      else (completeDecl (completeWithin package n) package d).run r := by
  rw [completeWithin]
  show ((match r.pending.find? (·.binding == b) with
    | none => _
    | some d => _ : Resolve Ty).run r) = _
  cases hfind : r.pending.find? (·.binding == b) with
  | none => rfl
  | some d =>
    have hb : d.binding = b := by simpa using find?_some hfind
    subst hb
    dsimp only
    split
    · rfl
    · refine congrArg (StateT.run · r) ?_
      exact bind_congr fun _ => bind_congr fun _ => bind_congr fun t => (settle_bind d t _).symm

/-- When nothing is pending there is nothing to complete. -/
lemma completeWithin_of_pending_eq_nil (package : Scope) (n b : Nat) {r : Resolver}
    (h : r.pending = []) :
    ((completeWithin package n b).run r).2 = r := by
  cases n with
  | zero => rfl
  | succ n =>
    rw [completeWithin_succ, h]
    rfl

/-- To give a binding its type concerns nothing else about it. -/
lemma changes_setType (b : Nat) (t : Ty) (r : Resolver) : Changes [] r ((setType b t).run r).2 where
  same _ _ := ⟨rfl, rfl, rfl⟩
  size_le := Nat.le_of_eq Array.size_modify.symm
  untyped c _ := by
    show Lexical.untyped ({ r.info with bindings := r.info.bindings.modify b _ }.binding c) = _
    rw [Info.binding, Info.binding, Array.getD_eq_getD_getElem?, Array.getD_eq_getD_getElem?,
      Array.getElem?_modify]
    split
    · cases r.info.bindings[c]? with
      | none => rfl
      | some x => rfl
    · rfl
  distinct base h := by
    show base ≤ (r.info.bindings.modify b _).size ∧ ∀ k c, _ → _ ∧
      c < (r.info.bindings.modify b _).size ∧ _
    rw [Array.size_modify]
    exact h

lemma changes_settle (d : Pending) (t : Ty) (r : Resolver) :
    Changes [] r ((settle d t).run r).2 ∧ ((settle d t).run r).2.pending = r.pending ∧
      ((settle d t).run r).2.active = r.active := by
  rw [settle]
  split
  · exact ⟨changes_setType _ _ r, rfl, rfl⟩
  · rw [run_bind]
    generalize ((bindingAt d.binding).run r).1.type = u
    cases u with
    | named =>
      exact ⟨⟨fun _ _ => ⟨rfl, rfl, rfl⟩, Nat.le_refl _, fun _ _ => rfl, fun _ h => h⟩, rfl, rfl⟩
    | _ => exact ⟨.refl _ _, rfl, rfl⟩

/-! ## All declarations -/

/-- The numbers of the nodes of type declarations. -/
def typeIds (ds : List Pending) : List Nat := ds.flatMap fun d => ids [d.type]

/-- The type declarations of a package and the scope in which they are completed.  No two of them
have a binding or a node in common, and no node of theirs is what declares a name of the package. -/
structure Declarations where
  decls : List Pending
  package : Scope
  env : Env
  isStruct? : Nat → Option Bool
  nodup_bindings : (decls.map Pending.binding).Nodup
  nodup_ids : (typeIds decls).Nodup
  disjoint_env : (typeIds decls).Disjoint env.ids
  /-- Nothing is foretold about literals in them. -/
  unforetold : ∀ k ∈ typeIds decls, isStruct? k = none

/-- Nothing is recorded about other nodes than those of the word of an expression. -/
lemma ids_exprWord (n : Node) : ∀ e ∈ exprWord n, ∀ k ∈ e.ids, k ∈ ids [n] :=
  (readsExpr (.idle (fun _ => none) {}) n [] none).ids

namespace Declarations

variable (D : Declarations)

/-- The numbers of the nodes of declarations that are not active. -/
def busy (A : List Nat) : List Nat := typeIds (D.decls.filter fun d => !A.contains d.binding)

/-- **Some declarations are active**, and no more than the given ones are pending. -/
structure Underway (bound : List Pending) (A : List Nat) (r : Resolver) : Prop where
  shows : Shows r.info D.env D.package
  active : r.active = A
  declared : ∀ d ∈ r.pending, d ∈ D.decls
  bound : ∀ d ∈ r.pending, d ∈ bound
  begun : ∀ d ∈ D.decls, d.binding ∈ A → d ∈ r.pending
  fresh : ∀ d ∈ r.pending, d.binding ∉ A → Untouched r (ids [d.type])
  done : ∀ d ∈ D.decls, d ∉ r.pending → HoldsAll r.info D.isStruct? D.env (exprWord d.type)

variable {D} {bound : List Pending} {A : List Nat} {d d' : Pending} {b k : Nat}
  {r r' : Resolver} {T : List Nat}

/-! ## Nodes -/

lemma mem_typeIds (hd : d ∈ D.decls) (hk : k ∈ ids [d.type]) : k ∈ typeIds D.decls :=
  mem_flatMap.mpr ⟨d, hd, hk⟩

lemma mem_busy : k ∈ D.busy A ↔ ∃ d ∈ D.decls, d.binding ∉ A ∧ k ∈ ids [d.type] := by
  simp [busy, typeIds, and_assoc]

lemma eq_of_binding_eq (hd : d ∈ D.decls) (hd' : d' ∈ D.decls) (h : d.binding = d'.binding) :
    d = d' :=
  inj_on_of_nodup_map D.nodup_bindings hd hd' h

/-- No two declarations have a node in common. -/
lemma eq_of_mem_ids (hd : d ∈ D.decls) (hd' : d' ∈ D.decls) (hk : k ∈ ids [d.type])
    (hk' : k ∈ ids [d'.type]) : d = d' := by
  by_contra hne
  have : Std.Symm (Function.onFun List.Disjoint fun d : Pending => ids [d.type]) :=
    ⟨fun _ _ h _ hk hk' => h hk' hk⟩
  exact (nodup_flatMap.mp D.nodup_ids).2.forall hd hd' hne hk hk'

lemma busy_subset (hk : k ∈ D.busy (b :: A)) : k ∈ D.busy A := by
  obtain ⟨d, hd, hA, hk⟩ := mem_busy.mp hk
  exact mem_busy.mpr ⟨d, hd, fun h => hA (mem_cons_of_mem b h), hk⟩

/-- The nodes of an active declaration are not those of the others. -/
lemma disjoint_busy (hd : d ∈ D.decls) (hA : d.binding ∈ A) :
    (ids [d.type]).Disjoint (D.busy A) := by
  intro k hk hbusy
  obtain ⟨d', hd', hA', hk'⟩ := mem_busy.mp hbusy
  exact hA' (eq_of_mem_ids hd hd' hk hk' ▸ hA)

lemma env_disjoint_busy : D.env.ids.Disjoint (D.busy A) := by
  intro k hk hbusy
  obtain ⟨d, hd, -, hk'⟩ := mem_busy.mp hbusy
  exact D.disjoint_env (mem_typeIds hd hk') hk

/-! ## What keeps the invariant -/

/-- Complete declarations stay so while nothing is recorded about the nodes of those that are not
active. -/
lemma Underway.kept (hr : D.Underway bound A r) (h : Changes T r r')
    (hpending : r'.pending = r.pending)
    (hactive : r'.active = r.active) (hbusy : T.Disjoint (D.busy A)) (henv : T.Disjoint D.env.ids) :
    D.Underway bound A r' where
  shows := hr.shows.kept h fun _ hk hT => henv hT hk
  active := hactive.trans hr.active
  declared d hd := hr.declared d (hpending ▸ hd)
  bound d hd := hr.bound d (hpending ▸ hd)
  begun d hd hA := hpending ▸ hr.begun d hd hA
  fresh d hd hA := by
    rw [hpending] at hd
    refine (hr.fresh d hd hA).kept h fun k hk hT => ?_
    exact hbusy hT (mem_busy.mpr ⟨d, hr.declared d hd, hA, hk⟩)
  done d hd hd' := by
    rw [hpending] at hd'
    have hA : d.binding ∉ A := fun hA => hd' (hr.begun d hd hA)
    refine (hr.done d hd hd').kept h ?_ fun _ hk hT => henv hT hk
    intro e he k hk hT
    exact hbusy hT (mem_busy.mpr ⟨d, hd, hA, ids_exprWord d.type e he k hk⟩)

/-- What is done to the other declarations while some are active. -/
def background (D : Declarations) (bound : List Pending) (A : List Nat)
    (complete : Nat → Resolve Ty) (h : ∀ b r, D.Underway bound A r →
      D.Underway bound A ((complete b).run r).2 ∧ Changes (D.busy A) r ((complete b).run r).2) :
      Background where
  complete := complete
  inv := D.Underway bound A
  busy := D.busy A
  held := D.env.ids
  isStruct? := D.isStruct?
  env := {}
  completes := h
  stable _ _ _ hr hchanges hcalm := hr.kept hchanges hcalm.pending hcalm.active

/-! ## Completing one -/

/-- A pending declaration becomes active. -/
lemma Underway.activate (hr : D.Underway bound A r) (hd : d ∈ r.pending) :
    D.Underway bound (d.binding :: A) { r with active := d.binding :: r.active } where
  shows := hr.shows
  active := congrArg _ hr.active
  declared := hr.declared
  bound := hr.bound
  begun := by
    intro d' hd' hA
    rcases mem_cons.mp hA with heq | hA
    · exact eq_of_binding_eq hd' (hr.declared d hd) heq ▸ hd
    · exact hr.begun d' hd' hA
  fresh d' hd' hA := hr.fresh d' hd' fun h => hA (mem_cons_of_mem _ h)
  done := hr.done

/-- An active declaration is complete once the bindings are right for its names. -/
lemma Underway.finish (hr : D.Underway bound (d.binding :: A) r)
    (hd : d ∈ D.decls) (hA : d.binding ∉ A)
    (hholds : HoldsAll r.info D.isStruct? D.env (exprWord d.type)) :
    D.Underway bound A { r with
      active := r.active.filter (· != d.binding)
      pending := r.pending.filter (·.binding != d.binding) } where
  shows := hr.shows
  active := by
    rw [hr.active]
    simp only [filter_cons, bne_self_eq_false, Bool.false_eq_true, if_false]
    exact filter_eq_self.mpr fun c hc => bne_iff_ne.mpr fun heq => hA (heq ▸ hc)
  declared d' hd' := hr.declared d' (mem_of_mem_filter hd')
  bound d' hd' := hr.bound d' (mem_of_mem_filter hd')
  begun d' hd' hA' := by
    refine mem_filter.mpr ⟨hr.begun d' hd' (mem_cons_of_mem _ hA'), bne_iff_ne.mpr ?_⟩
    exact fun heq => hA (heq ▸ hA')
  fresh d' hd' hA' := by
    obtain ⟨hpending, hne⟩ := mem_filter.mp hd'
    refine hr.fresh d' hpending fun hmem => ?_
    rcases mem_cons.mp hmem with heq | hmem
    · exact bne_iff_ne.mp hne heq
    · exact hA' hmem
  done d' hd' hpending := by
    by_cases heq : d'.binding = d.binding
    · rw [eq_of_binding_eq hd' hd heq]
      exact hholds
    · exact hr.done d' hd' fun hmem => hpending (mem_filter.mpr ⟨hmem, bne_iff_ne.mpr heq⟩)

/-- **Completing a pending declaration**, given that completing others behaves while it is
active. -/
lemma completeDecl_step {complete : Nat → Resolve Ty}
    (hr : D.Underway bound A r) (hd : d ∈ r.pending)
    (hA : d.binding ∉ A) (h : ∀ b r, D.Underway bound (d.binding :: A) r →
      D.Underway bound (d.binding :: A) ((complete b).run r).2 ∧
        Changes (D.busy (d.binding :: A)) r ((complete b).run r).2) :
    D.Underway bound A ((completeDecl complete D.package d).run r).2 ∧
      Changes (D.busy A) r ((completeDecl complete D.package d).run r).2 := by
  have hdecl := hr.declared d hd
  have hactive := hr.activate hd
  -- The type is read while the declaration is active and the others are the background.
  have hclear : (D.background bound (d.binding :: A) complete h).Clear D.env (ids [d.type]) :=
    ⟨(nodup_flatMap.mp D.nodup_ids).1 d hdecl, disjoint_busy hdecl mem_cons_self,
      fun k hk => D.disjoint_env (mem_typeIds hdecl hk),
      fun k hk => D.disjoint_env (mem_typeIds hdecl hk), env_disjoint_busy⟩
  have hready : (D.background bound (d.binding :: A) complete h).Ready
    { r with active := d.binding :: r.active }
      (ids [d.type]) :=
    ⟨hactive, hr.fresh d hd hA, fun k hk hne => absurd (D.unforetold k (mem_typeIds hdecl hk)) hne⟩
  have hreads : Reads (D.background bound (d.binding :: A) complete h) True D.package
    (ids [d.type]) (exprWord d.type)
      (do asType d.type (← expr complete D.package none d.type)) (Showing fun _ => D.package) :=
    (readsExpr _ d.type D.package none).thenSilent (fun t => (still_asType d.type t).silent)
      fun _ _ => rfl
  obtain ⟨hstep, -⟩ := hreads.step D.env _ hclear hready hactive.shows
  have hrun := run_bind (do asType d.type (← expr complete D.package none d.type)) (settle d)
    { r with active := d.binding :: r.active }
  generalize (do asType d.type (← expr complete D.package none d.type)).run
    { r with active := d.binding :: r.active } = p at hstep hrun
  have hholds := hstep.holds trivial fun k hk _ _ => Or.inl (D.unforetold k (mem_typeIds hdecl hk))
  -- What it stands for is recorded, and it is neither active nor pending any more.
  obtain ⟨hsettle, hpending', hactive'⟩ := changes_settle d p.1 p.2
  have hsettled := hstep.inv.kept hsettle hpending' hactive' (by simp) (by simp)
  refine ⟨?_, ?_⟩
  · have hfinish := hsettled.finish hdecl hA (hholds.kept hsettle (by simp) (by simp))
    rw [← hrun] at hfinish
    exact hfinish
  · have hbegin : Changes (D.busy A) r { r with active := d.binding :: r.active } := .of_info rfl
    have hread : Changes (D.busy A) r p.2 := by
      refine hbegin.trans (hstep.changes.mono fun k hk => ?_)
      rcases mem_append.mp hk with hk | hk
      · exact mem_busy.mpr ⟨d, hdecl, hA, hk⟩
      · exact busy_subset hk
    have hlast := hread.trans (hsettle.mono (by simp))
    rw [← hrun] at hlast
    exact hlast.trans (.of_info rfl)

lemma completeDecl_pending {complete : Nat → Resolve Ty} {package : Scope} :
    ∀ d' ∈ ((completeDecl complete package d).run r).2.pending, d'.binding ≠ d.binding :=
  fun _ hd' => bne_iff_ne.mp (mem_filter.mp hd').2

/-- **Completing on demand**, however deep: active declarations stay so, and no other nodes are
touched than those of declarations that are not active. -/
lemma completeWithin_step (n : Nat) (A : List Nat) (b : Nat) (r : Resolver)
    (hr : D.Underway bound A r) :
    D.Underway bound A ((completeWithin D.package n b).run r).2 ∧
      Changes (D.busy A) r ((completeWithin D.package n b).run r).2 := by
  -- The induction is on how many declarations may still be started; with each one there is one more
  -- active.
  induction n generalizing A b r with
  | zero => exact ⟨hr, .refl _ _⟩
  | succ n ih =>
    rw [completeWithin_succ]
    cases hfind : r.pending.find? (·.binding == b) with
    | none => exact ⟨hr, .refl _ _⟩
    | some d =>
      have hb : d.binding = b := by simpa using find?_some hfind
      subst hb
      dsimp only
      split
      · exact ⟨hr, .refl _ _⟩
      · rename_i hactive
        rw [hr.active, contains_iff_mem] at hactive
        exact completeDecl_step hr (mem_of_find?_eq_some hfind) hactive (ih (d.binding :: A))

/-- A declaration that is completed while none is active is not pending any more. -/
lemma completeWithin_pending (package : Scope) (n b : Nat) (hactive : r.active = []) :
    ∀ d ∈ ((completeWithin package (n + 1) b).run r).2.pending, d.binding ≠ b := by
  rw [completeWithin_succ]
  cases hfind : r.pending.find? (·.binding == b) with
  | none =>
    intro d hd heq
    exact absurd (beq_iff_eq.mpr heq) (find?_eq_none.mp hfind d hd)
  | some d =>
    have hb : d.binding = b := by simpa using find?_some hfind
    subst hb
    rw [hactive]
    exact completeDecl_pending

/-- **After all declarations have been completed**, none is pending, and the bindings are right for
the names of all. -/
lemma completeAll_step (n : Nat) (bs : List Nat) (hr : D.Underway bound [] r)
    (hbs : ∀ d ∈ r.pending, d.binding ∈ bs)
    (hr' : r' = ((completeAll (completeWithin D.package (n + 1)) bs).run r).2) :
    Changes (typeIds D.decls) r r' ∧ r'.pending = [] ∧ r'.active = [] ∧
    Shows r'.info D.env D.package ∧
      ∀ d ∈ D.decls, HoldsAll r'.info D.isStruct? D.env (exprWord d.type) := by
  induction bs generalizing bound r with
  | nil =>
    have hnil : r.pending = [] := eq_nil_iff_forall_not_mem.mpr fun d hd => not_mem_nil (hbs d hd)
    have heq : r' = r := hr'
    subst heq
    exact ⟨.refl _ _, hnil, hr.active, hr.shows, fun d hd => hr.done d hd (by simp [hnil])⟩
  | cons b bs ih =>
    -- No declaration becomes pending again.
    have hpending : D.Underway r.pending [] r := { hr with bound := fun _ hd => hd }
    obtain ⟨hnext, hchanges⟩ := completeWithin_step (n + 1) [] b r hpending
    have hne := completeWithin_pending D.package n b hpending.active
    have hbs' : ∀ d ∈ ((completeWithin D.package (n + 1) b).run r).2.pending, d.binding ∈ bs := by
      intro d hd
      rcases mem_cons.mp (hbs d (hnext.bound d hd)) with heq | hmem
      · exact absurd heq (hne d hd)
      · exact hmem
    obtain ⟨hchanges', hrest⟩ := ih hnext hbs' hr'
    refine ⟨(hchanges.mono fun k hk => ?_).trans hchanges', hrest⟩
    obtain ⟨d, hd, -, hk⟩ := mem_busy.mp hk
    exact mem_typeIds hd hk

end Declarations

end Recast.Lexical
