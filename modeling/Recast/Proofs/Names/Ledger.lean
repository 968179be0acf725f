import Recast.Proofs.Names.Scoping
import Recast.Proofs.Tables

/-!
# The ledger of resolution

What a stretch of resolution writes down is listed: the nodes whose types it records, and the
identifiers that it declares or refers (`Entries`).

**Accounts.**  Every entry is paid for, with the nodes that the stretch is given, or with the nodes
of a type declaration that is completed on the way and was not begun before: what has not been begun
is still owed (`owed`).  Nothing else pays, so that in the end no node has been recorded more often
than it occurs in the unit.

**Needs.**  Expressions and types that are no plain identifiers need a type (`needed`).  A stretch
has recorded those that it was given, and those of the declarations that are complete behind it.

* `Spends` — a computation keeps both.
* `Spends.bind` — one after the other.
-/

namespace Recast.Ledger

open List
open Resolve hiding bind
open Lexical Regular

/-! ## Entries -/

/-- What a stretch of resolution writes down. -/
structure Entries where
  types : List Nat := []
  defs : List Nat := []
  uses : List Nat := []

/-- The entries of two stretches, the later ones first. -/
def Entries.before (e e' : Entries) : Entries :=
  ⟨e'.types ++ e.types, e'.defs ++ e.defs, e'.uses ++ e.uses⟩

/-- **The types are what was recorded**: no other node has one, and if none was recorded twice they
are in that order. -/
structure Faithful (r : Resolver) : Prop where
  mem : ∀ k, k ∈ r.recorded ↔ (r.info.types.find? k).isSome = true
  keys : r.recorded.Nodup → r.info.types.keys = r.recorded.reverse

/-- These entries are made between two states. -/
structure Writes (e : Entries) (r r' : Resolver) : Prop where
  recorded : r'.recorded = e.types ++ r.recorded
  faithful : Faithful r → Faithful r'
  defs : ∀ k, k ∉ e.defs → r'.info.defs.find? k = r.info.defs.find? k
  uses : ∀ k, k ∉ e.uses → r'.info.uses.find? k = r.info.uses.find? k

variable {e e' : Entries} {r r' r'' : Resolver}

lemma Writes.trans (h : Writes e r r') (h' : Writes e' r' r'') : Writes (e.before e') r r'' where
  recorded := by rw [h'.recorded, h.recorded, ← append_assoc, Entries.before]
  faithful hr := h'.faithful (h.faithful hr)
  defs k hk := by
    rw [Entries.before, mem_append, not_or] at hk
    rw [h'.defs k hk.1, h.defs k hk.2]
  uses k hk := by
    rw [Entries.before, mem_append, not_or] at hk
    rw [h'.uses k hk.1, h.uses k hk.2]

/-- No entry at all. -/
lemma writes_nothing (hrecorded : r'.recorded = r.recorded) (htypes : r'.info.types = r.info.types)
    (hdefs : r'.info.defs = r.info.defs) (huses : r'.info.uses = r.info.uses) : Writes {} r r' where
  recorded := hrecorded
  faithful hr := ⟨by rw [hrecorded, htypes]; exact hr.mem, by rw [hrecorded, htypes]; exact hr.keys⟩
  defs _ _ := by rw [hdefs]
  uses _ _ := by rw [huses]

lemma writes_typed (m : Mark) (t : Ty) (r : Resolver) :
    Writes { types := [m.id] } r ((typed m t).run r).2 where
  recorded := rfl
  faithful hr := by
    refine ⟨fun k => ?_, fun hnodup => ?_⟩
    · show k ∈ m.id :: r.recorded ↔ ((r.info.types.insert m.id t).find? k).isSome = true
      rw [Table.find?_insert, mem_cons, hr.mem]
      split
      · rename_i h
        simp [h]
      · rename_i h
        simp [Ne.symm h]
    · obtain ⟨hnew, hnodup⟩ := nodup_cons.mp hnodup
      show (r.info.types.insert m.id t).keys = (m.id :: r.recorded).reverse
      rw [Table.keys_insert, if_neg fun hmem =>
        hnew ((hr.mem _).mpr ((Table.mem_keys_iff _ _).mp hmem)), hr.keys hnodup, reverse_cons]
  defs _ _ := rfl
  uses _ _ := rfl

lemma writes_refers (i : Ident) (b : Nat) (r : Resolver) :
    Writes { uses := [i.mark.id] } r ((refers i b).run r).2 where
  recorded := rfl
  faithful hr := ⟨hr.mem, hr.keys⟩
  defs _ _ := rfl
  uses k hk := by
    show (r.info.uses.insert i.mark.id b).find? k = _
    rw [Table.find?_insert, if_neg (Ne.symm (ne_of_not_mem_cons hk))]

lemma writes_defines (i : Ident) (b : Nat) (r : Resolver) :
    Writes { defs := [i.mark.id] } r ((defines i b).run r).2 where
  recorded := rfl
  faithful hr := ⟨hr.mem, hr.keys⟩
  defs k hk := by
    show (r.info.defs.insert i.mark.id b).find? k = _
    rw [Table.find?_insert, if_neg (Ne.symm (ne_of_not_mem_cons hk))]
  uses _ _ := rfl

/-! ## Accounts -/

/-- The numbers of the nodes of type declarations that have not been begun. -/
def owed (r : Resolver) : List Nat :=
  typeIds (r.pending.filter fun d => !r.active.contains d.binding)

/-- **What pays for the entries** between two states: the given names and nodes, and what was
owed. -/
structure Settles (N T X : List Nat) (e : Entries) (r r' : Resolver) : Prop where
  writes : Writes e r r'
  names : ∀ k, (e.defs ++ e.uses).count k + (owed r').count k ≤ N.count k + (owed r).count k
  types : ∀ k, e.types.count k + (owed r').count k ≤ T.count k + (owed r).count k
  covered : ∀ k ∈ X, k ∈ e.types
  completed : ∀ d ∈ r.pending, d ∉ r'.pending → ∀ k ∈ needed [d.type], k ∈ e.types
  pending : r'.pending.Sublist r.pending
  active : r'.active = r.active
  stopped : r'.stopped = r.stopped

/-- The declarations that are to be completed have different bindings and regular types. -/
structure Orderly (r : Resolver) : Prop where
  nodup : (r.pending.map Pending.binding).Nodup
  operand : ∀ d ∈ r.pending, Operand d.type

/-- **A computation spends** some names and nodes, and records the types that are needed. -/
def Spends {α : Type} (N T X : List Nat) (x : Resolve α) : Prop :=
  ∀ r, Orderly r → ∃ e, Settles N T X e r (x.run r).2

variable {α β : Type} {N M T U X Y : List Nat} {x y : Resolve α} {f : α → Resolve β}

lemma Orderly.sublist (h : Orderly r) (hsub : r'.pending.Sublist r.pending) : Orderly r' where
  nodup := h.nodup.sublist (hsub.map _)
  operand d hd := h.operand d (hsub.subset hd)

lemma Settles.trans (h : Settles N T X e r r') (h' : Settles M U Y e' r' r'') :
    Settles (N ++ M) (T ++ U) (X ++ Y) (e.before e') r r'' where
  writes := h.writes.trans h'.writes
  names k := by
    have h₁ := h.names k
    have h₂ := h'.names k
    simp only [Entries.before, count_append] at h₁ h₂ ⊢
    omega
  types k := by
    have h₁ := h.types k
    have h₂ := h'.types k
    simp only [Entries.before, count_append] at h₁ h₂ ⊢
    omega
  covered k hk := by
    rcases mem_append.mp hk with hk | hk
    · exact mem_append_right _ (h.covered k hk)
    · exact mem_append_left _ (h'.covered k hk)
  completed d hd hd'' k hk := by
    by_cases hd' : d ∈ r'.pending
    · exact mem_append_left _ (h'.completed d hd' hd'' k hk)
    · exact mem_append_right _ (h.completed d hd hd' k hk)
  pending := h'.pending.trans h.pending
  active := h'.active.trans h.active
  stopped := h'.stopped.trans h.stopped

/-- One computation after the other, of which only what the first can give matters. -/
lemma Spends.bindRun (hx : Spends N T X x) (hf : ∀ r, Spends M U Y (f (x.run r).1)) :
    Spends (N ++ M) (T ++ U) (X ++ Y) (x >>= f) := by
  intro r hr
  obtain ⟨e, he⟩ := hx r hr
  obtain ⟨e', he'⟩ := hf r (x.run r).2 (hr.sublist he.pending)
  exact ⟨e.before e', he.trans he'⟩

/-- One computation after the other. -/
lemma Spends.bind (hx : Spends N T X x) (hf : ∀ a, Spends M U Y (f a)) :
    Spends (N ++ M) (T ++ U) (X ++ Y) (x >>= f) :=
  hx.bindRun fun _ => hf _

/-- More may be given than is spent, and less asked for than is recorded. -/
lemma Spends.mono (hx : Spends N T X x) (hN : ∀ k, N.count k ≤ M.count k)
    (hT : ∀ k, T.count k ≤ U.count k) (hX : ∀ k ∈ Y, k ∈ X) : Spends M U Y x := by
  intro r hr
  obtain ⟨e, he⟩ := hx r hr
  exact ⟨e, { he with
    names := fun k => Nat.le_trans (he.names k) (Nat.add_le_add_right (hN k) _)
    types := fun k => Nat.le_trans (he.types k) (Nat.add_le_add_right (hT k) _)
    covered := fun k hk => he.covered k (hX k hk) }⟩

/-- What is recorded need not be asked for. -/
lemma Spends.forget (hx : Spends N T X x) : Spends N T [] x :=
  hx.mono (fun _ => Nat.le_refl _) (fun _ => Nat.le_refl _) nofun

/-- A computation that makes certain entries and leaves type declarations alone. -/
lemma spends_of_writes (e : Entries) (hwrites : ∀ r, Writes e r (x.run r).2)
    (hpending : ∀ r, (x.run r).2.pending = r.pending) (hactive : ∀ r, (x.run r).2.active = r.active)
    (hstopped : ∀ r, (x.run r).2.stopped = r.stopped) :
    Spends (e.defs ++ e.uses) e.types e.types x := by
  intro r _
  have howed : owed (x.run r).2 = owed r := by rw [owed, owed, hpending, hactive]
  exact ⟨e, {
    writes := hwrites r
    names := fun _ => Nat.le_of_eq (by rw [howed])
    types := fun _ => Nat.le_of_eq (by rw [howed])
    covered := fun _ hk => hk
    completed := fun d hd hd' => absurd (hpending r ▸ hd) hd'
    pending := by rw [hpending]
    active := hactive r
    stopped := hstopped r }⟩

/-! ## Single steps -/

lemma spends_silent (hx : Silent x) : Spends [] [] [] x :=
  spends_of_writes {}
    (fun r => writes_nothing (hx.recorded r) (by rw [hx.info]) (by rw [hx.info]) (by rw [hx.info]))
    hx.pending hx.active hx.stopped

lemma Spends.afterSilent (hx : Silent x) (hf : ∀ a, Spends N T X (f a)) : Spends N T X (x >>= f) :=
  (spends_silent hx).bind hf

lemma Spends.thenSilent (hx : Spends N T X x) (hf : ∀ a, Silent (f a)) :
    Spends N T X (x >>= f) := by
  have h := hx.bind fun a => spends_silent (hf a)
  rwa [append_nil, append_nil, append_nil] at h

lemma spends_ite {c : Prop} [Decidable c] (hx : Spends N T X x) (hy : Spends N T X y) :
    Spends N T X (if c then x else y) := by
  split
  · exact hx
  · exact hy

lemma spends_nothing (hx : Silent x) : Spends N T [] x :=
  (spends_silent hx).mono (fun _ => Nat.zero_le _) (fun _ => Nat.zero_le _) fun _ hk => hk

lemma spends_typed (m : Mark) (t : Ty) : Spends [] [m.id] [m.id] (typed m t) :=
  spends_of_writes { types := [m.id] } (writes_typed m t) (fun _ => rfl) (fun _ => rfl) fun _ => rfl

lemma spends_refers (i : Ident) (b : Nat) : Spends [i.mark.id] [] [] (refers i b) :=
  spends_of_writes { uses := [i.mark.id] } (writes_refers i b) (fun _ => rfl)
    (fun _ => rfl) fun _ => rfl

lemma spends_defines (i : Ident) (b : Nat) : Spends [i.mark.id] [] [] (defines i b) :=
  spends_of_writes { defs := [i.mark.id] } (writes_defines i b) (fun _ => rfl)
    (fun _ => rfl) fun _ => rfl

lemma spends_bind (b : Binding) : Spends [] [] [] (Resolve.bind b) :=
  spends_of_writes {} (fun _ => writes_nothing rfl rfl rfl rfl) (fun _ => rfl)
    (fun _ => rfl) fun _ => rfl

lemma spends_setType (b : Nat) (t : Ty) : Spends [] [] [] (setType b t) :=
  spends_of_writes {} (fun _ => writes_nothing rfl rfl rfl rfl) (fun _ => rfl)
    (fun _ => rfl) fun _ => rfl

/-- To record the type of a node, whose name may be recorded as well. -/
lemma spends_node (m : Mark) (t : Ty) : Spends [m.id] [m.id] [m.id] (typed m t) :=
  (spends_typed m t).mono (fun _ => Nat.zero_le _) (fun _ => Nat.le_refl _) fun _ hk => hk

/-! ## Identifiers -/

section Identifiers

variable {complete : Nat → Resolve Ty} (hcomplete : ∀ b, Spends [] [] [] (complete b))

lemma spends_define (i : Ident) (t : Ty) (scope : Scope) :
    Spends [i.mark.id] [i.mark.id] [] (define i t scope) := by
  by_cases hi : (i.name == "_") = true
  · rw [define_blank hi]
    exact spends_nothing (silent_pure scope)
  · rw [define_eq hi]
    exact Spends.forget (X := [i.mark.id])
      (.afterSilent still_get.silent fun r => (spends_bind _).bind fun b =>
      (spends_defines i b).bind fun _ => (spends_typed i.mark t).thenSilent fun _ => silent_pure _)

lemma spends_defineOrReuse (i : Ident) (t : Ty) (scope : Scope) :
    Spends [i.mark.id] [i.mark.id] [] (defineOrReuse i t scope) := by
  rw [defineOrReuse.eq_def]
  cases scope.lookupHere i.name with
  | none => exact spends_define i t.defaulted scope
  | some b =>
    exact Spends.forget (X := [i.mark.id])
      ((spends_refers i b).bind fun _ => .afterSilent (still_bindingAt b).silent fun x =>
      (spends_typed i.mark x.type).thenSilent fun _ => silent_pure scope)

include hcomplete in
lemma spends_identType (scope : Scope) (i : Ident) :
    Spends [i.mark.id] [] [] (identType complete scope i) := by
  rw [identType.eq_def]
  refine spends_ite (spends_nothing (silent_pure _)) ?_
  cases scope.lookup i.name with
  | none => exact spends_nothing (still_unresolved _ _).silent
  | some b =>
    refine (spends_refers i b).bind fun _ => .afterSilent
      (still_bindingAt b).silent fun binding => ?_
    cases binding.kind with
    | type => exact .afterSilent (silent_denotesType _) fun _ => hcomplete b
    | _ => exact spends_silent (silent_pure _)

lemma spends_memberType (m : Mark) (i : Ident) (b : Nat) (name : Ident) :
    Spends [i.mark.id, name.mark.id] [] [] (memberType m i b name) := by
  refine (spends_refers i b).bind fun _ => .afterSilent (still_bindingAt b).silent fun binding =>
    .afterSilent still_get.silent fun r => ?_
  cases (r.members.find? binding.package).bind (·.find? name.name) with
  | none => exact spends_nothing (still_unresolved _ _).silent
  | some member =>
    refine (spends_refers name member).thenSilent fun _ =>
      (still_bindingAt member).silent.bind fun binding => ?_
    exact silent_ite ((silent_denotesType m).bind fun _ => silent_pure _) (silent_pure _)

lemma spends_fieldType (m : Mark) (t : Ty) (name : Ident) :
    Spends [name.mark.id] [name.mark.id] [] (fieldType m t name) := by
  refine .afterSilent still_underlyings.silent fun env => ?_
  cases t.member? env name.name with
  | some f => exact (spends_node name.mark _).forget
  | none => exact spends_nothing (silent_ite (silent_pure _) (still_unresolved _ _).silent)

lemma spends_keyType (m : Mark) (u : Ty) (key : Ident) :
    Spends [key.mark.id] [key.mark.id] [] (keyType m u key) := by
  have h : ∀ t, Spends [key.mark.id] [key.mark.id] [] (typed key.mark t) := fun t =>
    (spends_node key.mark t).forget
  refine .afterSilent still_underlyings.silent fun env => ?_
  cases u.member? env key.name with
  | some f => exact h _
  | none => exact .afterSilent (still_unresolved _ _).silent fun _ => h _

end Identifiers

/-! ## Whole nodes -/

/-- A computation spends the nodes of some trees, and records the types that they need. -/
def SpendsOn {α : Type} (ns : List Node) (x : Resolve α) : Prop :=
  Spends (ids ns) (ids ns) (needed ns) x

lemma Spends.on {ns : List Node} (h : Spends T T X x) (hT : ∀ k, T.count k ≤ (ids ns).count k)
    (hX : ∀ k ∈ needed ns, k ∈ X) : SpendsOn ns x := h.mono hT hT hX

end Recast.Ledger
