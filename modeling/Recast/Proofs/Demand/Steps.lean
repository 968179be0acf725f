import Recast.Proofs.Names.Completion

/-!
# Steps that complete nothing

All that resolution does between two completions of type declarations: it records something about
nodes and adds bindings.  What type declarations are pending or active, what named types stand for
and what the bindings that exist are stays as it is.

**Nodes.**  A stretch is told by two sets of nodes: those about which anything is recorded at all,
and those whose types are recorded (`Recorded`).

The steps that change the log and the counters only are among them (`plain_of_still`).
-/

namespace Recast.Demand

open Resolve hiding bind
open Lexical

/-- What a state knows about a node. -/
structure Entry where
  type : Option Ty := none
  isType : Bool := false
  use : Option Nat := none
  own : Option Nat := none

/-- What a state knows about the node with this number. -/
def entry (r : Resolver) (k : Nat) : Entry :=
  ⟨r.info.types.find? k, r.typeNodes.contains k, r.info.uses.find? k, r.info.defs.find? k⟩

/-- **Nothing is completed between two states.**  Something is recorded about nodes in `T`, and the
types of nodes in `U`. -/
structure Recorded (T U : Nat → Prop) (r r' : Resolver) : Prop where
  same : ∀ k, ¬T k → entry r' k = entry r k
  trace : ∃ ks, r'.recorded = ks ++ r.recorded ∧ ∀ k ∈ ks, U k
  size : r.info.bindings.size ≤ r'.info.bindings.size
  binding : ∀ b < r.info.bindings.size, r'.info.binding b = r.info.binding b
  underlying : r'.info.underlying = r.info.underlying
  pending : r'.pending = r.pending
  active : r'.active = r.active
  members : r'.members = r.members
  package : r'.package = r.package

variable {T U T' U' : Nat → Prop} {r r' r'' : Resolver}

lemma Recorded.trans (h : Recorded T U r r') (h' : Recorded T U r' r'') : Recorded T U r r'' where
  same k hk := (h'.same k hk).trans (h.same k hk)
  trace := by
    obtain ⟨ks, hks, hU⟩ := h.trace
    obtain ⟨ks', hks', hU'⟩ := h'.trace
    refine ⟨ks' ++ ks, by rw [hks', hks, List.append_assoc], fun k hk => ?_⟩
    rcases List.mem_append.mp hk with hk | hk
    · exact hU' k hk
    · exact hU k hk
  size := Nat.le_trans h.size h'.size
  binding b hb := (h'.binding b (Nat.lt_of_lt_of_le hb h.size)).trans (h.binding b hb)
  underlying := h'.underlying.trans h.underlying
  pending := h'.pending.trans h.pending
  active := h'.active.trans h.active
  members := h'.members.trans h.members
  package := h'.package.trans h.package

/-! ## Plain computations -/

/-- A computation that completes nothing. -/
def Plain {α : Type} (T U : Nat → Prop) (x : Resolve α) : Prop := ∀ r, Recorded T U r (x.run r).2

variable {α β : Type} {x y : Resolve α} {f : α → Resolve β}

lemma Plain.bind (hx : Plain T U x) (hf : ∀ a, Plain T U (f a)) : Plain T U (x >>= f) :=
  fun r => (hx r).trans (hf _ _)

lemma plain_ite {c : Prop} [Decidable c] (hx : Plain T U x) (hy : Plain T U y) :
    Plain T U (if c then x else y) := by
  split
  · exact hx
  · exact hy

/-- A computation that changes nothing but the log, the counters and whether the unit is stopped. -/
lemma plain_of_quiet (h : ∀ r, ∃ n k log stop,
    (x.run r).2 = { r with unresolved := n, nextSerial := k, log := log, stopped := stop }) :
    Plain T U x := by
  intro r
  obtain ⟨n, k, log, stop, heq⟩ := h r
  rw [heq]
  exact ⟨fun _ _ => rfl, ⟨[], rfl, nofun⟩, Nat.le_refl _, fun _ _ => rfl, rfl, rfl, rfl, rfl, rfl⟩

lemma plain_of_still (h : Still x) : Plain T U x := plain_of_quiet fun r => by
  obtain ⟨n, k, log, heq⟩ := h r
  exact ⟨n, k, log, r.stopped, heq⟩

lemma plain_pure (a : α) : Plain T U (pure a : Resolve α) := plain_of_still (still_pure a)

lemma plain_arrayLength (n : Node) : Plain T U (arrayLength n) := by
  rw [arrayLength.eq_def]
  split
  · split
    · exact plain_pure _
    · exact plain_of_quiet fun _ => ⟨_, _, _, _, rfl⟩
  · exact plain_pure _

/-! ### Records -/

lemma entry_typed (m : Mark) (t : Ty) (r : Resolver) (k : Nat) :
    entry ((typed m t).run r).2 k =
      if m.id = k then { entry r k with type := some t } else entry r k := by
  show Entry.mk ((r.info.types.insert m.id t).find? k) _ _ _ = _
  rw [Table.find?_insert]
  split
  · rfl
  · rfl

lemma entry_denotesType (m : Mark) (r : Resolver) (k : Nat) :
    entry ((denotesType m).run r).2 k =
      if m.id = k then { entry r k with isType := true } else entry r k := by
  show Entry.mk _ ((m.id :: r.typeNodes).contains k) _ _ = _
  rw [List.contains_cons]
  split
  next h => rw [beq_iff_eq.mpr h.symm, Bool.true_or]; rfl
  next h => rw [beq_eq_false_iff_ne.mpr (Ne.symm h), Bool.false_or]; rfl

lemma entry_refers (i : Ident) (b : Nat) (r : Resolver) (k : Nat) :
    entry ((refers i b).run r).2 k =
      if i.mark.id = k then { entry r k with use := some b } else entry r k := by
  show Entry.mk _ _ ((r.info.uses.insert i.mark.id b).find? k) _ = _
  rw [Table.find?_insert]
  split
  · rfl
  · rfl

lemma entry_defines (i : Ident) (b : Nat) (r : Resolver) (k : Nat) :
    entry ((defines i b).run r).2 k =
      if i.mark.id = k then { entry r k with own := some b } else entry r k := by
  show Entry.mk _ _ _ ((r.info.defs.insert i.mark.id b).find? k) = _
  rw [Table.find?_insert]
  split
  · rfl
  · rfl

/-- What is known about one node of a set is recorded anew. -/
lemma same_of_update {k : Nat} {e : Nat → Entry} (hk : T k)
    (h : ∀ l, entry r' l = if k = l then e l else entry r l) :
    ∀ l, ¬T l → entry r' l = entry r l := by
  intro l hl
  have hne : k ≠ l := fun heq => hl (heq ▸ hk)
  rw [h l, if_neg hne]

lemma plain_typed {m : Mark} (hT : T m.id) (hU : U m.id) (t : Ty) :
    Plain T U (typed m t) := fun r =>
  ⟨same_of_update hT (entry_typed m t r), ⟨[m.id], rfl, by simpa using hU⟩, Nat.le_refl _,
    fun _ _ => rfl, rfl, rfl, rfl, rfl, rfl⟩

lemma plain_denotesType {m : Mark} (hT : T m.id) : Plain T U (denotesType m) := fun r =>
  ⟨same_of_update hT (entry_denotesType m r), ⟨[], rfl, nofun⟩, Nat.le_refl _, fun _ _ => rfl,
    rfl, rfl, rfl, rfl, rfl⟩

lemma plain_refers {i : Ident} (hT : T i.mark.id) (b : Nat) : Plain T U (refers i b) := fun r =>
  ⟨same_of_update hT (entry_refers i b r), ⟨[], rfl, nofun⟩, Nat.le_refl _, fun _ _ => rfl,
    rfl, rfl, rfl, rfl, rfl⟩

lemma plain_defines {i : Ident} (hT : T i.mark.id) (b : Nat) : Plain T U (defines i b) := fun r =>
  ⟨same_of_update hT (entry_defines i b r), ⟨[], rfl, nofun⟩, Nat.le_refl _, fun _ _ => rfl,
    rfl, rfl, rfl, rfl, rfl⟩

lemma plain_bind (b : Binding) : Plain T U (Resolve.bind b) := fun r =>
  ⟨fun _ _ => rfl, ⟨[], rfl, nofun⟩,
    Nat.le_of_lt (Nat.lt_of_lt_of_eq (Nat.lt_succ_self _) (size_bind b r).symm),
    fun c hc => (binding_push r.info b c).trans (if_neg (Nat.ne_of_lt hc)), rfl, rfl, rfl, rfl, rfl⟩

lemma plain_fieldType (m : Mark) (t : Ty) {name : Ident} (hT : T name.mark.id)
    (hU : U name.mark.id) :
    Plain T U (fieldType m t name) := by
  refine (plain_of_still still_underlyings).bind fun env => ?_
  cases t.member? env name.name with
  | some f => exact plain_typed hT hU _
  | none => exact plain_ite (plain_pure _) (plain_of_still (still_unresolved _ _))

lemma plain_keyType (m : Mark) (u : Ty) {key : Ident} (hT : T key.mark.id) (hU : U key.mark.id) :
    Plain T U (keyType m u key) := by
  refine (plain_of_still still_underlyings).bind fun env => ?_
  cases u.member? env key.name with
  | some f => exact plain_typed hT hU _
  | none => exact (plain_of_still (still_unresolved _ _)).bind fun _ => plain_typed hT hU _

lemma plain_memberType {m : Mark} {i name : Ident} (hm : T m.id) (hi : T i.mark.id)
    (hname : T name.mark.id) (b : Nat) :
    Plain T U (memberType m i b name) := by
  refine (plain_refers hi b).bind fun _ => (plain_of_still (still_bindingAt b)).bind fun binding =>
    (plain_of_still still_get).bind fun r => ?_
  cases (r.members.find? binding.package).bind (·.find? name.name) with
  | none => exact plain_of_still (still_unresolved _ _)
  | some member =>
    refine (plain_refers hname member).bind fun _ =>
      (plain_of_still (still_bindingAt member)).bind fun binding => ?_
    exact plain_ite ((plain_denotesType hm).bind fun _ => plain_pure _) (plain_pure _)

lemma plain_define {i : Ident} (hT : T i.mark.id) (hU : U i.mark.id) (t : Ty) (scope : Scope) :
    Plain T U (define i t scope) := by
  by_cases hi : (i.name == "_") = true
  · rw [define_blank hi]
    exact plain_pure scope
  · rw [define_eq hi]
    exact (plain_of_still still_get).bind fun r => (plain_bind _).bind fun b =>
      (plain_defines hT b).bind fun _ =>
      (plain_typed hT hU t).bind fun _ => plain_pure _

/-! ## Evaluation -/

/-- How often the type of an expression is recorded when it is evaluated once. -/
def recordings : Node → Nat
  | .funcType _ => 2
  | _ => 1

lemma plain_record {n : Node} (hT : T n.id) (hU : U n.id) (t : Ty) : Plain T U (record n t) := by
  cases n with
  | funcType type => exact (plain_typed hT hU t).bind fun t => plain_typed hT hU t
  | _ => exact plain_typed hT hU t

end Recast.Demand
