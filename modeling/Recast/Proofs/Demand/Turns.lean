import Recast.Proofs.Demand.Traversal
import Recast.Proofs.Lockstep.Completion

/-!
# Turns of completion

To complete a declaration is to make it active, to evaluate its type expression, and to conclude:
its type is recorded, the declaration stands for it, and it is neither active nor pending any more.
While the expression is evaluated others may have their turn; how is a parameter of a `turn`.

**Depth.**  `completeFrom` takes so many turns one inside the other, and whatever is given in their
place after that.

* `Concluded` — what is different when a declaration has been concluded.
* `turn_eq` — what a turn does.
-/

namespace Recast.Demand

open Resolve hiding bind
open Lexical
open Lockstep

variable {r r' : Resolver} {d : Pending} {t : Ty} {b n : Nat} {s : Scope}
  {complete : Nat → Resolve Ty}

/-! ## Concluding a declaration -/

/-- What is left to do when the type expression of an active declaration has been evaluated. -/
def conclude (d : Pending) (t : Ty) : Resolve Ty := do
  let t ← asType d.type (← record d.type t)
  settle d t
  finish d.binding
  return (← bindingAt d.binding).type

lemma completeActive_eq (complete : Nat → Resolve Ty) (s : Scope) (d : Pending) :
    completeActive complete s d = evaluate complete s none d.type >>= conclude d := by
  rw [completeActive, expr_eq, bind_assoc]
  rfl

/-- What named types stand for when a declaration stands for a type. -/
def settled (d : Pending) (t : Ty) (env : Underlying) : Ty → Underlying
  | .named n _ _ => if d.isAlias then env else env.complete n t
  | _ => env

/-- **A declaration has been concluded** between two states, and stands for a type. -/
structure Concluded (d : Pending) (t : Ty) (r r' : Resolver) : Prop where
  active : r'.active = r.active.filter (· != d.binding)
  pending : r'.pending = r.pending.filter (·.binding != d.binding)
  recorded : r'.recorded = List.replicate (recordings d.type) d.type.id ++ r.recorded
  same : ∀ k, k ≠ d.type.id → entry r' k = entry r k
  size : r'.info.bindings.size = r.info.bindings.size
  binding : ∀ b, r'.info.binding b = if d.isAlias = true ∧ d.binding = b ∧ b < r.info.bindings.size
    then { r.info.binding b with type := t } else r.info.binding b
  underlying : r'.info.underlying = settled d t r.info.underlying (r.info.binding d.binding).type
  members : r'.members = r.members
  package : r'.package = r.package

/-- To record a type changes the types and the trace. -/
lemma run_record (n : Node) (t : Ty) (r : Resolver) :
    ∃ types, (record n t).run r = (t, { r with
        info := { r.info with types := types }
        recorded := List.replicate (recordings n) n.id ++ r.recorded }) ∧
      ∀ k, k ≠ n.id → types.find? k = r.info.types.find? k := by
  have hinsert : ∀ (types : Table Nat Ty) (k : Nat), k ≠ n.id →
      (types.insert n.id t).find? k = types.find? k :=
    fun types k hk => (Table.find?_insert ..).trans (if_neg (Ne.symm hk))
  cases n with
  | funcType type => exact ⟨_, rfl, fun k hk => (hinsert _ k hk).trans (hinsert _ k hk)⟩
  | _ => exact ⟨_, rfl, hinsert _⟩

lemma run_asType (n : Node) (t : Ty) (r : Resolver) :
    ∃ log, (asType n t).run r =
      (if r.typeNodes.contains n.id then t else .invalid, { r with log := log }) := by
  show ∃ log,
    (if (r.typeNodes.contains n.id || t.isInvalid) = true then pure t else _ : Resolve Ty).run r = _
  cases hnode : r.typeNodes.contains n.id with
  | true => exact ⟨r.log, rfl⟩
  | false =>
    cases t with
    | invalid => exact ⟨r.log, rfl⟩
    | _ => exact ⟨_, rfl⟩

/-- What a declaration stands for is recorded with its binding, or with the type that it makes. -/
lemma run_settle (d : Pending) (t : Ty) (r : Resolver) : ((settle d t).run r).2 = { r with
    info := { r.info with
      bindings :=
        if d.isAlias then r.info.bindings.modify d.binding fun z =>
          { z with type := t } else r.info.bindings
      underlying := settled d t r.info.underlying (r.info.binding d.binding).type } } := by
  rw [settle]
  cases hal : d.isAlias with
  | true =>
    have hsettled : settled d t r.info.underlying (r.info.binding d.binding).type =
        r.info.underlying := by
      cases (r.info.binding d.binding).type with
      | named n name package => exact if_pos hal
      | _ => rfl
    rw [hsettled]
    rfl
  | false =>
    show ((match (r.info.binding d.binding).type with
      | .named n _ _ => _
      | _ => _ : Resolve Unit).run r).2 = _
    cases (r.info.binding d.binding).type with
    | named n name package =>
      rw [settled, if_neg (Bool.eq_false_iff.mp hal)]
      rfl
    | _ => rfl

/-- **What it is to conclude a declaration.** -/
lemma concluded (d : Pending) (t : Ty) (r : Resolver) :
    Concluded d (if r.typeNodes.contains d.type.id then t else .invalid) r
      ((conclude d t).run r).2 ∧
      ((conclude d t).run r).1 = (((conclude d t).run r).2.info.binding d.binding).type := by
  refine ⟨?_, rfl⟩
  obtain ⟨types, hrecord, htypes⟩ := run_record d.type t r
  obtain ⟨log, hasType⟩ := run_asType d.type t { r with
    info := { r.info with types := types }, recorded :=
      List.replicate (recordings d.type) d.type.id ++ r.recorded }
  have hrun : ((conclude d t).run r).2 = ((finish d.binding).run ((settle d
      ((asType d.type ((record d.type t).run r).1).run ((record d.type t).run r).2).1).run
      ((asType d.type ((record d.type t).run r).1).run ((record d.type t).run r).2).2).2).2 := rfl
  rw [hrun, hrecord, hasType, run_settle]
  refine ⟨rfl, rfl, rfl, fun k hk => ?_, ?_, fun b => ?_, rfl, rfl, rfl⟩
  · show (⟨types.find? k, r.typeNodes.contains k, r.info.uses.find? k, r.info.defs.find? k⟩ :
      Entry) = _
    rw [htypes k hk]
    rfl
  · show (if d.isAlias = true then _ else _ : Array Binding).size = _
    split
    · exact Array.size_modify
    · rfl
  · generalize (if r.typeNodes.contains d.type.id then t else .invalid) = u
    show Info.binding
      { r.info with bindings := if d.isAlias = true then _ else r.info.bindings } b = _
    cases d.isAlias with
    | true =>
      refine (binding_setType d.binding u r b).trans ?_
      simp
    | false => rfl

/-! ## Turns -/

/-- **One turn of completion**: a declaration that is pending and not active is completed, others in
the given way. -/
def turn (s : Scope) (complete : Nat → Resolve Ty) (b : Nat) : Resolve Ty := do
  let r ← get
  match r.pending.find? (·.binding == b) with
  | none => return (← bindingAt b).type
  | some d =>
    if r.active.contains b then return (← bindingAt b).type
    else
      set (activate d r)
      let t ← evaluate complete s none d.type
      conclude d t

/-- A declaration that is complete or active, or none at all, has the type that it has. -/
lemma run_turn_idle (h : r.pending.find? (·.binding == b) = none ∨ b ∈ r.active) :
    (turn s complete b).run r = ((r.info.binding b).type, r) := by
  rw [turn, StateT.run_bind, StateT.run_get, pure_bind]
  cases hfind : r.pending.find? (·.binding == b) with
  | none => rfl
  | some d =>
    have hactive : r.active.contains b = true := by simpa [hfind] using h
    dsimp only
    rw [if_pos hactive]
    rfl

lemma run_turn_active (hfind : r.pending.find? (·.binding == b) = some d) (hactive : b ∉ r.active) :
    (turn s complete b).run r =
      (evaluate complete s none d.type >>= conclude d).run (activate d r) := by
  rw [turn, StateT.run_bind, StateT.run_get, pure_bind, hfind]
  dsimp only
  rw [if_neg (by simpa using hactive)]
  rfl

/-- A declaration either has its turn or is left as it is. -/
lemma turn_cases (r : Resolver) (b : Nat) :
    (r.pending.find? (·.binding == b) = none ∨ b ∈ r.active) ∨
    ∃ d, r.pending.find? (·.binding == b) = some d ∧ d ∈ r.pending ∧
    d.binding = b ∧ b ∉ r.active := by
  by_cases hactive : b ∈ r.active
  · exact .inl (.inr hactive)
  · cases hfind : r.pending.find? (·.binding == b) with
    | none => exact .inl (.inl rfl)
    | some d =>
      exact .inr
        ⟨d, rfl, List.mem_of_find?_eq_some hfind, by simpa using List.find?_some hfind, hactive⟩

/-- Completion on demand takes turns. -/
lemma completeWithin_succ (s : Scope) (n : Nat) :
    completeWithin s (n + 1) = turn s (completeWithin s n) := by
  funext b r
  show (completeWithin s (n + 1) b).run r = (turn s (completeWithin s n) b).run r
  rcases turn_cases r b with hidle | ⟨d, hfind, -, -, hactive⟩
  · rw [completeWithin_idle s n hidle, run_turn_idle hidle]
  · rw [completeWithin_active s n hfind hactive, run_turn_active hfind hactive, completeActive_eq]

/-- Completion with so many turns one inside the other, and something else behind them. -/
def completeFrom (bottom : Nat → Resolve Ty) (s : Scope) : Nat → Nat → Resolve Ty
  | 0 => bottom
  | n + 1 => turn s (completeFrom bottom s n)

/-- What has the type that it has. -/
def typeAsIs (b : Nat) : Resolve Ty := return (← bindingAt b).type

lemma completeWithin_eq (s : Scope) (n : Nat) : completeWithin s n = completeFrom typeAsIs s n := by
  induction n with
  | zero => rfl
  | succ n ih => rw [completeWithin_succ, ih, completeFrom]

lemma completeFrom_behind (bottom : Nat → Resolve Ty) (s : Scope) (n k : Nat) :
    completeFrom bottom s (n + 1 + k) = turn s (completeFrom bottom s (n + k)) := by
  rw [Nat.add_right_comm, completeFrom]

end Recast.Demand
