import Recast.Proofs.Syntax.Relabeling

/-!
# Numbering from another number on

Trees that are numbered from two different numbers on differ in these numbers only: the second tree
is the first one, relabeled.  The rule for one step after another is `Shifts.bind`; with it every
kind of node is a line.
-/

namespace Recast

/-- A relabeling that keeps all spellings. -/
def Relabeling.renumber (σ : Nat → Nat) : Relabeling := ⟨σ, Ident.name⟩

/-- **Two numberings**, the second one from another number on: what they give differs by a change of
numbers, as long as that says for the numbers the first one takes which ones the second one
takes. -/
structure Shifts (σ : Nat → Nat) {α : Type} (x x' : StateM Nat α) (f : α → α) : Prop where
  le : ∀ a, a ≤ (x a).2
  shift : ∀ a a', (∀ k, a ≤ k → k < (x a).2 → σ k = a' + (k - a)) →
    (x' a').1 = f (x a).1 ∧ (x' a').2 = a' + ((x a).2 - a)

variable {σ : Nat → Nat} {α β : Type}

lemma shifts_pure {a : α} {f : α → α} {a' : α} (h : a' = f a) : Shifts σ (pure a) (pure a') f := by
  refine ⟨fun _ => Nat.le_refl _, fun k k' _ => ⟨h, ?_⟩⟩
  show k' = k' + (k - k)
  omega

lemma Shifts.bind {x x' : StateM Nat α} {g g' : α → StateM Nat β} {f : α → α} {h : β → β}
    (hx : Shifts σ x x' f)
    (hg : ∀ u, Shifts σ (g u) (g' (f u)) h) : Shifts σ (x >>= g) (x' >>= g') h where
  le a := Nat.le_trans (hx.le a) ((hg _).le _)
  shift a a' hσ := by
    have hle := hx.le a
    have hle' := (hg (x a).1).le (x a).2
    change ∀ k, a ≤ k → k < (g (x a).1 (x a).2).2 → _ at hσ
    obtain ⟨hval, hnext⟩ := hx.shift a a' fun k hk hk' => hσ k hk (Nat.lt_of_lt_of_le hk' hle')
    obtain ⟨hval', hnext'⟩ := (hg (x a).1).shift (x a).2 (x' a').2 fun k hk hk' => by
      rw [hσ k (Nat.le_trans hle hk) hk', hnext]
      omega
    show (g' (x' a').1 (x' a').2).1 = h (g (x a).1 (x a).2).1 ∧
      (g' (x' a').1 (x' a').2).2 = a' + ((g (x a).1 (x a).2).2 - a)
    rw [hval] at *
    refine ⟨hval', ?_⟩
    rw [hnext', hnext]
    omega

/-! ## Marks and identifiers -/

open Relabeling (renumber)

lemma Mark.shifts (m : Mark) : Shifts σ m.numbered m.numbered (Mark.relabel (renumber σ)) := by
  refine ⟨fun a => Nat.le_succ a, fun a a' hσ => ⟨?_, ?_⟩⟩
  · have h := hσ a (Nat.le_refl a) (Nat.lt_succ_self a)
    show (⟨a', m.loc⟩ : Mark) = ⟨σ a, m.loc⟩
    rw [h, Nat.sub_self, Nat.add_zero]
  · show a' + 1 = a' + (a + 1 - a)
    omega

lemma Ident.shifts (i : Ident) : Shifts σ i.numbered i.numbered (Ident.relabel (renumber σ)) :=
  i.mark.shifts.bind fun _ => shifts_pure rfl

lemma Import.shifts (i : Import) : Shifts σ i.numbered i.numbered (Import.relabel (renumber σ)) :=
  i.mark.shifts.bind fun _ => shifts_pure rfl

lemma Ident.shiftsAll (is : List Ident) :
    Shifts σ (Ident.numberAll is) (Ident.numberAll is) (List.map (Ident.relabel (renumber σ))) := by
  induction is with
  | nil => exact shifts_pure rfl
  | cons i is ih => exact i.shifts.bind fun _ => ih.bind fun _ => shifts_pure rfl

lemma Import.shiftsAll (is : List Import) :
    Shifts σ (Import.numberAll is) (Import.numberAll is)
      (List.map (Import.relabel (renumber σ))) := by
  induction is with
  | nil => exact shifts_pure rfl
  | cons i is ih => exact i.shifts.bind fun _ => ih.bind fun _ => shifts_pure rfl

/-! ## Nodes -/

/-- **A node numbered from another number on** is the relabeled node. -/
theorem Node.shifts (n : Node) : Shifts σ n.numbered n.numbered (Node.relabel (renumber σ)) := by
  apply @Node.rec (fun n => Shifts σ n.numbered n.numbered (Node.relabel (renumber σ)))
    (fun f => Shifts σ f.numbered f.numbered (Field.relabel (renumber σ)))
    (fun t => Shifts σ t.numbered t.numbered (FuncType.relabel (renumber σ)))
    (fun b => Shifts σ b.numbered b.numbered (Block.relabel (renumber σ)))
    (fun c => Shifts σ c.numbered c.numbered (Clause.relabel (renumber σ)))
    (fun n => Shifts σ (numberOption n) (numberOption n) (relabelOption (renumber σ)))
    (fun ns => Shifts σ (numberNodes ns) (numberNodes ns) (relabelAll (renumber σ)))
    (fun fs => Shifts σ (numberFields fs) (numberFields fs) (relabelFields (renumber σ)))
    (fun cs => Shifts σ (numberClauses cs) (numberClauses cs) (relabelClauses (renumber σ)))
    (fun b => Shifts σ (numberBody b) (numberBody b) (relabelBody (renumber σ)))
    (fun ns => Shifts σ (numberGuards ns) (numberGuards ns) (relabelGuards (renumber σ)))
  all_goals
    intros
    repeat
      first
      | exact shifts_pure rfl
      | refine (Mark.shifts _).bind fun _ => ?_
      | refine (Ident.shifts _).bind fun _ => ?_
      | refine (Import.shifts _).bind fun _ => ?_
      | refine (Ident.shiftsAll _).bind fun _ => ?_
      | refine (Import.shiftsAll _).bind fun _ => ?_
      | refine Shifts.bind (by assumption) fun _ => ?_

lemma shiftsAll (ns : List Node) :
    Shifts σ (numberNodes ns) (numberNodes ns) (relabelAll (renumber σ)) := by
  induction ns with
  | nil => exact shifts_pure rfl
  | cons n ns ih => exact n.shifts.bind fun _ => ih.bind fun _ => shifts_pure rfl

lemma FuncType.shifts (t : FuncType) :
    Shifts σ t.numbered t.numbered (FuncType.relabel (renumber σ)) :=
  have h := (Node.funcType t).shifts
  ⟨h.le, fun a a' hσ => (h.shift a a' hσ).imp_left Node.funcType.inj⟩

end Recast
