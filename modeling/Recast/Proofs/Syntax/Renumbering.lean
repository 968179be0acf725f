import Recast.Proofs.Syntax.Relabeling

/-!
# Numbering a tree again

A tree that is numbered and then spelled anew has its numbers already, so to number it again changes
nothing.
-/

namespace Recast

/-- A relabeling that keeps all numbers. -/
def Relabeling.respell (spell : Ident → String) : Relabeling := ⟨fun k => k, spell⟩

open Relabeling (respell)

variable {α β : Type} (spell : Ident → String)

lemma bind_apply (x : StateM Nat α) (f : α → StateM Nat β) (a : Nat) :
    (x >>= f) a = f (x a).1 (x a).2 := rfl

lemma pure_apply (v : α) (a : Nat) : (pure v : StateM Nat α) a = (v, a) := rfl

lemma map_apply (f : α → β) (x : StateM Nat α) (a : Nat) : (f <$> x) a = (f (x a).1, (x a).2) := rfl

/-! ## Marks and identifiers -/

lemma Mark.numbered_again (m : Mark) (a : Nat) :
    ((m.numbered a).1.relabel (respell spell)).numbered a =
      ((m.numbered a).1.relabel (respell spell), (m.numbered a).2) := rfl

lemma Ident.numbered_again (i : Ident) (a : Nat) :
    ((i.numbered a).1.relabel (respell spell)).numbered a =
      ((i.numbered a).1.relabel (respell spell), (i.numbered a).2) := rfl

lemma Import.numbered_again (i : Import) (a : Nat) :
    ((i.numbered a).1.relabel (respell spell)).numbered a =
      ((i.numbered a).1.relabel (respell spell), (i.numbered a).2) := rfl

lemma Ident.numberAll_again (is : List Ident) (a : Nat) :
    Ident.numberAll ((Ident.numberAll is a).1.map (Ident.relabel (respell spell))) a =
      ((Ident.numberAll is a).1.map (Ident.relabel (respell spell)), (Ident.numberAll is a).2) := by
  induction is generalizing a with
  | nil => rfl
  | cons i is ih =>
    simp only [Ident.numberAll, bind_apply, pure_apply, List.map_cons, Ident.numbered_again, ih]

lemma Import.numberAll_again (is : List Import) (a : Nat) :
    Import.numberAll ((Import.numberAll is a).1.map (Import.relabel (respell spell))) a =
      ((Import.numberAll is a).1.map (Import.relabel (respell spell)),
        (Import.numberAll is a).2) := by
  induction is generalizing a with
  | nil => rfl
  | cons i is ih =>
    simp only [Import.numberAll, bind_apply, pure_apply, List.map_cons, Import.numbered_again, ih]

/-! ## Nodes -/

section

-- What every case below rewrites with.
attribute [local simp] Node.numbered Node.relabel Field.numbered Field.relabel FuncType.numbered
  FuncType.relabel Block.numbered
  Block.relabel Clause.numbered Clause.relabel numberNodes relabelAll numberOption relabelOption
    numberFields relabelFields numberClauses
  relabelClauses numberGuards relabelGuards numberBody relabelBody bind_apply pure_apply
    map_apply Mark.numbered_again
  Ident.numbered_again Import.numbered_again Ident.numberAll_again Import.numberAll_again

/-- Relabeled as it was numbered, something is numbered. -/
def NumberedAgain {α : Type} (number : α → StateM Nat α) (relabel : α → α) (x : α) : Prop :=
  ∀ a, number (relabel (number x a).1) a = (relabel (number x a).1, (number x a).2)

/-- **Numbered nodes that are spelled anew** are numbered. -/
lemma numberNodes_again (ns : List Node) :
    NumberedAgain numberNodes (relabelAll (respell spell)) ns := by
  apply @Node.rec_2
    (NumberedAgain Node.numbered (Node.relabel (respell spell)))
    (NumberedAgain Field.numbered (Field.relabel (respell spell)))
    (NumberedAgain FuncType.numbered (FuncType.relabel (respell spell)))
    (NumberedAgain Block.numbered (Block.relabel (respell spell)))
    (NumberedAgain Clause.numbered (Clause.relabel (respell spell)))
    (NumberedAgain numberOption (relabelOption (respell spell)))
    (NumberedAgain numberNodes (relabelAll (respell spell)))
    (NumberedAgain numberFields (relabelFields (respell spell)))
    (NumberedAgain numberClauses (relabelClauses (respell spell)))
    (NumberedAgain numberBody (relabelBody (respell spell)))
    (NumberedAgain numberGuards (relabelGuards (respell spell)))
  all_goals
    intros
    simp_all [NumberedAgain]

end

/-- **A numbered unit that is spelled anew** is numbered. -/
lemma File.numbered_relabel (f : File) :
    (f.numbered.relabel (respell spell)).numbered = f.numbered.relabel (respell spell) := by
  simp only [File.numbered, File.relabel, StateT.run, bind_apply, pure_apply,
    Mark.numbered_again, Ident.numbered_again, Import.numberAll_again, numberNodes_again spell _ _]

end Recast
