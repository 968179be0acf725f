/-!
# Blocks not visited yet

A search keeps count of the blocks that it has not visited, the *fresh* ones.  They are held as one
flag for each block, so that asking for a block and visiting it take the same time however large the
graph is.

* `Fresh.all` — every block of a graph.
* `Fresh.has`, `Fresh.visit` — whether a block is fresh, and all others once it is visited.
* `Fresh.count` — how many there are; every visit makes them fewer.
-/

namespace Recast.Flow

/-- The blocks that have not been visited: the positions that hold `true`. -/
structure Fresh where
  flags : Array Bool
  deriving Repr

namespace Fresh

/-- All of so many blocks. -/
def all (n : Nat) : Fresh := ⟨Array.replicate n true⟩

/-- Whether a block is fresh. -/
def has (fresh : Fresh) (b : Nat) : Bool := fresh.flags[b]?.getD false

/-- The fresh blocks without one that is visited. -/
def visit (fresh : Fresh) (b : Nat) : Fresh := ⟨fresh.flags.setIfInBounds b false⟩

/-- The number of fresh blocks. -/
def count (fresh : Fresh) : Nat := fresh.flags.toList.count true

/-- At first all blocks that there are are fresh. -/
theorem has_all (n b : Nat) : (all n).has b = decide (b < n) := by
  rw [has, all, Array.getElem?_replicate]
  by_cases h : b < n
  · rw [if_pos h, decide_eq_true h]; rfl
  · rw [if_neg h, decide_eq_false h]; rfl

/-- A visit concerns the visited block and no other. -/
theorem has_visit (fresh : Fresh) (b c : Nat) :
    (fresh.visit b).has c = if b = c then false else fresh.has c := by
  rw [has, visit, Array.getElem?_setIfInBounds]
  by_cases h : b = c
  · rw [if_pos h, if_pos h]
    split <;> rfl
  · rw [if_neg h, if_neg h, has]

/-- A fresh block has a flag, and that is up. -/
theorem getElem?_of_has {fresh : Fresh} {b : Nat} (h : fresh.has b = true) :
    fresh.flags[b]? = some true := by
  rw [has] at h
  cases hb : fresh.flags[b]? with
  | none => rw [hb] at h; exact absurd h Bool.false_ne_true
  | some v => rw [hb] at h; exact congrArg some h

/-- A visit to a fresh block leaves fewer. -/
theorem count_visit_lt {fresh : Fresh} {b : Nat} (h : fresh.has b = true) :
    (fresh.visit b).count < fresh.count := by
  have hflag := getElem?_of_has h
  rw [← Array.getElem?_toList] at hflag
  obtain ⟨hb, hval⟩ := List.getElem?_eq_some_iff.mp hflag
  have hpos : 0 < fresh.flags.toList.count true :=
    List.count_pos_iff.mpr (hval ▸ List.getElem_mem hb)
  rw [count, count, visit, Array.toList_setIfInBounds, List.count_set hb, hval, if_pos (by decide),
    if_neg (by decide)]
  omega

end Fresh

end Recast.Flow
