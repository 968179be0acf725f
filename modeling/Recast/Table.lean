/-!
# Tables

A table holds one value for each of finitely many keys and remembers the order in which the keys
first came.  Tables of this library are small, so a list of entries serves.

* `find?` — the value of a key.
* `insert` — gives a key a value, in place if it has one already and at the end otherwise.
-/

namespace Recast

/-- Values by key, in the order in which the keys first came. -/
structure Table (κ α : Type) where
  entries : List (κ × α) := []
  deriving Repr, DecidableEq

namespace Table

variable {κ α : Type} [DecidableEq κ]

instance : Inhabited (Table κ α) := ⟨{}⟩

/-- The value of a key in a list of entries: the first one. -/
def findIn (k : κ) : List (κ × α) → Option α
  | [] => none
  | (k', v) :: es => if k' = k then some v else findIn k es

/-- Gives a key a value in a list of entries. -/
def insertIn (k : κ) (v : α) : List (κ × α) → List (κ × α)
  | [] => [(k, v)]
  | (k', v') :: es => if k' = k then (k, v) :: es else (k', v') :: insertIn k v es

/-- The value of a key. -/
def find? (t : Table κ α) (k : κ) : Option α := findIn k t.entries

/-- Gives a key a value. -/
def insert (t : Table κ α) (k : κ) (v : α) : Table κ α := ⟨insertIn k v t.entries⟩

/-- Whether a key has a value. -/
def contains (t : Table κ α) (k : κ) : Bool := (t.find? k).isSome

/-- The keys, in the order in which they first came. -/
def keys (t : Table κ α) : List κ := t.entries.map Prod.fst

/-- The number of keys. -/
def size (t : Table κ α) : Nat := t.entries.length

/-- The table with these entries; of two values for one key the later counts. -/
def ofList (es : List (κ × α)) : Table κ α := es.foldl (fun t e => t.insert e.1 e.2) {}

/-- The empty table has no values. -/
@[simp] theorem find?_empty (k : κ) : ({} : Table κ α).find? k = none := rfl

/-- A key has the value it was last given, and the others keep theirs. -/
theorem find?_insert (t : Table κ α) (k k' : κ) (v : α) :
    (t.insert k v).find? k' = if k = k' then some v else t.find? k' := by
  obtain ⟨es⟩ := t
  show findIn k' (insertIn k v es) = if k = k' then some v else findIn k' es
  induction es with
  | nil => simp [insertIn, findIn]
  | cons e es ih =>
    obtain ⟨j, w⟩ := e
    by_cases hj : j = k
    · subst hj
      simp only [insertIn, findIn, if_true]
      split <;> rfl
    · simp only [insertIn, hj, if_false, findIn, ih]
      split
      · rename_i h
        subst h
        simp [Ne.symm hj]
      · rfl

/-- A new key comes last; an old one keeps its place. -/
theorem keys_insert (t : Table κ α) (k : κ) (v : α) :
    (t.insert k v).keys = if k ∈ t.keys then t.keys else t.keys ++ [k] := by
  obtain ⟨es⟩ := t
  show (insertIn k v es).map Prod.fst
    = if k ∈ es.map Prod.fst then es.map Prod.fst else es.map Prod.fst ++ [k]
  induction es with
  | nil => simp [insertIn]
  | cons e es ih =>
    obtain ⟨j, w⟩ := e
    by_cases hj : j = k
    · simp [insertIn, hj]
    · simp only [insertIn, hj, if_false, List.map_cons, ih, List.mem_cons, Ne.symm hj, false_or]
      split <;> simp

end Table

end Recast
