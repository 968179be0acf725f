import Mathlib.Data.List.Nodup
import Recast.Table

/-!
# Joining tables

A table whose keys are all different is known by its keys, in their order, and by the value of each
(`Table.ext_of_keys`).

**Joining.**  The entries of one table are put into another, one after the other; where there is a
value already, the two are combined.  In the end a key has what its two values combine to
(`Table.find?_join`), and the new keys come behind the old ones (`Table.keys_join`).  So to join is
as associative as to combine (`Table.join_assoc`).
-/

namespace Recast.Table

open List

variable {κ α : Type} [DecidableEq κ] {f : α → α → α} {t s u : Table κ α}

/-- The keys of a table are those with a value. -/
lemma mem_keys_iff (t : Table κ α) (k : κ) : k ∈ t.keys ↔ (t.find? k).isSome = true := by
  obtain ⟨es⟩ := t
  show k ∈ es.map Prod.fst ↔ (findIn k es).isSome = true
  induction es with
  | nil => simp [findIn]
  | cons entry es ih =>
    rw [map_cons, mem_cons, ih, findIn]
    split
    · rename_i h
      simp [h]
    · rename_i h
      simp [Ne.symm h]

lemma find?_eq_none {k : κ} (h : k ∉ t.keys) : t.find? k = none := by
  rw [mem_keys_iff, Option.not_isSome_iff_eq_none] at h
  exact h

lemma nodup_keys_insert (h : t.keys.Nodup) (k : κ) (v : α) : (t.insert k v).keys.Nodup := by
  rw [keys_insert]
  split
  · exact h
  · rename_i hk
    exact h.append (nodup_singleton k) (by simpa [disjoint_singleton] using hk)

/-- The entries of a table with different keys are its values. -/
lemma find?_of_mem (h : t.keys.Nodup) {e : κ × α} (he : e ∈ t.entries) :
    t.find? e.1 = some e.2 := by
  obtain ⟨es⟩ := t
  show findIn e.1 es = some e.2
  replace h : (es.map Prod.fst).Nodup := h
  replace he : e ∈ es := he
  induction es with
  | nil => cases he
  | cons entry es ih =>
    obtain ⟨hnew, hrest⟩ := nodup_cons.mp h
    rw [findIn]
    rcases mem_cons.mp he with rfl | he
    · exact if_pos rfl
    · have hne : entry.1 ≠ e.1 := fun heq => hnew (heq ▸ mem_map_of_mem he)
      rw [if_neg hne]
      exact ih hrest he

/-- The entries are the keys with their values. -/
lemma entries_eq (h : t.keys.Nodup) :
    t.entries = t.keys.filterMap fun k => (t.find? k).map (k, ·) := by
  have hself : ∀ e ∈ t.entries, (t.find? e.1).map (e.1, ·) = some e :=
    fun e he => by rw [find?_of_mem h he]; rfl
  rw [keys, filterMap_map, Function.comp_def, filterMap_congr hself, filterMap_some]

/-- **Tables with the same keys and values** are the same, if no key comes twice. -/
lemma ext_of_keys (hnodup : t.keys.Nodup) (hkeys : t.keys = s.keys)
    (hvalues : ∀ k, t.find? k = s.find? k) : t = s := by
  have hentries : t.entries = s.entries := by
    rw [entries_eq hnodup, entries_eq (hkeys ▸ hnodup), hkeys]
    simp only [hvalues]
  obtain ⟨es⟩ := t
  exact congrArg Table.mk hentries

/-! ## Joining -/

/-- Puts a value into a table, combined with the one that is there. -/
def put (f : α → α → α) (t : Table κ α) (k : κ) (v : α) : Table κ α :=
  t.insert k ((t.find? k).elim v (f · v))

/-- A table with the entries of another put into it. -/
def join (f : α → α → α) (t s : Table κ α) : Table κ α :=
  s.entries.foldl (fun t e => t.put f e.1 e.2) t

lemma find?_put (t : Table κ α) (k k' : κ) (v : α) :
    (t.put f k v).find? k' = if k = k' then Option.merge f (t.find? k')
    (some v) else t.find? k' := by
  rw [put, find?_insert]
  split
  · rename_i h
    rw [h]
    cases t.find? k' <;> rfl
  · rfl

lemma nodup_keys_put (h : t.keys.Nodup) (k : κ) (v : α) : (t.put f k v).keys.Nodup :=
  nodup_keys_insert h k _

lemma nodup_keys_join (h : t.keys.Nodup) (s : Table κ α) : (t.join f s).keys.Nodup := by
  rw [join]
  induction s.entries generalizing t with
  | nil => exact h
  | cons e es ih => exact ih (nodup_keys_put h e.1 e.2)

/-- **The value of a key** in a joined table combines its two values. -/
lemma find?_join (t : Table κ α) (hs : s.keys.Nodup) (k : κ) :
    (t.join f s).find? k = Option.merge f (t.find? k) (s.find? k) := by
  obtain ⟨es⟩ := s
  show (es.foldl _ t).find? k = Option.merge f (t.find? k) (findIn k es)
  replace hs : (es.map Prod.fst).Nodup := hs
  induction es generalizing t with
  | nil => simp [findIn]
  | cons e es ih =>
    obtain ⟨hnew, hrest⟩ := nodup_cons.mp hs
    rw [foldl_cons, ih _ hrest, find?_put, findIn]
    split
    · rename_i h
      have hnone : findIn k es = none := find?_eq_none (t := ⟨es⟩) (h ▸ hnew)
      rw [hnone, Option.merge_none_right]
    · rfl

/-- **The keys** of a joined table: the old ones, then those that are new. -/
lemma keys_join (t : Table κ α) (hs : s.keys.Nodup) :
    (t.join f s).keys = t.keys ++ s.keys.filter fun k => k ∉ t.keys := by
  obtain ⟨es⟩ := s
  show (es.foldl _ t).keys = t.keys ++ (es.map Prod.fst).filter fun k => k ∉ t.keys
  replace hs : (es.map Prod.fst).Nodup := hs
  induction es generalizing t with
  | nil => simp
  | cons e es ih =>
    obtain ⟨hnew, hrest⟩ := nodup_cons.mp hs
    rw [foldl_cons, ih _ hrest, put, keys_insert, map_cons, filter_cons]
    by_cases hmem : e.1 ∈ t.keys
    · simp [hmem]
    · have hothers : (es.map Prod.fst).filter (fun k => k ∉ t.keys ++ [e.1]) =
          (es.map Prod.fst).filter fun k => k ∉ t.keys := by
        refine filter_congr fun k hk => ?_
        have hne : k ≠ e.1 := fun heq => hnew (heq ▸ hk)
        simp [hne]
      rw [if_neg hmem, hothers, if_pos (decide_eq_true hmem), append_assoc, singleton_append]

lemma empty_join (hs : s.keys.Nodup) : join f {} s = s := by
  have hempty : ({} : Table κ α).keys.Nodup := nodup_nil
  refine ext_of_keys (nodup_keys_join hempty s) ?_ fun k => ?_
  · rw [keys_join _ hs]
    simp [keys]
  · rw [find?_join _ hs, find?_empty, Option.merge_none_left]

/-- **Joining is associative** where combining is, for values of the kind that the tables hold. -/
lemma join_assoc {P : α → Prop} (hf : ∀ {a b c}, P a → P b → P c → f (f a b) c = f a (f b c))
    (ht : t.keys.Nodup) (hs : s.keys.Nodup) (hu : u.keys.Nodup)
    (hPt : ∀ {k v}, t.find? k = some v → P v)
    (hPs : ∀ {k v}, s.find? k = some v → P v) (hPu : ∀ {k v}, u.find? k = some v → P v) :
    (t.join f s).join f u = t.join f (s.join f u) := by
  have hsu := nodup_keys_join (f := f) hs u
  refine ext_of_keys (nodup_keys_join (nodup_keys_join ht s) u) ?_ fun k => ?_
  · rw [keys_join _ hu, keys_join _ hs, keys_join _ hsu, keys_join _ hu,
      filter_append, append_assoc, filter_filter]
    congr 2
    refine filter_congr fun k _ => ?_
    by_cases hk : k ∈ t.keys <;> simp [hk]
  · rw [find?_join _ hu, find?_join _ hs, find?_join _ hsu, find?_join _ hu]
    cases hkt : t.find? k with
    | none => simp
    | some a =>
      cases hks : s.find? k with
      | none => simp
      | some b =>
        cases hku : u.find? k with
        | none => simp
        | some c => exact congrArg some (hf (hPt hkt) (hPs hks) (hPu hku))

end Recast.Table
