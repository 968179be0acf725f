import Mathlib.Algebra.Group.Nat.Defs
import Mathlib.Data.List.TakeWhile
import Recast.Proofs.Form.Joining

/-!
# Whole numbers that can be read again

A whole number of a description is kept in the tree as it is written out, and read again where it is
the length of an array.  That never fails.

**Limits.**  A numeral has at most `digitLimit` digits, and each of them is less than ten, whatever
its script, so that what is read is less than a power of ten (`natAbs_lt_of_readInteger`).  A number
below that power is written with no more digits than that, all of them ordinary ones, and is read
again (`readInteger_toString`).

**Forms.**  All whole numbers in a description are below the limit, wherever they stand
(`Form.legible_of_read`).
-/

namespace Recast.Numeral

open List

variable {c : Char} {cs rest : List Char} {d : Nat} {ds : List Nat}

/-! ## What is read is below the limit -/

lemma digit?_lt (h : Text.digit? c = some d) : d < 10 := by
  obtain ⟨z, hz, rfl⟩ := Option.map_eq_some_iff.mp h
  have hrange := find?_some hz
  simp only [Bool.and_eq_true, decide_eq_true_eq] at hrange
  omega

lemma grouped_lt (h : grouped cs = some ds) : ∀ d ∈ ds, d < 10 := by
  fun_induction grouped cs generalizing ds with
  | case1 => cases h
  | case2 c =>
    obtain ⟨d, hd, rfl⟩ := Option.map_eq_some_iff.mp h
    simpa using digit?_lt hd
  | case3 c rest ih | case4 c rest _ _ ih =>
    obtain ⟨d, hd, h⟩ := Option.bind_eq_some_iff.mp h
    obtain ⟨ds', hds', h⟩ := Option.bind_eq_some_iff.mp h
    cases h
    exact forall_mem_cons.mpr ⟨digit?_lt hd, ih hds'⟩

lemma run?_lt (h : run? cs = some (ds, rest)) : ∀ d ∈ ds, d < 10 := by
  rw [run?] at h
  split at h
  · cases h
    exact nofun
  · obtain ⟨ds', hds', h⟩ := Option.map_eq_some_iff.mp h
    cases h
    exact grouped_lt hds'

lemma value_lt (h : ∀ d ∈ ds, d < 10) : value ds < 10 ^ ds.length := by
  have hfold : ∀ (ds : List Nat) (n : Nat), (∀ d ∈ ds, d < 10) →
      ds.foldl (fun n d => 10 * n + d) n < (n + 1) * 10 ^ ds.length := by
    intro ds
    induction ds with
    | nil => simp
    | cons d ds ih =>
      intro n hds
      obtain ⟨hd, hds⟩ := forall_mem_cons.mp hds
      refine Nat.lt_of_lt_of_le (ih (10 * n + d) hds) ?_
      rw [length_cons, Nat.pow_succ', ← Nat.mul_assoc]
      exact Nat.mul_le_mul_right _ (by omega)
  have hvalue := hfold ds 0 h
  rw [Nat.zero_add, Nat.one_mul] at hvalue
  exact hvalue

/-- **What is read is below the limit.** -/
lemma natAbs_lt_of_readInteger {s : String} {v : Int} (h : readInteger s = .ok v) :
    v.natAbs < 10 ^ digitLimit := by
  rw [readInteger] at h
  generalize signed (Text.stripBoth Text.isPadding s.toList) = p at h
  obtain ⟨negative, body⟩ := p
  dsimp only at h
  split at h
  · cases h
  · rename_i digits rest hrun
    split at h
    · cases h
    · rename_i hlimit
      split at h
      · cases h
      · have hvalue : value digits < 10 ^ digitLimit :=
          Nat.lt_of_lt_of_le (value_lt (run?_lt hrun))
            (Nat.pow_le_pow_right (by decide) (Nat.le_of_not_lt hlimit))
        cases negative with
        | _ =>
          cases h
          simpa using hvalue

/-! ## What is below the limit is read again -/

lemma isDigit_iff : c.isDigit = true ↔ 48 ≤ c.toNat ∧ c.toNat ≤ 57 := by
  simp only [Char.isDigit, Bool.and_eq_true, decide_eq_true_eq, ge_iff_le, UInt32.le_iff_toNat_le]
  rfl

lemma digit?_isDigit (h : c.isDigit = true) : Text.digit? c = some (c.toNat - '0'.toNat) := by
  have hrange := isDigit_iff.mp h
  rw [Text.digit?, Text.zeroDigits, find?_cons_of_pos (by simp; omega)]
  rfl

lemma isPadding_isDigit (h : c.isDigit = true) : Text.isPadding c = false := by
  have hrange := isDigit_iff.mp h
  simp [Text.isPadding, Text.isSpace]
  omega

lemma stripBoth_eq_self {p : Char → Bool} (h : ∀ c ∈ cs, p c = false) :
    Text.stripBoth p cs = cs := by
  have hself : ∀ cs : List Char, (∀ c ∈ cs, p c = false) → cs.dropWhile p = cs := by
    intro cs hcs
    cases cs with
    | nil => rfl
    | cons c cs => rw [dropWhile_cons, hcs c mem_cons_self, if_neg Bool.false_ne_true]
  rw [Text.stripBoth, hself cs h, hself cs.reverse fun c hc => h c (mem_reverse.mp hc),
    reverse_reverse]

/-- Ordinary digits stand for themselves. -/
lemma grouped_digits (h : ∀ c ∈ cs, c.isDigit = true) (hne : cs ≠ []) :
    grouped cs = some (cs.map fun c => c.toNat - '0'.toNat) := by
  fun_induction grouped cs with
  | case1 => exact absurd rfl hne
  | case2 c =>
    rw [digit?_isDigit (h c mem_cons_self)]
    rfl
  | case3 c rest => exact absurd (h '_' (by simp)) (by decide)
  | case4 c rest hsingle _ ih =>
    obtain ⟨hc, hrest⟩ := forall_mem_cons.mp h
    rw [digit?_isDigit hc, ih hrest hsingle]
    rfl

lemma run?_digits (h : ∀ c ∈ cs, c.isDigit = true) (hne : cs ≠ []) :
    run? cs = some (cs.map fun c => c.toNat - '0'.toNat, []) := by
  have hrun : ∀ c ∈ cs, ((Text.digit? c).isSome || c == '_') = true := by
    intro c hc
    rw [digit?_isDigit (h c hc)]
    rfl
  rw [run?, takeWhile_eq_self_iff.mpr hrun, dropWhile_eq_nil_iff.mpr hrun]
  split
  · exact absurd rfl hne
  · rw [grouped_digits h hne]
    rfl

lemma signed_digits (h : ∀ c ∈ cs, c.isDigit = true) : signed cs = (false, cs) := by
  rw [signed.eq_def]
  split
  · exact absurd (h '-' mem_cons_self) (by decide)
  · exact absurd (h '+' mem_cons_self) (by decide)
  · rfl

lemma isDigit_of_mem {n : Nat} (h : c ∈ Nat.toDigits 10 n) : c.isDigit = true :=
  Nat.isDigit_of_mem_toDigits (by decide) (by decide) h

lemma toList_toString (v : Int) :
    (toString v).toList = (if v < 0 then ['-'] else []) ++ Nat.toDigits 10 v.natAbs := by
  cases v with
  | ofNat n => exact Nat.toList_repr
  | negSucc n =>
    show ("-" ++ (n + 1).repr).toList = _
    rw [String.toList_append, Nat.toList_repr, if_pos (Int.negSucc_lt_zero n)]
    rfl

/-- A sign and the digits of a number below the limit. -/
lemma readInteger_of_digits {s : String} {n : Nat} (negative : Bool) (hn : n < 10 ^ digitLimit)
    (hsigned : signed (Text.stripBoth Text.isPadding s.toList) = (negative, Nat.toDigits 10 n)) :
    readInteger s = .ok (if negative then -(n : Int) else n) := by
  have hlength : (Nat.toDigits 10 n).length ≤ digitLimit :=
    (Nat.length_toDigits_le_iff (by decide) (by decide)).mpr hn
  have hvalue : value ((Nat.toDigits 10 n).map fun c => c.toNat - '0'.toNat) = n := by
    rw [value, foldl_map]
    exact Nat.ofDigitChars_toDigits (by decide) (by decide)
  rw [readInteger, hsigned]
  dsimp only
  rw [run?_digits (fun c hc => isDigit_of_mem hc) Nat.toDigits_ne_nil]
  dsimp only
  rw [if_neg (by rw [length_map]; omega), isEmpty_map,
    isEmpty_eq_false_iff.mpr Nat.toDigits_ne_nil, hvalue]
  rfl

/-- **What is below the limit is read again.** -/
lemma readInteger_toString {v : Int} (h : v.natAbs < 10 ^ digitLimit) :
    readInteger (toString v) = .ok v := by
  have hlist := toList_toString v
  have hpadding : ∀ c ∈ Nat.toDigits 10 v.natAbs, Text.isPadding c = false :=
    fun c hc => isPadding_isDigit (isDigit_of_mem hc)
  by_cases hv : v < 0
  · rw [if_pos hv, singleton_append] at hlist
    have hread := readInteger_of_digits (s := toString v) true h (by
      rw [hlist, stripBoth_eq_self (forall_mem_cons.mpr ⟨by decide, hpadding⟩)]
      rfl)
    rw [hread, if_pos rfl]
    exact congrArg _ (by omega)
  · rw [if_neg hv, nil_append] at hlist
    have hread := readInteger_of_digits (s := toString v) false h (by
      rw [hlist, stripBoth_eq_self hpadding, signed_digits fun c hc => isDigit_of_mem hc])
    rw [hread, if_neg Bool.false_ne_true]
    exact congrArg _ (by omega)

end Recast.Numeral

namespace Recast.Form

/-! ## Forms -/

mutual

/-- The whole numbers of a form are below the limit.  What stands behind an apostrophe or in square
brackets is never built. -/
def Legible : Form → Prop
  | .integer v => v.natAbs < 10 ^ Numeral.digitLimit
  | .list items => AllLegible items
  | _ => True

def AllLegible : List Form → Prop
  | [] => True
  | form :: forms => form.Legible ∧ AllLegible forms

end

lemma legible_ofAtom (atom : String) : (ofAtom atom).Legible := by
  rw [ofAtom]
  split
  · rename_i n hn
    cases hread : Numeral.readInteger atom with
    | error fault =>
      rw [Numeral.integer?, hread] at hn
      cases hn
    | ok v =>
      rw [Numeral.integer?, hread] at hn
      cases hn
      exact Numeral.natAbs_lt_of_readInteger hread
  · split
    · trivial
    · trivial

lemma allLegible_of_reads {cs rest : List Char} {forms : List Form} (h : Reads cs forms rest) :
    AllLegible forms := by
  induction h with
  | done | closer => trivial
  | gap _ _ ih | comment _ _ ih => exact ih
  | @opener _ _ _ _ _ _ bracket _ _ _ ihinner ihafter =>
    cases bracket with
    | round => exact ⟨ihinner, ihafter⟩
    | square => exact ⟨trivial, ihafter⟩
  | apostrophe _ _ ih => exact ⟨trivial, ih.2⟩
  | text _ _ _ ih => exact ⟨trivial, ih⟩
  | atom _ _ _ ih => exact ⟨legible_ofAtom _, ih⟩

/-- **The whole numbers of a description are below the limit.** -/
lemma legible_of_read {text : String} {forms : List Form} (h : read text = .ok forms) :
    AllLegible forms :=
  allLegible_of_reads (read_eq_ok_iff.mp h)

end Recast.Form
