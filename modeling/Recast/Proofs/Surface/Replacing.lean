import Mathlib.Data.List.Forall2
import Recast.Proofs.Surface.Accepting

/-!
# Which parts of a description are read

A form behind an apostrophe means nothing in any role.  Put in the place of some part of a
description that is accepted, it shows whether that part is read: if it is, the description is
refused.

**Steadiness.**  What stands in the place of an operand is seen from outside by the list to which it
belongs.  If something meaningless is put there, the roles of the items stay as they are where the
operand was ignored, and in all other cases the new operand has a role in which it is refused
(`settles_parts`).

* `replaced_refused_iff` — exactly the operands that are ignored can be replaced, and the
  annotations that leave room for one.
-/

namespace Recast.Surface

open List

/-! ## Positions -/

/-- The part of a form at a position. -/
def subform? : List Nat → Form → Option Form
  | [], form => some form
  | i :: p, .list forms => forms[i]?.bind (subform? p)
  | i :: p, .brackets forms => forms[i]?.bind (subform? p)
  | 0 :: p, .quoted form => subform? p form
  | _, _ => none

/-- The form with something else at a position. -/
def replace (x : Form) : List Nat → Form → Form
  | [], _ => x
  | i :: p, .list forms => .list (forms.modify i (replace x p))
  | i :: p, .brackets forms => .brackets (forms.modify i (replace x p))
  | 0 :: p, .quoted form => .quoted (replace x p form)
  | _, form => form

/-- Whether anything at all may stand in a role. -/
def Role.isSpare : Role → Bool
  | .ignored => true
  | .trailer spare | .keyword spare => spare
  | _ => false

/-- The role of a part of a form, if the form stands in a role. -/
def roleAt : List Nat → Form → Role → Option Role
  | [], _, ρ => some ρ
  | i :: p, .list forms, ρ =>
    match (ρ.parts (forms.map look)).bind (·[i]?), forms[i]? with
    | some σ, some form => roleAt p form σ
    | _, _ => none
  | _ :: _, _, _ => none

/-- **Whether a part of a form is read**, if the form stands in a role. -/
def reads (p : List Nat) (form : Form) (ρ : Role) : Bool :=
  (roleAt p form ρ).any fun σ => !σ.isSpare

lemma roleAt_cons {forms : List Form} {roles : List Role} {ρ σ : Role} {part : Form}
    {i : Nat} {p : List Nat}
    (hroles : ρ.parts (forms.map look) = some roles) (hσ : roles[i]? = some σ)
    (hpart : forms[i]? = some part) :
    roleAt (i :: p) (.list forms) ρ = roleAt p part σ := by
  rw [roleAt, hroles, Option.bind_some, hσ, hpart]

lemma subform?_cons {forms : List Form} {part : Form} {i : Nat} {p : List Nat}
    (h : subform? (i :: p) (.list forms) = some part) :
    ∃ form, forms[i]? = some form ∧ subform? p form = some part :=
  Option.bind_eq_some_iff.mp h

/-! ## Signatures -/

/-- All operands are read. -/
def Signature.IsStrict (σ : Signature) : Prop :=
  (∀ ρ ∈ σ.operands, ρ.isSpare = false) ∧ ∀ ρ ∈ σ.rest, ρ.isSpare = false

/-- All operands are read up to a point behind which they may be ignored. -/
def Signature.IsOpen (σ : Signature) : Prop :=
  (∀ ρ ∈ σ.operands, ρ.isSpare = false) ∧ ∀ ρ ∈ σ.rest, ρ.isSpare = false ∨ ρ = .ignored

/-- **A table is steady** if the operands of a head are the same whatever they look like, or all of
them are read. -/
def Steady (signature : String → List Look → Option Signature) : Prop := ∀ tag,
  (∀ args, ∀ σ ∈ signature tag args, σ.IsStrict) ∨ ∃ σ, σ.IsOpen ∧
    ∀ args, signature tag args = some σ

lemma mem_rolesOf {ρs roles : List Role} {rest : Option Role} {n : Nat} {ρ : Role}
    (h : rolesOf ρs rest n = some roles) (hρ : ρ ∈ roles) : ρ ∈ ρs ∨ ρ ∈ rest := by
  induction n generalizing ρs roles with
  | zero =>
    cases ρs with
    | nil =>
      cases h
      cases hρ
    | cons ρ' ρs => cases h
  | succ n ih =>
    cases ρs with
    | nil =>
      obtain ⟨σ, hσ, h⟩ := Option.bind_eq_some_iff.mp h
      obtain ⟨roles', h', rfl⟩ := Option.map_eq_some_iff.mp h
      rcases mem_cons.mp hρ with rfl | hρ
      · exact .inr hσ
      · exact ih h' hρ
    | cons ρ' ρs =>
      obtain ⟨roles', h', rfl⟩ := Option.map_eq_some_iff.mp h
      rcases mem_cons.mp hρ with rfl | hρ
      · exact .inl mem_cons_self
      · exact (ih h' hρ).imp_left (mem_cons_of_mem _)

/-- One more operand has the role of the others. -/
lemma rolesOf_succ {ρs roles : List Role} {rest : Option Role} {n : Nat}
    (h : rolesOf ρs rest n = some roles) :
    rolesOf ρs rest (n + 1) = rest.map fun ρ => roles ++ [ρ] := by
  induction n generalizing ρs roles with
  | zero =>
    cases ρs with
    | nil =>
      cases h
      cases rest <;> rfl
    | cons ρ ρs => cases h
  | succ n ih =>
    cases ρs with
    | nil =>
      obtain ⟨σ, hσ, h⟩ := Option.bind_eq_some_iff.mp h
      obtain ⟨roles', h', rfl⟩ := Option.map_eq_some_iff.mp h
      rw [rolesOf, ih h', hσ]
      rfl
    | cons ρ ρs =>
      obtain ⟨roles', h', rfl⟩ := Option.map_eq_some_iff.mp h
      rw [rolesOf, ih h', Option.map_map]
      rfl

/-- Where operands do not matter for the signature. -/
lemma Steady.of_const {g : List Look → Option Signature} (hconst : ∀ args, g args = g [])
    (hopen : ∀ σ, g [] = some σ → σ.IsOpen) :
    (∀ args, ∀ σ ∈ g args, σ.IsStrict) ∨ ∃ σ, σ.IsOpen ∧ ∀ args, g args = some σ := by
  cases hsig : g [] with
  | none =>
    refine .inl fun args σ hσ => ?_
    rw [hconst, hsig] at hσ
    cases hσ
  | some σ => exact .inr ⟨σ, hopen σ hsig, fun args => (hconst args).trans hsig⟩

lemma steady_expr : Steady exprSignature := by
  intro tag
  by_cases hop : binaryOps.contains tag = true
  · refine .inl fun args σ hσ => ?_
    have htable : ∀ op ∈ binaryOps, (exprTable op).isNone = true := by decide
    rw [exprSignature, Option.isNone_iff_eq_none.mp (htable tag (by simpa using hop))] at hσ
    split at hσ
    · cases hσ
      exact ⟨by decide, by decide⟩
    · cases hσ
  · rw [Bool.not_eq_true] at hop
    have hconst : ∀ args, exprSignature tag args = exprTable tag := by
      intro args
      rw [exprSignature, hop]
      rfl
    refine Steady.of_const (fun args => (hconst args).trans (hconst []).symm) fun σ hσ => ?_
    rw [hconst, exprTable.eq_def] at hσ
    split at hσ <;> cases hσ <;> exact ⟨by decide, by decide⟩

lemma steady_element : Steady elementSignature := by
  intro tag
  by_cases hkv : tag = "kv"
  · exact .inr ⟨⟨[.expr, .expr], some .ignored⟩, ⟨by decide, by decide⟩, fun _ => if_pos hkv⟩
  · have heq : elementSignature tag = exprSignature tag := funext fun _ => if_neg hkv
    rw [heq]
    exact steady_expr tag

lemma strict_var (args : List Look) : (varSignature args).IsStrict := by
  rw [varSignature]
  split
  · exact ⟨by decide, by decide⟩
  · exact ⟨by decide, by decide⟩

lemma mem_initRoles {args : List Look} {ρ : Role} (h : ρ ∈ initRoles args) : ρ = .init := by
  rw [initRoles] at h
  split at h
  · exact mem_singleton.mp h
  · cases h

lemma steady_stmt : Steady stmtSignature := by
  have hbranch : ∀ n, ∀ ρ ∈ branchRoles n, ρ.isSpare = false := by
    intro n
    rw [branchRoles]
    split <;> decide
  have hstrict : ∀ tag ∈ ["var", "if", "for", "switch"], ∀ args,
      ∀ σ ∈ stmtSignature tag args, σ.IsStrict := by
    intro tag htag args σ hσ
    simp only [mem_cons, not_mem_nil, or_false] at htag
    rcases htag with rfl | rfl | rfl | rfl
    · cases hσ
      exact strict_var args
    · cases hσ
      refine ⟨fun ρ hρ => ?_, by rintro _ ⟨⟩⟩
      rcases mem_append.mp hρ with hρ | hρ
      · rw [mem_initRoles hρ]
        rfl
      · exact hbranch _ ρ hρ
    · cases hσ
      refine ⟨?_, by rintro _ ⟨⟩⟩
      show ∀ ρ ∈ forRoles args.length, _
      rw [forRoles]
      split
      · decide
      · split <;> decide
    · cases hσ
      refine ⟨fun ρ hρ => ?_, fun ρ hρ => by cases hρ; rfl⟩
      rcases mem_append.mp hρ with hρ | hρ
      · rw [mem_initRoles hρ]
        rfl
      · rw [mem_singleton.mp hρ]
        rfl
  intro tag
  by_cases htag : tag ∈ ["var", "if", "for", "switch"]
  · exact .inl (hstrict tag htag)
  · have hconst : ∀ args, stmtSignature tag args = stmtSignature tag [] := by
      intro args
      rw [stmtSignature.eq_def, stmtSignature.eq_def]
      split <;> first | rfl | simp at htag
    refine Steady.of_const hconst fun σ hσ => ?_
    rw [stmtSignature.eq_def] at hσ
    split at hσ <;> first | (cases hσ; done) | (cases hσ; exact ⟨by decide, by decide⟩)

lemma steady_item : Steady itemSignature := by
  intro tag
  by_cases htag : tag = "var"
  · refine .inl fun args σ hσ => ?_
    subst htag
    cases hσ
    exact strict_var args
  · have hconst : ∀ args, itemSignature tag args = itemSignature tag [] := by
      intro args
      rw [itemSignature.eq_def, itemSignature.eq_def]
      split <;> first | rfl | exact absurd rfl htag
    refine Steady.of_const hconst fun σ hσ => ?_
    rw [itemSignature.eq_def] at hσ
    split at hσ <;> first | (cases hσ; done) | (cases hσ; exact ⟨by decide, by decide⟩)

lemma steady_block : Steady fun tag _ => blockSignature tag := by
  refine fun tag => Steady.of_const (fun _ => rfl) fun σ hσ => ?_
  replace hσ : blockSignature tag = some σ := hσ
  rw [blockSignature] at hσ
  split at hσ
  · cases hσ
    exact ⟨by decide, by decide⟩
  · cases hσ

lemma steady_clause : Steady fun tag _ => clauseSignature tag := by
  refine fun tag => Steady.of_const (fun _ => rfl) fun σ hσ => ?_
  replace hσ : clauseSignature tag = some σ := hσ
  rw [clauseSignature] at hσ
  split at hσ
  · cases hσ
    exact ⟨by decide, by decide⟩
  · split at hσ
    · cases hσ
      exact ⟨by decide, by decide⟩
    · cases hσ

lemma steady_init : Steady (Role.signature .init) := by
  refine fun tag => Steady.of_const (fun _ => rfl) fun σ hσ => ?_
  rw [Role.signature] at hσ
  split at hσ
  · cases hσ
    exact ⟨by decide, by decide⟩
  · cases hσ

lemma steady_alternative : Steady (Role.signature .alternative) := by
  intro tag
  by_cases hif : tag = "if"
  · have heq : Role.signature .alternative tag = stmtSignature tag := funext fun _ => if_pos hif
    rw [heq]
    exact steady_stmt tag
  · have heq : Role.signature .alternative tag = fun _ => blockSignature tag :=
      funext fun _ => if_neg hif
    rw [heq]
    exact steady_block tag

/-- **The table is steady** in every role. -/
lemma steady_signature (ρ : Role) : Steady ρ.signature := by
  cases ρ with
  | item => exact steady_item
  | stmt | inline | optionalInline => exact steady_stmt
  | clause => exact steady_clause
  | alternative => exact steady_alternative
  | block => exact steady_block
  | init => exact steady_init
  | expr => exact steady_expr
  | element => exact steady_element
  | _ => exact fun _ => .inl nofun

/-! ## Roles -/

/-- **What becomes of the roles** of some items when something meaningless is put in the place of
one of them.  Either that item was read, and what stands there now is not ignored, or it was not,
and what stands there now is ignored. -/
def Settles (roles : List Role) (i : Nat) (roles' : Option (List Role)) : Prop :=
  ((∀ ρ ∈ roles[i]?, ρ.isSpare = false) ∧ ∀ rs ∈ roles', rs[i]? ≠ some .ignored) ∨
    ((∀ ρ ∈ roles[i]?, ρ.isSpare = true) ∧ roles' = some (roles.set i .ignored))

variable {signature : String → List Look → Option Signature} {ls : List Look}
  {roles : List Role} {i : Nat}

/-- Where the roles stay as they are. -/
lemma Settles.same (h : ∀ ρ ∈ roles, ρ.isSpare = false ∨ ρ = .ignored) :
    Settles roles i (some roles) := by
  cases hi : roles[i]? with
  | none =>
    refine .inl ⟨by rw [hi]; nofun, ?_⟩
    rintro _ ⟨⟩
    rw [hi]
    nofun
  | some ρ =>
    rcases h ρ (mem_of_getElem? hi) with hread | rfl
    · refine .inl ⟨?_, ?_⟩
      · rw [hi]
        rintro _ ⟨⟩
        exact hread
      · rintro _ ⟨⟩
        rw [hi]
        rintro ⟨⟩
        cases hread
    · refine .inr ⟨?_, ?_⟩
      · rw [hi]
        rintro _ ⟨⟩
        rfl
      · obtain ⟨hlt, heq⟩ := List.getElem?_eq_some_iff.mp hi
        rw [← heq, set_getElem_self]

/-- Where all operands are read before and after. -/
lemma Settles.read {roles' : Option (List Role)} (h : ∀ ρ ∈ roles, ρ.isSpare = false)
    (h' : ∀ rs ∈ roles', ∀ ρ ∈ rs, ρ.isSpare = false) :
    Settles roles i roles' := by
  refine .inl ⟨fun ρ hρ => h ρ (mem_of_getElem? hρ), fun rs hrs hignored => ?_⟩
  cases h' rs hrs _ (mem_of_getElem? hignored)

/-- The roles of a form with this head. -/
lemma headedRoles_symbol {tag : String} {args : List Look}
    (h : headedRoles signature (.symbol tag :: args) = some roles) :
    ∃ σ ∈ signature tag args, ∃ rs, rolesOf σ.operands σ.rest args.length = some rs ∧
    roles = .keyword false :: rs := by
  obtain ⟨σ, hσ, h⟩ := Option.bind_eq_some_iff.mp h
  obtain ⟨rs, hrs, rfl⟩ := Option.map_eq_some_iff.mp h
  exact ⟨σ, hσ, rs, hrs, rfl⟩

lemma read_of_strict {σ : Signature} {n : Nat} {rs : List Role} (hσ : σ.IsStrict)
    (h : rolesOf σ.operands σ.rest n = some rs) :
    ∀ ρ ∈ .keyword false :: rs, ρ.isSpare = false := by
  intro ρ hρ
  rcases mem_cons.mp hρ with rfl | hρ
  · rfl
  · exact (mem_rolesOf h hρ).elim (hσ.1 ρ) (hσ.2 ρ)

lemma settles_headed {j : Nat} (hsteady : Steady signature)
    (h : headedRoles signature ls = some roles) :
    Settles roles (j + 1) (headedRoles signature (ls.set (j + 1) .other)) := by
  match ls with
  | [] | .tagged _ :: _ | .other :: _ => cases h
  | .symbol tag :: args =>
    obtain ⟨σ, hσ, rs, hrs, rfl⟩ := headedRoles_symbol h
    rw [set_cons_succ]
    rcases hsteady tag with hstrict | ⟨σ', hopen, hconst⟩
    · refine .read (read_of_strict (hstrict args σ hσ) hrs) fun rs' hrs' => ?_
      obtain ⟨σ', hσ', rs'', hrs'', rfl⟩ := headedRoles_symbol hrs'
      exact read_of_strict (hstrict _ σ' hσ') hrs''
    · have hsame : headedRoles signature (.symbol tag :: args.set j .other) =
          headedRoles signature (.symbol tag :: args) := by
        rw [headedRoles, headedRoles, hconst, hconst, length_set]
      rw [hsame, h]
      refine .same fun ρ hρ => ?_
      rcases mem_cons.mp hρ with rfl | hρ
      · exact .inl rfl
      · have heq : σ' = σ := Option.some_inj.mp ((hconst args).symm.trans hσ)
        subst heq
        exact (mem_rolesOf hrs hρ).elim (fun h => .inl (hopen.1 ρ h)) (hopen.2 ρ)

/-- A form that leaves room for something behind its items has ignored operands there. -/
lemma headedRoles_concat {rs : List Role} (hsteady : Steady signature)
    (h : headedRoles signature ls = some roles)
    (h' : headedRoles signature (ls ++ [.other]) = some rs) (hlast : rs.getLast? = some .ignored) :
    rs = roles ++ [.ignored] := by
  match ls with
  | [] | .tagged _ :: _ | .other :: _ => cases h
  | .symbol tag :: args =>
    obtain ⟨σ, hσ, rs₀, hrs₀, rfl⟩ := headedRoles_symbol h
    obtain ⟨σ', hσ', rs₁, hrs₁, rfl⟩ := headedRoles_symbol h'
    rcases hsteady tag with hstrict | ⟨τ, -, hconst⟩
    · cases read_of_strict (hstrict _ σ' hσ') hrs₁ _ (mem_of_getLast? hlast)
    · obtain rfl : τ = σ := Option.some_inj.mp ((hconst _).symm.trans hσ)
      obtain rfl : τ = σ' := Option.some_inj.mp ((hconst _).symm.trans hσ')
      have hlength : (args.append [.other]).length = args.length + 1 := length_append
      rw [hlength, rolesOf_succ hrs₀] at hrs₁
      obtain ⟨ρ, -, rfl⟩ := Option.map_eq_some_iff.mp hrs₁
      rw [← cons_append, getLast?_concat, Option.some_inj] at hlast
      rw [hlast, cons_append]

/-- What leaves room for something does so with other operands that are ignored. -/
lemma isSpare_set {j : Nat} (hsteady : Steady signature) (h : headedRoles signature ls = some roles)
    (hj : j + 1 < ls.length) (hspare : ∀ ρ ∈ roles[j + 1]?, ρ.isSpare = true) :
    isSpare (headedRoles signature) (ls.set (j + 1) .other) =
      isSpare (headedRoles signature) ls := by
  match ls with
  | [] | .tagged _ :: _ | .other :: _ => cases h
  | .symbol tag :: args =>
    obtain ⟨σ, hσ, rs, hrs, rfl⟩ := headedRoles_symbol h
    rcases hsteady tag with hstrict | ⟨τ, -, hconst⟩
    · have hlt : j + 1 < (Role.keyword false :: rs).length := by
        rw [length_headedRoles h]
        exact hj
      have hread := read_of_strict (hstrict args σ hσ) hrs _ (getElem_mem hlt)
      rw [hspare _ (getElem?_eq_getElem hlt)] at hread
      cases hread
    · have hroles : ∀ args', headedRoles signature (.symbol tag :: args') =
          (rolesOf τ.operands τ.rest args'.length).map (.keyword false :: ·) := by
        intro args'
        rw [headedRoles, hconst]
        rfl
      rw [set_cons_succ, isSpare, isSpare, cons_append, cons_append, hroles, hroles, length_append,
        length_append, length_set]

/-- A form without an annotation does not get one. -/
lemma isAnnotated_set (h : isAnnotated ls = false) (i : Nat) :
    isAnnotated (ls.set i .other) = false := by
  rw [isAnnotated, Bool.and_eq_false_iff] at h ⊢
  rw [length_set]
  refine h.imp_right fun hlast => ?_
  rw [getLast?_eq_getElem?, beq_eq_false_iff_ne] at hlast ⊢
  rw [length_set, getElem?_set]
  split
  · split <;> simp
  · exact hlast

/-- Forms that may end with an annotation. -/
lemma settles_annotated {j : Nat} (hsteady : Steady signature)
    (h : annotatedRoles (headedRoles signature) ls = some roles) (hj : j + 1 < ls.length) :
    Settles roles (j + 1) (annotatedRoles (headedRoles signature) (ls.set (j + 1) .other)) := by
  cases hann : isAnnotated ls with
  | false =>
    rw [annotatedRoles, hann] at h
    rw [annotatedRoles, isAnnotated_set hann]
    exact settles_headed hsteady h
  | true =>
    rw [annotatedRoles, if_pos hann] at h
    obtain ⟨rs, hrs, rfl⟩ := Option.map_eq_some_iff.mp h
    obtain ⟨hlength, hlast⟩ := (Bool.and_eq_true _ _).mp hann
    obtain ⟨ls, rfl⟩ := getLast?_eq_some_iff.mp (beq_iff_eq.mp hlast)
    have hls : ls ≠ [] := by
      rintro rfl
      cases hlength
    rw [dropLast_concat] at hrs ⊢
    have hrslength := length_headedRoles hrs
    rw [length_append, length_singleton] at hj
    by_cases hlast : j + 1 = ls.length
    · rw [hlast]
      have hset : (ls ++ [Look.tagged "want"]).set ls.length .other = ls ++ [.other] := by simp
      have hget : ∀ ρ : Role, (rs ++ [ρ])[ls.length]? = some ρ := by simp [← hrslength]
      rw [hset, annotatedRoles, isAnnotated_concat hls]
      show Settles _ _ (headedRoles signature (ls ++ [.other]))
      cases hspare : isSpare (headedRoles signature) ls with
      | true =>
        obtain ⟨rs', hrs', hlast'⟩ := Option.bind_eq_some_iff.mp (beq_iff_eq.mp hspare)
        refine .inr ⟨?_, ?_⟩
        · rw [hget]
          rintro _ ⟨⟩
          rfl
        · rw [hrs', headedRoles_concat hsteady hrs hrs' hlast', ← hrslength]
          simp
      | false =>
        refine .inl ⟨?_, fun rs' hrs' hignored => ?_⟩
        · rw [hget]
          rintro _ ⟨⟩
          rfl
        · have hlength' := length_headedRoles hrs'
          rw [isSpare, Option.mem_def.mp hrs', beq_eq_false_iff_ne] at hspare
          refine hspare ?_
          show rs'.getLast? = _
          rw [getLast?_eq_getElem?, hlength', length_append, length_singleton,
            Nat.add_sub_cancel, hignored]
    · have hlt : j + 1 < ls.length := by omega
      have hset : (ls ++ [Look.tagged "want"]).set (j + 1) .other = ls.set (j + 1) .other ++
        [.tagged "want"] := set_append_left _ _ hlt
      have hget : ∀ (rs' : List Role) (ρ : Role), rs'.length = ls.length →
          (rs' ++ [ρ])[j + 1]? = rs'[j + 1]? :=
        fun rs' ρ hlen => getElem?_append_left (hlen ▸ hlt)
      have hset' : annotatedRoles (headedRoles signature)
        (ls.set (j + 1) .other ++ [.tagged "want"]) =
          (headedRoles signature (ls.set (j + 1) .other)).map
            (· ++ [.trailer (isSpare (headedRoles signature) (ls.set (j + 1) .other))]) := by
        have hne : ls.set (j + 1) .other ≠ [] := by simpa using hls
        rw [annotatedRoles, isAnnotated_concat hne, dropLast_concat]
        rfl
      rw [hset, hset']
      rcases settles_headed hsteady hrs with ⟨hread, hno⟩ | ⟨hspare, heq⟩
      · refine .inl ⟨?_, fun rs' hrs' => ?_⟩
        · rw [hget rs _ hrslength]
          exact hread
        · obtain ⟨rs'', hrs'', rfl⟩ := Option.map_eq_some_iff.mp hrs'
          rw [hget rs'' _ ((length_headedRoles hrs'').trans length_set)]
          exact hno rs'' hrs''
      · refine .inr ⟨?_, ?_⟩
        · rw [hget rs _ hrslength]
          exact hspare
        · rw [heq, isSpare_set hsteady hrs hlt hspare, set_append_left _ _ (hrslength ▸ hlt)]
          rfl

lemma read_namesThenType (h : namesThenType ls = some roles) : ∀ ρ ∈ roles, ρ.isSpare = false := by
  cases ls with
  | nil => cases h
  | cons l ls =>
    cases h
    intro ρ hρ
    rcases mem_append.mp hρ with hρ | hρ
    · rw [eq_of_mem_replicate hρ]
      rfl
    · rw [mem_singleton.mp hρ]
      rfl

/-- Only the head of a form is seen at its head. -/
lemma head?_set_succ (ls : List Look) (j : Nat) : (ls.set (j + 1) .other).head? = ls.head? := by
  cases ls with
  | nil => rfl
  | cons l ls => rfl

/-- How a list is read in a role, and another one with the same head. -/
inductive Manner (ρ : Role) (ls ls' : List Look) : Prop
  | headed {signature : String → List Look → Option Signature} (hsteady : Steady signature)
    (h : ρ.parts ls = headedRoles signature ls) (h' : ρ.parts ls' = headedRoles signature ls')
  | annotated {signature : String → List Look → Option Signature} (hsteady : Steady signature)
    (h : ρ.parts ls = annotatedRoles (headedRoles signature) ls)
    (h' : ρ.parts ls' = annotatedRoles (headedRoles signature) ls')
  | wholly (h : ∀ rs ∈ ρ.parts ls, ∀ σ ∈ rs, σ.isSpare = false)
      (h' : ∀ rs ∈ ρ.parts ls', ∀ σ ∈ rs, σ.isSpare = false)

lemma manner {ρ : Role} {ls' : List Look} (hρ : ∀ spare, ρ ≠ .trailer spare) (hne : ρ ≠ .ignored)
    (hhead : ls'.head? = ls.head?) :
    Manner ρ ls ls' := by
  have hreplicate : ∀ {σ : Role} {n : Nat}, σ.isSpare = false →
      ∀ rs ∈ some (replicate n σ), ∀ τ ∈ rs, τ.isSpare = false := by
    rintro σ n hσ _ ⟨⟩ τ hτ
    rw [eq_of_mem_replicate hτ]
    exact hσ
  have hnames : ∀ ls, ∀ rs ∈ namesThenType ls, ∀ σ ∈ rs, σ.isSpare = false :=
    fun _ _ hrs => read_namesThenType hrs
  have hunless : ∀ {b : Prop} [Decidable b] {o : Option (List Role)},
    (∀ rs ∈ o, ∀ σ ∈ rs, σ.isSpare = false) →
      ∀ rs ∈ if b then none else o, ∀ σ ∈ rs, σ.isSpare = false := by
    intro b _ o ho rs hrs
    split at hrs
    · cases hrs
    · exact ho rs hrs
  cases ρ with
  | item | stmt | clause => exact .annotated (steady_signature _) rfl rfl
  | alternative =>
    by_cases hif : ls.head? = some (.symbol "if")
    · exact .annotated (steady_signature .alternative) (if_pos (beq_iff_eq.mpr hif))
        (if_pos (beq_iff_eq.mpr (hhead.trans hif)))
    · have hlined : ∀ {ls' : List Look}, ls'.head? = ls.head? →
          ¬Role.isLined .alternative ls' = true :=
        fun heq h => hif (heq.symm.trans (beq_iff_eq.mp h))
      exact .headed (steady_signature .alternative) (if_neg (hlined rfl)) (if_neg (hlined hhead))
  | block | inline | optionalInline | init | expr | element | name | path | message | keyword =>
    exact .headed (steady_signature _) rfl rfl
  | exprs least => exact .wholly (hunless (hreplicate rfl)) (hunless (hreplicate rfl))
  | param => exact .wholly (hnames ls) (hnames ls')
  | params => exact .wholly (hreplicate rfl) (hreplicate rfl)
  | member =>
    by_cases hembed : ls.head? = some (.symbol "embed")
    · exact .headed (fun _ => .inr ⟨⟨[.expr], some .ignored⟩, ⟨by decide, by decide⟩, fun _ => rfl⟩)
        (if_pos hembed)
        (if_pos (hhead.trans hembed))
    · refine .wholly ?_ ?_
      · rw [Role.parts, if_neg hembed]
        exact hunless (hnames ls)
      · rw [Role.parts, if_neg (hhead.symm ▸ hembed)]
        exact hunless (hnames ls')
  | names => exact .wholly (hreplicate rfl) (hreplicate rfl)
  | trailer spare => exact absurd rfl (hρ spare)
  | ignored => exact absurd rfl hne

/-- The head of a form with a head. -/
lemma head_headed (h : headedRoles signature ls = some roles) :
    roles.head? = some (.keyword false) := by
  match ls with
  | [] | .tagged _ :: _ | .other :: _ => cases h
  | .symbol tag :: args =>
    obtain ⟨-, -, rs, -, rfl⟩ := headedRoles_symbol h
    rfl

lemma head_annotated (h : annotatedRoles (headedRoles signature) ls = some roles) :
    roles.head? = some (.keyword false) := by
  rw [annotatedRoles] at h
  split at h
  · obtain ⟨rs, hrs, rfl⟩ := Option.map_eq_some_iff.mp h
    rw [head?_append, head_headed hrs]
    rfl
  · exact head_headed h

/-- The head of a form that is read is read. -/
lemma head_read {ρ σ : Role} {σs : List Role} (hρ : ∀ spare, ρ ≠ .trailer spare)
    (hne : ρ ≠ .ignored)
    (h : ρ.parts ls = some (σ :: σs)) : ρ.isSpare = false ∧ σ.isSpare = false := by
  refine ⟨?_, ?_⟩
  · cases ρ with
    | ignored => exact absurd rfl hne
    | trailer spare => exact absurd rfl (hρ spare)
    | keyword spare =>
      replace h : headedRoles (fun _ _ => none) ls = some (σ :: σs) := h
      match ls with
      | [] | .symbol _ :: _ | .tagged _ :: _ | .other :: _ => cases h
    | _ => rfl
  · rcases manner hρ hne (Eq.refl ls.head?) with ⟨-, heq, -⟩ | ⟨-, heq, -⟩ | ⟨hread, -⟩
    · rw [Option.some_inj.mp (head_headed (heq.symm.trans h))]
      rfl
    · rw [Option.some_inj.mp (head_annotated (heq.symm.trans h))]
      rfl
    · exact hread _ h σ mem_cons_self

/-- The head of a form is read if and only if the form is. -/
lemma head_spare {ρ σ : Role} {σs : List Role} (h : ρ.parts ls = some (σ :: σs)) :
    σ.isSpare = ρ.isSpare := by
  by_cases hann : ∃ spare, ρ = .trailer spare
  · obtain ⟨spare, rfl⟩ := hann
    cases h
    rfl
  by_cases hne : ρ = .ignored
  · subst hne
    rw [eq_of_mem_replicate
      (Option.some_inj.mp h ▸ mem_cons_self : σ ∈ replicate ls.length Role.ignored)]
  · obtain ⟨hρ, hσ⟩ := head_read (fun spare heq => hann ⟨spare, heq⟩) hne h
    rw [hρ, hσ]

/-- **Every role settles** what is put in the place of an item. -/
lemma settles_parts {ρ : Role} (hρ : ∀ spare, ρ ≠ .trailer spare) (h : ρ.parts ls = some roles)
    (hi : i < ls.length) :
    Settles roles i (ρ.parts (ls.set i .other)) := by
  by_cases hne : ρ = .ignored
  · subst hne
    cases h
    rw [Role.parts, length_set]
    exact .same fun ρ hρ => .inr (eq_of_mem_replicate hρ)
  cases i with
  | zero =>
    have hread : ∀ {ls rs}, ρ.parts ls = some rs → ∀ σ ∈ rs[0]?, σ.isSpare = false := by
      intro ls rs hrs σ hσ
      cases rs with
      | nil => cases hσ
      | cons τ τs =>
        cases hσ
        exact (head_read hρ hne hrs).2
    exact .inl ⟨hread h, fun rs hrs hignored => by cases hread hrs _ hignored⟩
  | succ j =>
    rcases manner hρ hne (head?_set_succ ls j)
      with ⟨hsteady, heq, heq'⟩ | ⟨hsteady, heq, heq'⟩ | ⟨hread, hread'⟩
    · rw [heq']
      exact settles_headed hsteady (heq.symm.trans h)
    · rw [heq']
      exact settles_annotated hsteady (heq.symm.trans h) hi
    · exact .read (hread _ h) hread'

/-! ## Forms -/

/-- Whether a form is accepted in a role. -/
def Accepts (form : Form) (ρ : Role) : Prop := (script form ρ).isSome = true

lemma isSome_join {s t : Script} : (s.join t).isSome = true ↔
    s.isSome = true ∧ t.isSome = true := by
  cases s with
  | none => simp
  | some es =>
    cases t with
    | none => simp
    | some es' => simp [Script.join]

lemma isSome_scriptAll {forms : List Form} : (scriptAll forms roles).isSome = true ↔
    Forall₂ Accepts forms roles := by
  induction forms generalizing roles with
  | nil =>
    cases roles with
    | nil => simp [scriptAll]
    | cons ρ ρs => simp [scriptAll]
  | cons form forms ih =>
    cases roles with
    | nil => simp [scriptAll]
    | cons ρ ρs => rw [scriptAll, isSome_join, ih, forall₂_cons, Accepts]

lemma accepts_list {forms : List Form} {ρ : Role} :
    Accepts (.list forms) ρ ↔ ∃ roles, ρ.parts (forms.map look) = some roles ∧
    Forall₂ Accepts forms roles := by
  rw [Accepts, script, isSome_join]
  cases ρ.parts (forms.map look) with
  | none => simp
  | some roles => simp [isSome_scriptAll]

/-- A form behind an apostrophe is accepted only where it is ignored. -/
lemma accepts_quoted {form : Form} {ρ : Role} : Accepts (.quoted form) ρ ↔ ρ = .ignored := by
  rw [Accepts, script, accepted]
  split
  next h => exact iff_of_true rfl (beq_iff_eq.mp h)
  next h => exact iff_of_false Bool.false_ne_true fun heq => h (beq_iff_eq.mpr heq)

lemma accepts_brackets {forms : List Form} {ρ : Role} :
    Accepts (.brackets forms) ρ ↔ ρ = .ignored := by
  have hquoted : Accepts (.brackets forms) ρ ↔ Accepts (.quoted (.list forms)) ρ := by
    rw [Accepts, Accepts, script, script]
  exact hquoted.trans accepts_quoted

/-- So is a list with such a form at its head. -/
lemma accepts_list_quoted {form : Form} {forms : List Form} {ρ : Role} :
    Accepts (.list (.quoted form :: forms)) ρ ↔ ρ = .ignored := by
  constructor
  · intro h
    obtain ⟨roles, hroles, hall⟩ := accepts_list.mp h
    obtain ⟨σ, σs, hσ, -, rfl⟩ := forall₂_cons_left_iff.mp hall
    obtain rfl := accepts_quoted.mp hσ
    by_contra hne
    cases (head_read (fun spare heq => by subst heq; cases hroles) hne hroles).2
  · rintro rfl
    rw [Accepts, script_ignored]
    rfl

/-! ## Replacing a part -/

variable {x : Form}

/-- What is replaced below the head of a form cannot be seen from outside. -/
lemma look_replace {j : Nat} {q : List Nat} {form : Form}
    (hsub : (subform? (j :: q) form).isSome = true) :
    look (replace x (j :: q) form) = look form ∨ j = 0 ∧ q = [] ∧
    ∃ first rest, form = .list (first :: rest) := by
  cases form with
  | list forms =>
    cases forms with
    | nil => cases hsub
    | cons first rest =>
      cases j with
      | zero =>
        cases q with
        | nil => exact .inr ⟨rfl, rfl, first, rest, rfl⟩
        | cons k q =>
          refine .inl ?_
          cases first with
          | symbol name => cases hsub
          | text value => cases hsub
          | integer value => cases hsub
          | real value => cases hsub
          | list forms => rfl
          | brackets forms => rfl
          | quoted form =>
            cases k with
            | zero => rfl
            | succ k => cases hsub
      | succ j =>
        refine .inl ?_
        show look (.list (first :: _)) = _
        cases first with
        | _ => rfl
  | brackets forms => exact .inl rfl
  | quoted form =>
    cases j with
    | zero => exact .inl rfl
    | succ j => cases hsub
  | _ => cases hsub

/-- An item and its role. -/
lemma accepts_item {forms : List Form} {form : Form} (h : Forall₂ Accepts forms roles)
    (hform : forms[i]? = some form) :
    ∃ σ, roles[i]? = some σ ∧ Accepts form σ := by
  induction h generalizing i with
  | nil => cases hform
  | cons hσ _ ih =>
    cases i with
    | zero =>
      cases hform
      exact ⟨_, rfl, hσ⟩
    | succ i => exact ih hform

/-- An item and its role are changed. -/
lemma accepts_set {forms : List Form} {form : Form} {σ : Role} (h : Forall₂ Accepts forms roles)
    (hσ : Accepts form σ) (i : Nat) :
    Forall₂ Accepts (forms.set i form) (roles.set i σ) := by
  induction h generalizing i with
  | nil => exact .nil
  | cons hhead htail ih =>
    cases i with
    | zero => exact .cons hσ htail
    | succ i => exact .cons hhead (ih i)

/-- A part that is seen from outside, with something meaningless in its place. -/
lemma replace_seen {p : List Nat} {form : Form} {ρ : Role}
    (hp : p = [] ∨ p = [0]) (h : Accepts form ρ) (hsub : (subform? p form).isSome = true) :
    look (replace (.quoted x) p form) = .other ∧
    (∀ τ, Accepts (replace (.quoted x) p form) τ ↔ τ = .ignored) ∧
      reads p form ρ = !ρ.isSpare := by
  rcases hp with rfl | rfl
  · exact ⟨rfl, fun _ => accepts_quoted, rfl⟩
  · cases form with
    | list forms =>
      cases forms with
      | nil => cases hsub
      | cons first rest =>
        obtain ⟨roles, hroles, hall⟩ := accepts_list.mp h
        obtain ⟨σ, σs, -, -, rfl⟩ := forall₂_cons_left_iff.mp hall
        refine ⟨rfl, fun _ => accepts_list_quoted, ?_⟩
        rw [← head_spare hroles, reads, roleAt_cons hroles rfl rfl]
        rfl
    | brackets forms =>
      obtain rfl := accepts_brackets.mp h
      exact ⟨rfl, fun _ => accepts_brackets, rfl⟩
    | quoted form =>
      obtain rfl := accepts_quoted.mp h
      exact ⟨rfl, fun _ => accepts_quoted, rfl⟩
    | _ => cases hsub

/-- Only a symbol stands for a keyword. -/
lemma accepts_keyword {form : Form} {spare : Bool} (h : Accepts form (.keyword spare)) :
    ∃ name, form = .symbol name := by
  cases form with
  | symbol name => exact ⟨name, rfl⟩
  | list forms =>
    obtain ⟨roles, hroles, -⟩ := accepts_list.mp h
    replace hroles : headedRoles (fun _ _ => none) (forms.map look) = some roles := hroles
    match forms.map look, hroles with
    | [], hroles | .symbol _ :: _, hroles | .tagged _ :: _, hroles | .other :: _, hroles =>
      cases hroles
  | brackets forms => cases accepts_brackets.mp h
  | quoted form => cases accepts_quoted.mp h
  | _ => cases h

/-- An annotation of which a part is replaced. -/
lemma trailer_spare {ls : List Look} {spare : Bool} {σ : Role}
    (hσ : ((Role.trailer spare).parts ls).bind (·[i]?) = some σ)
    (hspare : σ.isSpare = true) : i = 0 ∧ σ = .keyword true ∧ spare = true := by
  cases i with
  | zero =>
    cases hσ
    obtain rfl : spare = true := hspare
    exact ⟨rfl, rfl, rfl⟩
  | succ i =>
    replace hσ : (replicate (ls.length - 1) Role.message)[i]? = some σ := hσ
    rw [eq_of_mem_replicate (mem_of_getElem? hσ)] at hspare
    cases hspare

/-- **A part that means nothing is accepted** exactly where nothing is read. -/
lemma accepts_replace (p : List Nat) {form : Form} {ρ : Role} (h : Accepts form ρ)
    (hsub : (subform? p form).isSome = true)
    (hρ : p = [] ∨ p = [0] → ρ.isSpare = true → ρ = .ignored) :
    Accepts (replace (.quoted x) p form) ρ ↔ reads p form ρ = false := by
  induction p generalizing form ρ with
  | nil =>
    rw [replace, accepts_quoted, reads, roleAt, Option.any_some, Bool.not_eq_false']
    refine ⟨?_, hρ (.inl rfl)⟩
    rintro rfl
    rfl
  | cons i p ih =>
    match form with
    | .list forms =>
      obtain ⟨roles, hroles, hall⟩ := accepts_list.mp h
      obtain ⟨_, hsub⟩ := Option.isSome_iff_exists.mp hsub
      obtain ⟨part, hpart, hsub⟩ := subform?_cons hsub
      replace hsub : (subform? p part).isSome = true := Option.isSome_of_eq_some hsub
      obtain ⟨σ, hσ, hfit⟩ := accepts_item hall hpart
      obtain ⟨hi, hget⟩ := List.getElem?_eq_some_iff.mp hpart
      have hreads : reads (i :: p) (.list forms) ρ = reads p part σ := by
        rw [reads, reads, roleAt_cons hroles hσ hpart]
      have hreplace : replace (.quoted x) (i :: p) (.list forms) =
          .list (forms.set i (replace (.quoted x) p part)) := by
        rw [replace, modify_eq_set, hpart]
        rfl
      rw [hreads, hreplace, accepts_list, map_set]
      have hitem : ∀ {roles'}, Forall₂ Accepts (forms.set i (replace (.quoted x) p part)) roles' →
          ∃ τ, roles'[i]? = some τ ∧ Accepts (replace (.quoted x) p part) τ :=
        fun hall' => accepts_item hall' (getElem?_set_self hi)
      have hset : roles.set i σ = roles := by
        obtain ⟨hlt, rfl⟩ := List.getElem?_eq_some_iff.mp hσ
        exact set_getElem_self hlt
      by_cases hp : p = [] ∨ p = [0]
      · -- the part is seen from outside
        obtain ⟨hlook, haccepts, hspare⟩ := replace_seen (x := x) hp hfit hsub
        rw [hlook, hspare, Bool.not_eq_false']
        by_cases hann : ∃ spare, ρ = .trailer spare
        · obtain ⟨spare, rfl⟩ := hann
          refine iff_of_false ?_ fun hσspare => ?_
          · rintro ⟨roles', hroles', hall'⟩
            obtain ⟨τ, hτ, hfit'⟩ := hitem hall'
            rw [(haccepts τ).mp hfit'] at hτ
            have hpart' : ((Role.trailer spare).parts ((forms.map look).set i .other)).bind
                (·[i]?) = some .ignored := by
              rw [hroles']
              exact hτ
            cases (trailer_spare hpart' rfl).2.1
          · obtain ⟨rfl, rfl, rfl⟩ := trailer_spare (i := i) (by rw [hroles]; exact hσ) hσspare
            rcases hp with rfl | rfl
            · cases hρ (.inr rfl) rfl
            · obtain ⟨name, rfl⟩ := accepts_keyword hfit
              cases hsub
        · rcases settles_parts (i := i) (fun spare heq => hann ⟨spare, heq⟩) hroles
              (by simpa using hi) with
            ⟨hread, hnot⟩ | ⟨hread, hroles'⟩
          · refine iff_of_false ?_ (by rw [hread σ hσ]; decide)
            rintro ⟨roles', hroles', hall'⟩
            obtain ⟨τ, hτ, hfit'⟩ := hitem hall'
            rw [(haccepts τ).mp hfit'] at hτ
            exact hnot roles' hroles' hτ
          · refine iff_of_true ⟨_, hroles', accepts_set hall ?_ i⟩ (hread σ hσ)
            exact (haccepts _).mpr rfl
      · have hlook : look (replace (.quoted x) p part) = look part := by
          cases p with
          | nil => exact absurd (.inl rfl) hp
          | cons j q =>
            refine (look_replace hsub).resolve_right ?_
            rintro ⟨rfl, rfl, -⟩
            exact hp (.inr rfl)
        have hlooks : (forms.map look).set i (look (replace (.quoted x) p part)) =
            forms.map look := by
          rw [hlook, ← hget, ← map_set, set_getElem_self]
        rw [hlooks, ← ih hfit hsub fun hp' => absurd hp' hp]
        constructor
        · rintro ⟨roles', hroles', hall'⟩
          obtain rfl := Option.some_inj.mp (hroles.symm.trans hroles')
          obtain ⟨τ, hτ, hfit'⟩ := hitem hall'
          rwa [Option.some_inj.mp (hσ.symm.trans hτ)]
        · intro hfit'
          exact ⟨roles, hroles, hset ▸ accepts_set hall hfit' i⟩
    | .brackets forms =>
      exact iff_of_true (accepts_brackets.mpr (accepts_brackets.mp h)) rfl
    | .quoted form =>
      cases i with
      | zero => exact iff_of_true (accepts_quoted.mpr (accepts_quoted.mp h)) rfl
      | succ i => cases hsub
    | .symbol _ | .text _ | .integer _ | .real _ => cases hsub

/-! ## Annotations -/

lemma join_eq_some {s t : Script} {es : List Sign} (h : s.join t = some es) :
    ∃ es₁ es₂, s = some es₁ ∧ t = some es₂ ∧ es = es₁ ++ es₂ := by
  obtain ⟨es₁, rfl, h⟩ := Option.bind_eq_some_iff.mp h
  obtain ⟨es₂, rfl, rfl⟩ := Option.map_eq_some_iff.mp h
  exact ⟨es₁, es₂, rfl, rfl, rfl⟩

lemma signs_item {forms : List Form} {form : Form} {σ : Role} {es : List Sign}
    (h : scriptAll forms roles = some es)
    (hform : forms[i]? = some form) (hσ : roles[i]? = some σ) :
    ∃ es', script form σ = some es' ∧ es' ⊆ es := by
  induction forms generalizing roles i es with
  | nil => cases hform
  | cons first rest ih =>
    cases roles with
    | nil => cases hσ
    | cons ρ ρs =>
      obtain ⟨es₁, es₂, h₁, h₂, rfl⟩ := join_eq_some h
      cases i with
      | zero =>
        cases hform
        cases hσ
        exact ⟨es₁, h₁, subset_append_left _ _⟩
      | succ i =>
        obtain ⟨es', h', hsub⟩ := ih h₂ hform hσ
        exact ⟨es', h', Subset.trans hsub (subset_append_right _ _)⟩

/-- The script of a part is found in the script of the whole. -/
lemma signs_part {p : List Nat} {form part : Form} {ρ σ : Role} {es : List Sign}
    (h : script form ρ = some es)
    (hσ : roleAt p form ρ = some σ) (hpart : subform? p form = some part) :
    ∃ es', script part σ = some es' ∧ es' ⊆ es := by
  induction p generalizing form ρ es with
  | nil =>
    cases hσ
    cases hpart
    exact ⟨es, h, Subset.refl _⟩
  | cons i p ih =>
    match form with
    | .list forms =>
      obtain ⟨_, es₂, -, h₂, rfl⟩ := join_eq_some h
      obtain ⟨roles, hroles, h₂⟩ := Option.bind_eq_some_iff.mp h₂
      obtain ⟨item, hitem, hpart⟩ := subform?_cons hpart
      have hfit : Forall₂ Accepts forms roles := isSome_scriptAll.mp (Option.isSome_of_eq_some h₂)
      obtain ⟨τ, hτ, -⟩ := accepts_item hfit hitem
      rw [roleAt_cons hroles hτ hitem] at hσ
      obtain ⟨es', h', hsub⟩ := signs_item h₂ hitem hτ
      obtain ⟨es'', h'', hsub'⟩ := ih h' hσ hpart
      exact ⟨es'', h'', Subset.trans hsub' (Subset.trans hsub (subset_append_right _ _))⟩
    | .brackets _ | .quoted _ | .symbol _ | .text _ | .integer _ | .real _ => cases hσ

lemma mem_noted {file message : String} {line : Nat} {es : List Sign} (h : .want message ∈ es) :
    ∃ line', ⟨file, line', message⟩ ∈ noted file line es := by
  induction es generalizing line with
  | nil => cases h
  | cons e es ih =>
    rcases mem_cons.mp h with rfl | hes
    · exact ⟨line, mem_cons_self⟩
    · cases e with
      | line => exact ih hes
      | want _ =>
        obtain ⟨line', h'⟩ := ih hes
        exact ⟨line', mem_cons_of_mem _ h'⟩

/-- What a form with a line of its own ends with is part of its script. -/
lemma wants_signs {parts ms : List Form} {ρ : Role} {es : List Sign}
    {message : String} (hne : parts ≠ []) (hlined : ρ.isLined (parts.map look) = true)
    (h : script (.list (parts ++ [.list (.symbol "want" :: ms)])) ρ = some es)
    (hm : .text message ∈ ms) : .want message ∈ es := by
  obtain ⟨es₁, es₂, h₁, -, rfl⟩ := join_eq_some h
  refine mem_append_left _ ?_
  obtain rfl := Option.some_inj.mp h₁
  have hhead : ρ.isLined ((parts ++ [Form.list (.symbol "want" :: ms)]).map look) = true := by
    cases parts with
    | nil => exact absurd rfl hne
    | cons first rest => cases ρ <;> exact hlined
  have hlast : isAnnotated ((parts ++ [Form.list (.symbol "want" :: ms)]).map look) = true := by
    rw [map_append]
    exact (isAnnotated_concat (by simpa using hne) _).trans (beq_self_eq_true _)
  rw [lead, if_pos hhead, if_pos hlast, getLast?_concat]
  refine mem_cons_of_mem _ (mem_map_of_mem (mem_filterMap.mpr ⟨_, hm, rfl⟩))

/-! ## Descriptions -/

lemma isSome_all {forms : List Form} : (Script.all (forms.map (script · .item))).isSome = true ↔
    ∀ form ∈ forms, Accepts form .item := by
  induction forms with
  | nil => exact iff_of_true rfl nofun
  | cons form forms ih =>
    rw [map_cons, Script.all, foldr_cons, isSome_join, forall_mem_cons, ← ih, Script.all, Accepts]

/-- **A description is accepted if it has a script**, and its messages are those of the script. -/
lemma ofForms_script (file : String) (forms : List Form) :
    match Script.all (forms.map (script · .item)) with
    | none => ∃ e, File.ofForms file forms = .error e
    | some es => ∃ f, File.ofForms file forms = .ok (f, noted file 0 es) := by
  have hfollows := follows_items forms
  cases hs : Script.all (forms.map (script · .item)) with
  | none =>
    rw [hs] at hfollows
    obtain ⟨e, he⟩ := hfollows { file := file }
    exact ⟨e, by rw [File.ofForms, he]; rfl⟩
  | some es =>
    rw [hs] at hfollows
    obtain ⟨items, c, hrun, hplayed⟩ := hfollows { file := file }
    refine ⟨File.ofItems file items, ?_⟩
    rw [File.ofForms, hrun]
    show Except.ok (File.ofItems file items, c.expectations) = _
    rw [hplayed.expectations]
    rfl

lemma ofForms_of_script (file : String) {forms : List Form} {es : List Sign}
    (h : Script.all (forms.map (script · .item)) = some es) :
    ∃ f, File.ofForms file forms = .ok (f, noted file 0 es) := by
  have hscript := ofForms_script file forms
  rwa [h] at hscript

lemma ofForms_ok_iff (file : String) (forms : List Form) :
    (∃ built, File.ofForms file forms = .ok built) ↔ ∀ form ∈ forms, Accepts form .item := by
  have hscript := ofForms_script file forms
  rw [← isSome_all]
  cases hs : Script.all (forms.map (script · .item)) with
  | none =>
    rw [hs] at hscript
    obtain ⟨e, he⟩ := hscript
    refine iff_of_false ?_ nofun
    rintro ⟨built, hbuilt⟩
    cases he.symm.trans hbuilt
  | some signs =>
    obtain ⟨f, hf⟩ := ofForms_of_script file hs
    exact iff_of_true ⟨_, hf⟩ rfl

lemma ofForms_error_iff (file : String) (forms : List Form) :
    (∃ e, File.ofForms file forms = .error e) ↔ ¬∀ form ∈ forms, Accepts form .item := by
  rw [← ofForms_ok_iff file]
  cases File.ofForms file forms with
  | error e => exact iff_of_true ⟨e, rfl⟩ nofun
  | ok built => exact iff_of_false nofun fun h => h ⟨built, rfl⟩

/-- A description with one form changed. -/
lemma accepts_modify {forms : List Form} {form : Form} {g : Form → Form}
    (h : ∀ form ∈ forms, Accepts form .item)
    (hform : forms[i]? = some form) : (∀ form ∈ forms.modify i g, Accepts form .item) ↔
      Accepts (g form) .item := by
  rw [modify_eq_set, hform]
  show (∀ form' ∈ forms.set i (g form), _) ↔ _
  constructor
  · intro hall
    exact hall _ (mem_set (List.getElem?_eq_some_iff.mp hform).1 _)
  · intro hg form' hform'
    rcases mem_or_eq_of_mem_set hform' with hmem | rfl
    · exact h form' hmem
    · exact hg

/-- **What is read of a description.**

A description is accepted if and only if every form stands in its role.  If it is accepted, then
something meaningless in the place of any part makes it refused if and only if the part is read,
that is, if it is neither an operand that is ignored, nor inside of one, nor an annotation that
leaves room for one.  And every message at the end of a form with a line of its own is recorded. -/
theorem replaced_refused_iff (file : String) (forms : List Form) :
    ((∃ built, File.ofForms file forms = .ok built) ↔ ∀ form ∈ forms, Accepts form .item) ∧
      ∀ f es, File.ofForms file forms = .ok (f, es) →
        ∀ (i : Nat) (form : Form), forms[i]? = some form →
        (∀ p part x, subform? p form = some part →
          ((∃ e, File.ofForms file (forms.modify i (replace (.quoted x) p)) = .error e) ↔
            reads p form .item = true)) ∧
        ∀ p ρ parts ms message, roleAt p form .item = some ρ → ρ.isLined (parts.map look) = true →
          parts ≠ [] →
          subform? p form = some (.list (parts ++ [.list (.symbol "want" :: ms)])) →
            .text message ∈ ms →
          ∃ line, ⟨file, line, message⟩ ∈ es := by
  refine ⟨ofForms_ok_iff file forms, fun f es hbuilt i form hform => ⟨?_, ?_⟩⟩
  · intro p part x hpart
    have hall := (ofForms_ok_iff file forms).mp ⟨_, hbuilt⟩
    have haccepts : Accepts form .item := hall form (List.mem_of_getElem? hform)
    rw [ofForms_error_iff, accepts_modify hall hform,
      accepts_replace p haccepts (Option.isSome_of_eq_some hpart) fun _ => nofun, Bool.not_eq_false]
  · intro p ρ parts ms message hρ hlined hne hpart hm
    obtain ⟨signs, hs⟩ :=
      Option.isSome_iff_exists.mp (isSome_all.mpr ((ofForms_ok_iff file forms).mp ⟨_, hbuilt⟩))
    obtain ⟨f', hf⟩ := ofForms_of_script file hs
    cases hf.symm.trans hbuilt
    obtain ⟨hi, -⟩ := List.getElem?_eq_some_iff.mp hform
    rw [← scriptAll_replicate] at hs
    obtain ⟨_, hitem, hsub⟩ := signs_item hs hform (List.getElem?_replicate_of_lt hi)
    obtain ⟨_, hsigns, hsub'⟩ := signs_part hitem hρ hpart
    exact mem_noted (hsub (hsub' (wants_signs hne hlined hsigns hm)))

/-- In `(define x 1 (want "m"))` the name is read and the annotation is not: anything else may stand
in its place. -/
theorem replaced_refused_define :
    let forms : List Form := [.list [.symbol "func", .symbol "f", .list [], .list [],
      .list [.symbol "define", .symbol "x", .integer 1, .list [.symbol "want", .text "m"]]]]
    (∃ e, File.ofForms "u" (forms.modify 0 (replace (.quoted (.symbol "x")) [4, 1])) = .error e) ∧
      (¬∃ e, File.ofForms "u" (forms.modify 0 (replace (.quoted (.symbol "x")) [4, 3])) =
        .error e) ∧
      ∃ f es line, File.ofForms "u" forms = .ok (f, es) ∧ ⟨"u", line, "m"⟩ ∈ es := by
  intro forms
  have haccepted : ∀ form ∈ forms, Accepts form .item := by
    rintro form hform
    rw [List.mem_singleton.mp hform, Accepts]
    decide
  obtain ⟨⟨f, es⟩, hbuilt⟩ := (replaced_refused_iff "u" forms).1.mpr haccepted
  obtain ⟨hread, hnoted⟩ := (replaced_refused_iff "u" forms).2 f es hbuilt 0 _ rfl
  refine ⟨(hread [4, 1] _ _ rfl).mpr (by decide), fun h => ?_, f, es, ?_⟩
  · have := (hread [4, 3] _ _ rfl).mp h
    revert this
    decide
  · obtain ⟨line, hline⟩ :=
      hnoted [4] .stmt [.symbol "define", .symbol "x", .integer 1] [.text "m"] "m"
      (by decide) rfl nofun rfl List.mem_cons_self
    exact ⟨line, hbuilt, hline⟩

/-- The second operand of `(package p q)` is ignored, and so is the annotation in
`(if (init (inc i (want "m"))) c (block))`. -/
theorem operand_ignored :
    let forms : List Form :=
      [.list [.symbol "package", .symbol "p", .symbol "q"],
        .list [.symbol "func", .symbol "f", .list [], .list [],
      .list
        [.symbol "if", .list
          [.symbol "init", .list [.symbol "inc", .symbol "i", .list [.symbol "want", .text "m"]]],
        .symbol "c", .list [.symbol "block"]]]]
    (∃ f, File.ofForms "u" forms = .ok (f, [])) ∧
      (∃ f, File.ofForms "u" (forms.modify 0 (replace (.quoted (.symbol "x")) [2])) = .ok (f, [])) ∧
      ∃ f, File.ofForms "u" (forms.modify 1 (replace (.quoted (.symbol "x")) [4, 1, 1, 2, 1])) =
          .ok (f, []) :=
  have hlines : ∀ {forms}, Script.all (forms.map (script · .item)) = some [.line, .line, .line] →
      ∃ f, File.ofForms "u" forms = .ok (f, []) := ofForms_of_script "u"
  ⟨hlines (by decide), hlines (by decide), hlines (by decide)⟩

end Recast.Surface
