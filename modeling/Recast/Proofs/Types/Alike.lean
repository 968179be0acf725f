import Mathlib.Data.List.Forall2
import Mathlib.Data.Option.Basic
import Recast.Names.Resolve
import Recast.Types.Shape

/-!
# Types that are alike

Two runs of the resolver number the types they build and the declarations they meet each in its own
way.  Types of two runs are *alike* if they differ in those numbers only, and in these as a
`Matching` allows.

**What alike types have in common.**  Everything the analyses ask of a type: what it stands for,
points to and has as fields, what shape it has and how it is written.  For what a type stands for,
the tables of declarations have to match too (`Matches`).
-/

namespace Recast.Ty

open List

/-- Which numbers of one run may take the place of which numbers of another. -/
structure Matching where
  serial : Nat → Nat → Prop
  decl : Nat → Nat → Prop

/-- No two declarations match the same one. -/
def Matching.OneToOne (μ : Matching) : Prop :=
  ∀ {d d' e e'}, μ.decl d d' → μ.decl e e' → (d = e ↔ d' = e')

/-- Two fields differ in their types only, and these are related. -/
inductive MemberRel (A : Ty → Ty → Prop) : Member Ty → Member Ty → Prop where
  | mk {name : String} {type type' : Option Ty} {embedded : Bool} :
      Option.Rel A type type' → MemberRel A ⟨name, type, embedded⟩ ⟨name, type', embedded⟩

/-- Two types differ in numbers that match, and in nothing else. -/
inductive Alike (μ : Matching) : Ty → Ty → Prop where
  | invalid : Alike μ .invalid .invalid
  | basic (k : Basic) : Alike μ (.basic k) (.basic k)
  | pointer {s s' : Nat} {a a' : Option Ty} :
      μ.serial s s' → Option.Rel (Alike μ) a a' → Alike μ (.pointer s a) (.pointer s' a')
  | slice {s s' : Nat} {a a' : Option Ty} :
      μ.serial s s' → Option.Rel (Alike μ) a a' → Alike μ (.slice s a) (.slice s' a')
  | array {s s' : Nat} {a a' : Option Ty} {n : Int} :
      μ.serial s s' → Option.Rel (Alike μ) a a' → Alike μ (.array s a n) (.array s' a' n)
  | struct {s s' : Nat} {fs fs' : List (Member Ty)} :
      μ.serial s s' → Forall₂ (MemberRel (Alike μ)) fs fs' → Alike μ (.struct s fs) (.struct s' fs')
  | named {d d' : Nat} {name package : String} :
      μ.decl d d' → Alike μ (.named d name package) (.named d' name package)
  | func {s s' : Nat} {ps ps' rs rs' : List (Option Ty)} :
      μ.serial s s' → Forall₂ (Option.Rel (Alike μ)) ps ps' →
        Forall₂ (Option.Rel (Alike μ)) rs rs' →
        Alike μ (.func s ps rs) (.func s' ps' rs')

/-- Declarations that match stand for types that are alike, or for nothing on either side. -/
def Matches (μ : Matching) (env env' : Underlying) : Prop :=
  ∀ d d', μ.decl d d' → Option.Rel (Alike μ) (env.find? d) (env'.find? d')

variable {μ : Matching} {env env' : Underlying} {t t' : Ty}

/-! ## A type and itself -/

mutual

/-- A type is like itself if every number matches itself. -/
theorem alike_self (hs : ∀ k, μ.serial k k) (hd : ∀ k, μ.decl k k) : (t : Ty) → Alike μ t t
  | .invalid => .invalid
  | .basic k => .basic k
  | .pointer s a => .pointer (hs s) (alike_selfOption hs hd a)
  | .slice s a => .slice (hs s) (alike_selfOption hs hd a)
  | .array s a _ => .array (hs s) (alike_selfOption hs hd a)
  | .struct s fs => .struct (hs s) (alike_selfFields hs hd fs)
  | .named d _ _ => .named (hd d)
  | .func s ps rs => .func (hs s) (alike_selfAll hs hd ps) (alike_selfAll hs hd rs)

theorem alike_selfOption (hs : ∀ k, μ.serial k k) (hd : ∀ k, μ.decl k k) :
    (t : Option Ty) → Option.Rel (Alike μ) t t
  | none => .none
  | some t => .some (alike_self hs hd t)

theorem alike_selfAll (hs : ∀ k, μ.serial k k) (hd : ∀ k, μ.decl k k) :
    (ts : List (Option Ty)) → Forall₂ (Option.Rel (Alike μ)) ts ts
  | [] => .nil
  | t :: ts => .cons (alike_selfOption hs hd t) (alike_selfAll hs hd ts)

theorem alike_selfFields (hs : ∀ k, μ.serial k k) (hd : ∀ k, μ.decl k k) :
    (fs : List (Member Ty)) → Forall₂ (MemberRel (Alike μ)) fs fs
  | [] => .nil
  | ⟨_, type, _⟩ :: fs => .cons ⟨alike_selfOption hs hd type⟩ (alike_selfFields hs hd fs)

end

/-! ## Without a difference -/

mutual

/-- Types that do not differ in numbers either are the same. -/
theorem Alike.eq : {t t' : Ty} → Alike ⟨Eq, Eq⟩ t t' → t' = t
  | .invalid, _, .invalid => rfl
  | .basic _, _, .basic _ => rfl
  | .pointer _ a, _, .pointer hs h => by rw [Alike.eqOption h, ← hs]
  | .slice _ a, _, .slice hs h => by rw [Alike.eqOption h, ← hs]
  | .array _ a _, _, .array hs h => by rw [Alike.eqOption h, ← hs]
  | .struct _ fs, _, .struct hs h => by rw [Alike.eqFields h, ← hs]
  | .named .., _, .named hd => by rw [← hd]
  | .func _ ps rs, _, .func hs hp hr => by rw [Alike.eqAll hp, Alike.eqAll hr, ← hs]

theorem Alike.eqOption : {t t' : Option Ty} → Option.Rel (Alike ⟨Eq, Eq⟩) t t' → t' = t
  | none, _, .none => rfl
  | some t, _, .some h => by rw [Alike.eq h]

theorem Alike.eqAll : {ts ts' : List (Option Ty)} →
    Forall₂ (Option.Rel (Alike ⟨Eq, Eq⟩)) ts ts' → ts' = ts
  | [], _, .nil => rfl
  | t :: ts, _, .cons h hs => by rw [Alike.eqOption h, Alike.eqAll hs]

theorem Alike.eqFields : {fs fs' : List (Member Ty)} →
    Forall₂ (MemberRel (Alike ⟨Eq, Eq⟩)) fs fs' → fs' = fs
  | [], _, .nil => rfl
  | ⟨_, type, _⟩ :: fs, _, .cons (.mk h) hs => by rw [Alike.eqOption h, Alike.eqFields hs]

end

/-! ## Text -/

mutual

/-- Types that are alike are written alike. -/
theorem Alike.textAt (depth : Int) : {t t' : Ty} → Alike μ t t' → t'.textAt depth = t.textAt depth
  | .invalid, _, .invalid => rfl
  | .basic _, _, .basic _ => rfl
  | .pointer _ a, _, .pointer _ h => by simp only [Ty.textAt, Alike.optionText (depth + 1) h]
  | .slice _ a, _, .slice _ h => by simp only [Ty.textAt, Alike.optionText (depth + 1) h]
  | .array _ a _, _, .array _ h => by simp only [Ty.textAt, Alike.optionText (depth + 1) h]
  | .struct _ fs, _, .struct _ h => by simp only [Ty.textAt, Alike.fieldTexts (depth + 1) h]
  | .named .., _, .named _ => by simp only [Ty.textAt]
  | .func _ ps rs, _, .func _ hp hr => by
    simp only [Ty.textAt, Alike.texts (depth + 1) hp, Alike.texts (depth + 1) hr, hr.length_eq]

theorem Alike.optionText (depth : Int) : {t t' : Option Ty} → Option.Rel (Alike μ) t t' →
    Ty.optionText depth t' = Ty.optionText depth t
  | none, _, .none => rfl
  | some t, _, .some h => by rw [Ty.optionText, Ty.optionText, Alike.textAt depth h]

theorem Alike.texts (depth : Int) : {ts ts' : List (Option Ty)} →
    Forall₂ (Option.Rel (Alike μ)) ts ts' →
    Ty.texts depth ts' = Ty.texts depth ts
  | [], _, .nil => rfl
  | t :: ts, _, .cons h hs => by
    rw [Ty.texts, Ty.texts, Alike.optionText depth h, Alike.texts depth hs]

theorem Alike.fieldTexts (depth : Int) : {fs fs' : List (Member Ty)} →
    Forall₂ (MemberRel (Alike μ)) fs fs' →
    Ty.fieldTexts depth fs' = Ty.fieldTexts depth fs
  | [], _, .nil => rfl
  | ⟨_, type, _⟩ :: fs, _, .cons (.mk h) hs => by
    rw [Ty.fieldTexts, Ty.fieldTexts, Alike.optionText depth h, Alike.fieldTexts depth hs]

end

/-! ## What the analyses ask of a type -/

namespace Alike

lemma isInvalid (h : Alike μ t t') : t'.isInvalid = t.isInvalid := by
  cases h <;> rfl

lemma isNamed (h : Alike μ t t') : t'.isNamed = t.isNamed := by
  cases h <;> rfl

lemma isBasic (h : Alike μ t t') (kinds : List Basic) : t'.isBasic kinds = t.isBasic kinds := by
  cases h <;> rfl

lemma isUntyped (h : Alike μ t t') : t'.isUntyped = t.isUntyped := by
  cases h <;> rfl

lemma isSequence (h : Alike μ t t') : t'.isSequence = t.isSequence := by
  cases h <;> rfl

lemma text (h : Alike μ t t') : t'.text = t.text := h.textAt 0

lemma elem? (h : Alike μ t t') : Option.Rel (Alike μ) t.elem? t'.elem? := by
  cases h with
  | pointer _ h | slice _ h | array _ h => exact h
  | _ => exact .none

lemma fields (h : Alike μ t t') : Forall₂ (MemberRel (Alike μ)) t.fields t'.fields := by
  cases h with
  | struct _ h => exact h
  | _ => exact .nil

lemma defaulted (h : Alike μ t t') : Alike μ t.defaulted t'.defaulted := by
  cases h with
  | basic k => cases k <;> exact .basic _
  | pointer hs h => exact .pointer hs h
  | slice hs h => exact .slice hs h
  | array hs h => exact .array hs h
  | struct hs h => exact .struct hs h
  | named h => exact .named h
  | func hs hp hr => exact .func hs hp hr
  | invalid => exact .invalid

/-- What is missing on both sides is invalid on both sides. -/
lemma getD {a a' : Option Ty} {d d' : Ty} (h : Option.Rel (Alike μ) a a') (hd : Alike μ d d') :
    Alike μ (a.getD d) (a'.getD d') := by
  cases h with
  | some h => exact h
  | none => exact hd

lemma underlying (henv : Matches μ env env') (h : Alike μ t t') :
    Alike μ (t.underlying env) (t'.underlying env') := by
  cases h with
  | named hd => exact getD (henv _ _ hd) .invalid
  | pointer hs h => exact .pointer hs h
  | slice hs h => exact .slice hs h
  | array hs h => exact .array hs h
  | struct hs h => exact .struct hs h
  | func hs hp hr => exact .func hs hp hr
  | basic k => exact .basic k
  | invalid => exact .invalid

lemma pointee? (henv : Matches μ env env') (h : Alike μ t t') :
    Option.Rel (Alike μ) (t.pointee? env) (t'.pointee? env') := by
  have hu := h.underlying henv
  rw [Ty.pointee?, Ty.pointee?]
  generalize t.underlying env = u, t'.underlying env' = u' at hu
  cases hu with
  | pointer _ h => exact h
  | _ => exact .none

lemma target (henv : Matches μ env env') (h : Alike μ t t') :
    Alike μ (t.target env) (t'.target env') := by
  have hu := h.underlying henv
  rw [Ty.target, Ty.target]
  generalize t.underlying env = u, t'.underlying env' = u' at hu
  cases hu with
  | pointer hs h =>
    cases h with
    | some h => exact h.underlying henv
    | none => exact .pointer hs .none
  | slice hs h => exact .slice hs h
  | array hs h => exact .array hs h
  | struct hs h => exact .struct hs h
  | func hs hp hr => exact .func hs hp hr
  | named h => exact .named h
  | basic k => exact .basic k
  | invalid => exact .invalid

lemma find?_name {fs fs' : List (Member Ty)} (h : Forall₂ (MemberRel (Alike μ)) fs fs')
    (name : String) :
    Option.Rel (MemberRel (Alike μ)) (fs.find? (·.name == name)) (fs'.find? (·.name == name)) := by
  induction h with
  | nil => exact .none
  | cons hf _ ih =>
    cases hf with
    | @mk n type type' embedded h =>
      rw [find?_cons, find?_cons]
      dsimp only
      cases n == name with
      | true => exact .some ⟨h⟩
      | false => exact ih

lemma member? (henv : Matches μ env env') (h : Alike μ t t') (name : String) :
    Option.Rel (MemberRel (Alike μ)) (t.member? env name) (t'.member? env' name) :=
  find?_name (h.target henv).fields name

/-! ## Shapes -/

lemma fit {fs fs' : List (Member Ty)} (h : Forall₂ (MemberRel (Alike μ)) fs fs')
    (specs : List (String × Basic)) : Shape.fit specs fs' = Shape.fit specs fs := by
  induction h generalizing specs with
  | nil => cases specs <;> rfl
  | cons hf _ ih =>
    cases hf with
    | mk h =>
      cases specs with
      | nil => rfl
      | cons spec specs =>
        obtain ⟨name, kind⟩ := spec
        rw [Shape.fit, Shape.fit, ih specs]
        cases h with
        | none => rfl
        | some h => simp only [Option.any_some, h.isBasic]

lemma isShapeOf (h : Alike μ t t') (s : Shape) : s.isShapeOf t' = s.isShapeOf t := by
  cases h with
  | struct _ h => exact fit h s.fields
  | _ => rfl

lemma isHeaderShaped (henv : Matches μ env env') (h : Alike μ t t') :
    t'.isHeaderShaped env' = t.isHeaderShaped env := by
  rw [Ty.isHeaderShaped, Ty.isHeaderShaped, headerShape?, headerShape?]
  simp only [(h.target henv).isShapeOf]

lemma isGenuineReference (henv : Matches μ env env') (h : Alike μ t t') :
    t'.isGenuineReference env' = t.isGenuineReference env := by
  have hp := h.pointee? henv
  rw [Ty.isGenuineReference, Ty.isGenuineReference, h.isHeaderShaped henv]
  generalize t.pointee? env = p, t'.pointee? env' = p' at hp
  cases hp with
  | none => rfl
  | some h => simp only [(h.underlying henv).isSequence]

lemma countP_isPlatformDependent {fs fs' : List (Member Ty)}
    (h : Forall₂ (MemberRel (Alike μ)) fs fs') :
    fs'.countP Member.isPlatformDependent = fs.countP Member.isPlatformDependent := by
  induction h with
  | nil => rfl
  | cons hf _ ih =>
    rw [countP_cons, countP_cons, ih]
    cases hf with
    | mk h =>
      cases h with
      | none => rfl
      | some h => cases h <;> rfl

lemma platformFields (henv : Matches μ env env') (h : Alike μ t t') :
    t'.platformFields env' = t.platformFields env :=
  countP_isPlatformDependent (h.underlying henv).fields

/-! ## What the resolver makes of types -/

lemma embeddedName (henv : Matches μ env env') (h : Alike μ t t') :
    Resolve.embeddedName env' t' = Resolve.embeddedName env t := by
  have hu : Alike μ (if t.isNamed then t else (t.pointee? env).getD t)
      (if t'.isNamed then t' else (t'.pointee? env').getD t') := by
    rw [h.isNamed]
    split
    · exact h
    · exact getD (h.pointee? henv) h
  rw [Resolve.embeddedName, Resolve.embeddedName]
  generalize (if t.isNamed then t else (t.pointee? env).getD t) = u,
    (if t'.isNamed then t' else (t'.pointee? env').getD t') = u' at hu
  cases hu with
  | named h => rfl
  | pointer hs h => exact (Alike.pointer hs h).text
  | slice hs h => exact (Alike.slice hs h).text
  | array hs h => exact (Alike.array hs h).text
  | struct hs h => exact (Alike.struct hs h).text
  | func hs hp hr => exact (Alike.func hs hp hr).text
  | basic k => rfl
  | invalid => rfl

lemma rangeTypes (henv : Matches μ env env') (h : Alike μ t t') :
    Alike μ (Resolve.rangeTypes env t).1 (Resolve.rangeTypes env' t').1 ∧
      Alike μ (Resolve.rangeTypes env t).2 (Resolve.rangeTypes env' t').2 := by
  have hu := h.target henv
  rw [Resolve.rangeTypes, Resolve.rangeTypes]
  generalize t.target env = u, t'.target env' = u' at hu
  cases hu with
  | slice _ h | array _ h => exact ⟨.basic .int, getD h .invalid⟩
  | basic k =>
    dsimp only
    split
    · exact ⟨.basic _, .basic _⟩
    · split
      · exact ⟨(Alike.basic k).defaulted, .invalid⟩
      · exact ⟨.invalid, .invalid⟩
  | _ => exact ⟨.invalid, .invalid⟩

lemma indexed (h : Alike μ t t') : Alike μ (Resolve.indexed t) (Resolve.indexed t') := by
  cases h with
  | slice _ h | array _ h =>
    cases h with
    | some h => exact h
    | none => exact .invalid
  | basic k =>
    show Alike μ (if _ then _ else _) (if _ then _ else _)
    split
    · exact .basic _
    · exact .invalid
  | _ => exact .invalid

lemma elementType (h : Alike μ t t') (i : Nat) :
    Alike μ (Resolve.elementType t i) (Resolve.elementType t' i) := by
  cases h with
  | struct _ h =>
    refine getD ?_ .invalid
    induction h generalizing i with
    | nil => exact .none
    | cons hf _ ih =>
      cases i with
      | zero =>
        cases hf with
        | mk h => exact h
      | succ i => exact ih i
  | pointer _ h | slice _ h | array _ h => exact getD h .invalid
  | _ => exact .invalid

lemma elidedType (henv : Matches μ env env') {a a' : Option Ty} (h : Option.Rel (Alike μ) a a') :
    Alike μ (Resolve.elidedType env a) (Resolve.elidedType env' a') :=
  getD ((getD h .invalid).pointee? henv) (getD h .invalid)

end Alike

/-! ## Tables -/

/-- Completing matching declarations by types that are alike keeps the tables in step, if no number
has two matches. -/
lemma Matches.complete (henv : Matches μ env env') (hone : μ.OneToOne)
    {d d' : Nat} (hd : μ.decl d d') (h : Alike μ t t') :
    Matches μ (env.complete d t) (env'.complete d' t') := by
  intro e e' he
  rw [Underlying.complete, Underlying.complete, Table.find?_insert, Table.find?_insert]
  by_cases h' : d = e
  · rw [if_pos h', if_pos ((hone hd he).mp h')]
    exact .some (h.underlying henv)
  · rw [if_neg h', if_neg fun h'' => h' ((hone hd he).mpr h'')]
    exact henv e e' he

end Recast.Ty
