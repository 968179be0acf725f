import Mathlib.Data.Set.Basic
import Recast.Proofs.Types.Alike

/-!
# Identity of types

Types are compared in three ways: by being one and the same, by their declarations, and by how they
are built.  Together that is an equivalence on the types that are not invalid, and no query can tell
identical types apart.

**Stocks.**  Whether two types are one and the same is told by numbers, so it matters that the
numbers are not used twice.  A `Stock` has the types of one run.  What is built in a run has a
number of its own, and with a type there are its parts and all that declarations stand for.

**One case for all.**  A type that is built from others is an outline and a list of parts.  Types
are identical if they are one and the same, or if they have one outline and identical parts
(`identical_iff`), so no proof below goes through the kinds of types again.

* `Stock.identical_trans` — identity is transitive in a stock.
* `Stock.identical_respected` — **identity is a partial equivalence that every query respects**.
-/

namespace Recast.Ty

open List

/-! ## Outlines and parts -/

/-- A type that is built from others. -/
def isCompound : Ty → Bool
  | .invalid | .basic _ | .named .. => false
  | _ => true

/-- The types from which a type is built, as far as they are there. -/
def parts : Ty → List (Option Ty)
  | .pointer _ elem | .slice _ elem | .array _ elem _ => [elem]
  | .struct _ fields => fields.map Member.type
  | .func _ params results => params ++ results
  | _ => []

/-- A field without its type. -/
def untypedMember (f : Member Ty) : Member Ty := { f with type := none }

/-- A type without its number and its parts. -/
def outline : Ty → Ty
  | .pointer .. => .pointer 0 none
  | .slice .. => .slice 0 none
  | .array _ _ length => .array 0 none length
  | .struct _ fields => .struct 0 (fields.map untypedMember)
  | .func _ params results => .func 0 (replicate params.length none) (replicate results.length none)
  | t => t

lemma sizeOf_lt_of_mem_parts {t u : Ty} (h : some u ∈ t.parts) : sizeOf u < sizeOf t := by
  have hsome : sizeOf (some u) = 1 + sizeOf u := rfl
  cases t with
  | pointer s a | slice s a | array s a n =>
    cases mem_singleton.mp h
    simp only [pointer.sizeOf_spec, slice.sizeOf_spec, array.sizeOf_spec]
    omega
  | struct s fields =>
    obtain ⟨⟨name, type, embedded⟩, hf, rfl⟩ := mem_map.mp h
    have hfield := sizeOf_lt_of_mem hf
    simp only [struct.sizeOf_spec, Member.mk.sizeOf_spec] at hfield ⊢
    omega
  | func s params results =>
    simp only [func.sizeOf_spec]
    rcases mem_append.mp h with h | h
    · have := sizeOf_lt_of_mem h
      omega
    · have := sizeOf_lt_of_mem h
      omega
  | _ => cases h

/-- What is true of a type if it is true of its parts is true of all types. -/
@[elab_as_elim]
lemma induction_parts {P : Ty → Prop} (built : ∀ t, (∀ u, some u ∈ t.parts → P u) → P t) (t : Ty) :
    P t :=
  built t fun u _ => induction_parts built u
termination_by sizeOf t
decreasing_by exact sizeOf_lt_of_mem_parts (by assumption)

/-! ## Identity, part by part -/

/-- Both types are there, and identical. -/
inductive IdenticalParts : Option Ty → Option Ty → Prop where
  | mk {a b : Ty} : a.identical b = true → IdenticalParts (some a) (some b)

lemma identicalOption_iff {a b : Option Ty} : identicalOption a b = true ↔ IdenticalParts a b := by
  constructor
  · intro h
    rw [identicalOption.eq_def] at h
    split at h
    · exact ⟨h⟩
    · cases h
  · rintro ⟨h⟩
    rwa [identicalOption]

lemma identicalAll_iff {as bs : List (Option Ty)} : identicalAll as bs = true ↔
    Forall₂ IdenticalParts as bs := by
  induction as generalizing bs with
  | nil => cases bs <;> simp [identicalAll]
  | cons a as ih => cases bs <;> simp [identicalAll, identicalOption_iff, ih]

lemma identicalFields_iff {fs gs : List (Member Ty)} : identicalFields fs gs = true ↔
    fs.map untypedMember = gs.map untypedMember ∧
    Forall₂ IdenticalParts (fs.map Member.type) (gs.map Member.type) := by
  induction fs generalizing gs with
  | nil => cases gs <;> simp [identicalFields]
  | cons f fs ih =>
    obtain ⟨name, type, embedded⟩ := f
    cases gs with
    | nil => simp [identicalFields]
    | cons g gs =>
      simp only [identicalFields, Bool.and_eq_true, beq_iff_eq, ih, map_cons,
        List.cons.injEq, untypedMember,
        Member.mk.injEq, forall₂_cons, identicalOption_iff, true_and]
      tauto

/-- Lists of the same lengths are related one behind the other exactly if each is. -/
lemma forall₂_append_iff {R : Option Ty → Option Ty → Prop} {ps qs rs ss : List (Option Ty)}
    (h : ps.length = qs.length) :
    Forall₂ R (ps ++ rs) (qs ++ ss) ↔ Forall₂ R ps qs ∧ Forall₂ R rs ss := by
  induction ps generalizing qs with
  | nil =>
    cases qs with
    | nil => simp
    | cons q qs => cases h
  | cons p ps ih =>
    cases qs with
    | nil => cases h
    | cons q qs => simp [ih (Nat.succ.inj h), and_assoc]

/-- **Identical types** are one and the same, or have one outline and identical parts. -/
lemma identical_iff {a b : Ty} : a.identical b = true ↔ (a.same b = true ∧ a.isInvalid = false) ∨
    (a.isCompound = true ∧ a.outline = b.outline ∧ Forall₂ IdenticalParts a.parts b.parts) := by
  have hfunc : ∀ {ps qs rs ss : List (Option Ty)},
    (identicalAll ps qs && identicalAll rs ss) = true ↔
      (ps.length = qs.length ∧ rs.length = ss.length) ∧
      Forall₂ IdenticalParts (ps ++ rs) (qs ++ ss) := by
    intro ps qs rs ss
    rw [Bool.and_eq_true, identicalAll_iff, identicalAll_iff]
    constructor
    · rintro ⟨hp, hr⟩
      exact ⟨⟨hp.length_eq, hr.length_eq⟩, (forall₂_append_iff hp.length_eq).mpr ⟨hp, hr⟩⟩
    · rintro ⟨⟨hp, -⟩, h⟩
      exact (forall₂_append_iff hp).mp h
  cases a <;> cases b <;>
    simp [identical, same, isInvalid, isCompound, outline, parts, identicalOption_iff,
      identicalFields_iff, ← hfunc]

lemma same_comm (a b : Ty) : a.same b = b.same a := by
  cases a <;> cases b <;> simp [same, Bool.beq_comm]

/-! ## An equivalence -/

lemma identical_self (t : Ty) : t.identical t = !t.isInvalid := by
  cases t <;> simp [identical, isInvalid]

/-- A relation between parts that follows for each of them. -/
lemma forall₂_of_mem {R S : Option Ty → Option Ty → Prop}
    {as bs : List (Option Ty)} (h : Forall₂ R as bs)
    (hRS : ∀ a ∈ as, ∀ b ∈ bs, R a b → S a b) : Forall₂ S as bs := by
  induction h with
  | nil => exact .nil
  | cons hab _ ih =>
    refine .cons (hRS _ (.head _) _ (.head _) hab) (ih fun a ha b hb => ?_)
    exact hRS a (mem_cons_of_mem _ ha) b (mem_cons_of_mem _ hb)

lemma isCompound_outline (t : Ty) : t.outline.isCompound = t.isCompound := by
  cases t <;> rfl

lemma identical_symm {a b : Ty} (h : a.identical b = true) : b.identical a = true := by
  induction a using induction_parts generalizing b with
  | built a ih =>
    rcases identical_iff.mp h with ⟨hsame, hvalid⟩ | ⟨hcompound, houtline, hparts⟩
    · refine identical_iff.mpr (.inl ⟨same_comm a b ▸ hsame, ?_⟩)
      rw [← hvalid]
      cases a <;> cases b <;> first | rfl | cases hsame
    · refine identical_iff.mpr (.inr ⟨?_, houtline.symm, ?_⟩)
      · rw [← isCompound_outline, ← houtline, isCompound_outline, hcompound]
      · refine (forall₂_of_mem (S := flip IdenticalParts) hparts fun p hp q _ hpq => ?_).flip
        obtain ⟨hpq⟩ := hpq
        exact ⟨ih _ hp hpq⟩

/-! ## Stocks -/

/-- **The types of one run.**  No two of them are one and the same unless they are equal.  With a
type there are its parts, and what declarations stand for is there too. -/
structure Stock where
  env : Underlying
  types : Set Ty
  parts : ∀ {t u}, t ∈ types → some u ∈ t.parts → u ∈ types
  underlying : ∀ {d t}, env.find? d = some t → t ∈ types
  unique : ∀ {t u}, t ∈ types → u ∈ types → t.same u = true → t = u

namespace Stock

variable (S : Stock) {a b c : Ty}

/-- Two types that are identical are equal, or have one outline and identical parts. -/
lemma eq_or_alike (ha : a ∈ S.types) (hb : b ∈ S.types) (h : a.identical b = true) :
    a = b ∨
    (a.isCompound = true ∧ a.outline = b.outline ∧ Forall₂ IdenticalParts a.parts b.parts) :=
  (identical_iff.mp h).imp_left fun hsame => S.unique ha hb hsame.1

/-- **Identity is transitive.** -/
lemma identical_trans (ha : a ∈ S.types) (hb : b ∈ S.types) (hc : c ∈ S.types)
    (hab : a.identical b = true) (hbc : b.identical c = true) : a.identical c = true := by
  induction a using induction_parts generalizing b c with
  | built a ih =>
    rcases S.eq_or_alike ha hb hab with rfl | ⟨hcompound, houtline, hparts⟩
    · exact hbc
    · rcases S.eq_or_alike hb hc hbc with rfl | ⟨-, houtline', hparts'⟩
      · exact hab
      · refine identical_iff.mpr (.inr ⟨hcompound, houtline.trans houtline', ?_⟩)
        have htrans : ∀ {as bs cs : List (Option Ty)}, (∀ p ∈ as, p ∈ a.parts) →
          (∀ q ∈ bs, q ∈ b.parts) →
            (∀ r ∈ cs, r ∈ c.parts) → Forall₂ IdenticalParts as bs → Forall₂ IdenticalParts bs cs →
            Forall₂ IdenticalParts as cs := by
          intro as bs cs has hbs hcs h
          induction h generalizing cs with
          | nil =>
            intro h'
            exact h'
          | cons hpq _ ihs =>
            rintro (_ | ⟨hqr, hrest⟩)
            simp only [forall_mem_cons] at has hbs hcs
            refine .cons ?_ (ihs has.2 hbs.2 hcs.2 hrest)
            obtain ⟨hpq⟩ := hpq
            obtain ⟨hqr⟩ := hqr
            exact ⟨ih _ has.1 (S.parts ha has.1) (S.parts hb hbs.1) (S.parts hc hcs.1) hpq hqr⟩
        exact htrans (fun _ h => h) (fun _ h => h) (fun _ h => h) hparts hparts'

/-! ## Queries -/

/-- Types that differ in serial numbers only. -/
def plainly : Matching := ⟨fun _ _ => True, Eq⟩

lemma matches_self (env : Underlying) : Matches plainly env env := by
  rintro d _ rfl
  exact alike_selfOption (fun _ => trivial) (fun _ => rfl) _

lemma forall₂_memberRel {μ : Matching} {fs gs : List (Member Ty)}
    (h : fs.map untypedMember = gs.map untypedMember)
    (htypes : Forall₂ (Option.Rel (Alike μ)) (fs.map Member.type) (gs.map Member.type)) :
    Forall₂ (MemberRel (Alike μ)) fs gs := by
  induction fs generalizing gs with
  | nil =>
    cases gs with
    | nil => exact .nil
    | cons g gs => cases h
  | cons f fs ih =>
    cases gs with
    | nil => cases h
    | cons g gs =>
      obtain ⟨name, type, embedded⟩ := f
      obtain ⟨name', type', embedded'⟩ := g
      obtain ⟨hhead, htail⟩ := List.cons.inj h
      obtain ⟨rfl, -, rfl⟩ := Member.mk.inj hhead
      obtain ⟨htype, hrest⟩ := forall₂_cons.mp htypes
      exact .cons ⟨htype⟩ (ih htail hrest)

/-- Types with one outline and parts that are alike are alike. -/
lemma alike_of_outline (hcompound : a.isCompound = true) (h : a.outline = b.outline)
    (hparts : Forall₂ (Option.Rel (Alike plainly)) a.parts b.parts) : Alike plainly a b := by
  cases a with
  | invalid | basic k | named d name package => cases hcompound
  | pointer s x => cases b <;> cases h; exact .pointer trivial (forall₂_cons.mp hparts).1
  | slice s x => cases b <;> cases h; exact .slice trivial (forall₂_cons.mp hparts).1
  | array s x n => cases b <;> cases h; exact .array trivial (forall₂_cons.mp hparts).1
  | struct s fs =>
    cases b with
    | struct t gs => exact .struct trivial (forall₂_memberRel (Ty.struct.inj h).2 hparts)
    | _ => cases h
  | func s ps rs =>
    cases b with
    | func t qs ss =>
      obtain ⟨-, hlength, -⟩ := Ty.func.inj h
      obtain ⟨hp, hr⟩ :=
        (forall₂_append_iff (by simpa using congrArg List.length hlength)).mp hparts
      exact .func trivial hp hr
    | _ => cases h

/-- **Identical types differ in serial numbers only.** -/
lemma alike (ha : a ∈ S.types) (hb : b ∈ S.types) (h : a.identical b = true) :
    Alike plainly a b := by
  induction a using induction_parts generalizing b with
  | built a ih =>
    rcases S.eq_or_alike ha hb h with rfl | ⟨hcompound, houtline, hparts⟩
    · exact alike_self (fun _ => trivial) (fun _ => rfl) a
    · refine alike_of_outline hcompound houtline (forall₂_of_mem hparts fun p hp q hq hpq => ?_)
      obtain ⟨hpq⟩ := hpq
      exact .some (ih _ hp (S.parts ha hp) (S.parts hb hq) hpq)

lemma underlying_mem (ha : a ∈ S.types) : a.underlying S.env ∈ S.types ∨
    a.underlying S.env = .invalid := by
  cases a with
  | named d name package =>
    rw [Ty.underlying]
    cases hd : S.env.find? d with
    | none => exact .inr rfl
    | some t => exact .inl (S.underlying hd)
  | _ => exact .inl ha

lemma identical_invalid (t : Ty) : t.identical .invalid = false := by
  cases t <;> simp [identical]

/-- Identical types can take each other's place on the left of a comparison. -/
lemma identical_congr_left (ha : a ∈ S.types) (hb : b ∈ S.types) (hc : c ∈ S.types ∨ c = .invalid)
    (h : a.identical b = true) :
    a.identical c = b.identical c := by
  rcases hc with hc | rfl
  · exact Bool.eq_iff_iff.mpr
      ⟨S.identical_trans hb ha hc (identical_symm h), S.identical_trans ha hb hc h⟩
  · rw [identical_invalid, identical_invalid]

lemma identical_comm (a b : Ty) : a.identical b = b.identical a :=
  Bool.eq_iff_iff.mpr ⟨identical_symm, identical_symm⟩

/-- The shape of a comparison does not depend on which of two types that are alike is compared. -/
lemma stallsOn_eq (h : Alike plainly a b) (shape : Shape) :
    shape.stallsOn b = shape.stallsOn a := by
  have hstalls : ∀ {fs gs : List (Member Ty)}, Forall₂ (MemberRel (Alike plainly)) fs gs → ∀ specs,
      Shape.stalls specs gs = Shape.stalls specs fs := by
    intro fs gs h
    induction h with
    | nil =>
      intro specs
      cases specs <;> rfl
    | cons hf _ ih =>
      rintro (_ | ⟨⟨name, kind⟩, specs⟩)
      · rfl
      · obtain ⟨ht⟩ := hf
        rw [Shape.stalls, Shape.stalls, ih specs]
        cases ht with
        | none => rfl
        | some ht => simp only [Option.any_some, Option.isNone_some, ht.isBasic]
  cases h with
  | struct _ h => rw [Shape.stallsOn, Shape.stallsOn, hstalls h, h.length_eq]
  | _ => rfl

/-- **No query tells two types apart.** -/
structure Interchangeable (S : Stock) (a b : Ty) : Prop where
  text : ∀ depth, a.textAt depth = b.textAt depth
  stallsOn : ∀ shape : Shape, shape.stallsOn (a.target S.env) = shape.stallsOn (b.target S.env)
  headerShape : a.headerShape? S.env = b.headerShape? S.env
  isHeaderShaped : a.isHeaderShaped S.env = b.isHeaderShaped S.env
  isGenuineReference : a.isGenuineReference S.env = b.isGenuineReference S.env
  platformFields : a.platformFields S.env = b.platformFields S.env
  identicalLeft : ∀ c ∈ S.types, a.identical c = b.identical c
  identicalRight : ∀ c ∈ S.types, c.identical a = c.identical b
  assignableFrom : ∀ c ∈ S.types, a.assignable S.env c = b.assignable S.env c
  assignableTo : ∀ c ∈ S.types, c.assignable S.env a = c.assignable S.env b

/-- To what a value of a type that is built from others can be assigned. -/
lemma assignable_compound {env : Underlying} (ha : a.isCompound = true) (c : Ty) :
    a.assignable env c = (!c.isInvalid && (a.identical c || a.identical (c.underlying env))) := by
  cases a with
  | invalid | basic k | named d name package => cases ha
  | _ => cases c <;> simp [assignable, isInvalid, isNamed, Ty.underlying]

/-- What can be assigned to a variable of a type that is built from others. -/
lemma assignable_to_compound {env : Underlying} (ha : a.isCompound = true) (c : Ty) :
    c.assignable env a =
    (!c.isInvalid && (c.identical a || (c.underlying env).identical a || c.isBasic [.untypedNil] &&
      a.outline.acceptsNil)) := by
  cases a with
  | invalid | basic k | named d name package => cases ha
  | _ =>
    cases c with
    | basic k =>
      cases k <;> simp [assignable, isInvalid, isNamed, Ty.underlying, acceptsNil, outline, isBasic]
    | _ => simp [assignable, isInvalid, isNamed, Ty.underlying, acceptsNil, outline, isBasic]

/-- Identical types are interchangeable. -/
lemma interchangeable (ha : a ∈ S.types) (hb : b ∈ S.types) (h : a.identical b = true) :
    S.Interchangeable a b := by
  have halike := S.alike ha hb h
  have htarget := halike.target (matches_self S.env)
  have hleft : ∀ c, c ∈ S.types ∨ c = .invalid → a.identical c = b.identical c :=
    fun c hc => S.identical_congr_left ha hb hc h
  have hright : ∀ c, c ∈ S.types ∨ c = .invalid → c.identical a = c.identical b := fun c hc => by
    rw [identical_comm c a, identical_comm c b, hleft c hc]
  have hassignable : ∀ c ∈ S.types, a.assignable S.env c = b.assignable S.env c ∧
      c.assignable S.env a = c.assignable S.env b := by
    intro c hc
    rcases S.eq_or_alike ha hb h with rfl | ⟨hcompound, houtline, -⟩
    · exact ⟨rfl, rfl⟩
    · have hcompound' : b.isCompound =
        true := by rw [← isCompound_outline, ← houtline, isCompound_outline, hcompound]
      have hu := S.underlying_mem hc
      rw [assignable_compound hcompound, assignable_compound hcompound',
        assignable_to_compound hcompound,
        assignable_to_compound hcompound', hleft c (.inl hc), hleft _ hu, hright c (.inl hc),
        hright _ hu, houtline]
      exact ⟨rfl, rfl⟩
  exact {
    text := fun depth => (halike.textAt depth).symm
    stallsOn := fun shape => (stallsOn_eq htarget shape).symm
    headerShape := by
      rw [headerShape?, headerShape?]
      simp only [htarget.isShapeOf]
    isHeaderShaped := (halike.isHeaderShaped (matches_self S.env)).symm
    isGenuineReference := (halike.isGenuineReference (matches_self S.env)).symm
    platformFields := (halike.platformFields (matches_self S.env)).symm
    identicalLeft := fun c hc => hleft c (.inl hc)
    identicalRight := fun c hc => hright c (.inl hc)
    assignableFrom := fun c hc => (hassignable c hc).1
    assignableTo := fun c hc => (hassignable c hc).2 }

/-- **Identity of types is a partial equivalence that every query respects.**  Among the types of
one run, recursive ones included, it is symmetric and transitive, a type is identical to itself
unless it is invalid, and identical types are interchangeable. -/
theorem identical_respected (S : Stock) :
    (∀ a ∈ S.types, a.identical a = !a.isInvalid) ∧
    (∀ a ∈ S.types, ∀ b ∈ S.types, a.identical b = b.identical a) ∧
    (∀ a ∈ S.types, ∀ b ∈ S.types, ∀ c ∈ S.types, a.identical b = true → b.identical c = true →
      a.identical c = true) ∧
    ∀ a ∈ S.types, ∀ b ∈ S.types, a.identical b = true → S.Interchangeable a b :=
  ⟨fun a _ => identical_self a, fun a _ b _ => identical_comm a b, fun _ ha _ hb _ hc =>
    S.identical_trans ha hb hc, fun _ ha _ hb => S.interchangeable ha hb⟩

/-- A list that refers to itself, and two structs that are built alike.

    type List struct { next *List }
-/
def listSample : Stock where
  env :=
    Table.ofList [(0, .struct 1 [⟨"next", some (.pointer 2 (some (.named 0 "List" "p"))), false⟩])]
  types :=
    {t | t ∈ [.named 0 "List" "p", .pointer 2 (some (.named 0 "List" "p")),
      .pointer 3 (some (.named 0 "List" "p")),
    .struct 1 [⟨"next", some (.pointer 2 (some (.named 0 "List" "p"))), false⟩],
    .struct 4 [⟨"next", some (.pointer 3 (some (.named 0 "List" "p"))), false⟩]]}
  parts := by
    intro t u ht hu
    simp only [Set.mem_ofPred_eq, mem_cons, not_mem_nil, or_false] at ht ⊢
    rcases ht with rfl | rfl | rfl | rfl | rfl <;> simp [Ty.parts] at hu <;> simp [hu]
  underlying := by
    intro d t hd
    simp [Table.ofList, Table.find?_insert] at hd
    simp [← hd.2]
  unique := by
    intro t u ht hu h
    simp only [Set.mem_ofPred_eq, mem_cons, not_mem_nil, or_false] at ht hu
    rcases ht with rfl | rfl | rfl | rfl | rfl <;>
      rcases hu with rfl | rfl | rfl | rfl | rfl <;> first | rfl | cases h

/-- The two structs are interchangeable. -/
theorem identical_respected_list :
    let a : Ty := .struct 1 [⟨"next", some (.pointer 2 (some (.named 0 "List" "p"))), false⟩]
    let b : Ty := .struct 4 [⟨"next", some (.pointer 3 (some (.named 0 "List" "p"))), false⟩]
    a.identical b = true ∧ listSample.Interchangeable a b ∧
        (b.identical a = true → a.identical a = true) := by
  intro a b
  have ha : a ∈ listSample.types := by simp [listSample, a]
  have hb : b ∈ listSample.types := by simp [listSample, b]
  have hab : a.identical b = true := by simp [a, b, identical, identicalFields, identicalOption]
  obtain ⟨-, -, htrans, hinter⟩ := identical_respected listSample
  exact ⟨hab, hinter a ha b hb hab, htrans a ha b hb a ha hab⟩

end Stock

end Recast.Ty
