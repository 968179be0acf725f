import Mathlib.Logic.Relation
import Recast.Checker.StructCast
import Recast.Proofs.Syntax.Numbering
import Recast.Proofs.Types.Alike

/-!
# What the checker for struct casts finds

**Casts.**  `Casts n source type` says what a cast looks like, without taking it apart: `n` is a
call `(*type)(unsafe.Pointer(source))`, where one `&` before the source does not count.  What stands
around the call does not matter, and neither does what stands inside `source` and `type`.

**Mismatches.**  A cast is reported if both sides are structs and their numbers of word-sized fields
differ (`Mismatched`).  Only the declared type of a field counts, so a field of a named type is
never word-sized.

* `found_exactly` — the findings are the mismatched casts in pre-order.
-/

namespace Recast.StructCast

open List
open Ty (Alike Matching)

variable {env env' : Underlying} {info info' : Info} {n n' source source' type type' : Node}
  {t t' u u' : Ty}

/-! ## Casts -/

/-- The name `unsafe.Pointer`. -/
inductive NamesRawPointer : Node → Prop
  | mk {m : Mark} {base name : Ident} (hbase : base.name = "unsafe")
    (hname : name.name = "Pointer") :
      NamesRawPointer (.select m (.ident base) name)

/-- **Casts.**  A call that converts a source to a pointer to a type by way of the raw pointer. -/
inductive Casts : Node → Node → Node → Prop
  | ofAddress {m p s c a : Mark} {fn source type : Node} (hfn : NamesRawPointer fn) :
      Casts (.call m (.paren p (.star s type)) [.call c fn [.unary a "&" source]]) source type
  | ofValue {m p s c : Mark} {fn source type : Node} (hfn : NamesRawPointer fn)
      (hvalue : ∀ a x, source ≠ .unary a "&" x) :
      Casts (.call m (.paren p (.star s type)) [.call c fn [source]]) source type

lemma namesRawPointer_iff {fn : Node} :
    NamesRawPointer fn ↔ fn.isQualified "unsafe" "Pointer" = true := by
  constructor
  · rintro ⟨hbase, hname⟩
    rw [Node.isQualified, hbase, hname]
    rfl
  · intro h
    unfold Node.isQualified at h
    split at h
    · obtain ⟨hbase, hname⟩ := Bool.and_eq_true_iff.mp h
      exact ⟨beq_iff_eq.mp hbase, beq_iff_eq.mp hname⟩
    · cases h

/-- What follows a raw pointer, without its address operator, is the source of a cast. -/
lemma casts_addressed {m p s c : Mark} {fn x : Node} (hfn : NamesRawPointer fn) :
    Casts (.call m (.paren p (.star s type)) [.call c fn [x]]) x.addressed type := by
  unfold Node.addressed
  split
  · rename_i a op y
    split
    · rename_i hop
      rw [beq_iff_eq.mp hop]
      exact .ofAddress hfn
    · rename_i hop
      refine .ofValue hfn fun b z heq => hop ?_
      injection heq with _ hop
      exact beq_iff_eq.mpr hop
  · rename_i hplain
    exact .ofValue hfn fun a y heq => hplain a "&" y heq

lemma addressed_of_value (h : ∀ a x, source ≠ .unary a "&" x) : source.addressed = source := by
  unfold Node.addressed
  split
  · rename_i a op x
    split
    · rename_i hop
      exact absurd (beq_iff_eq.mp hop ▸ rfl) (h a x)
    · rfl
  · rfl

/-- A call that is taken apart is a cast. -/
lemma casts_of_recordCast? {m : Mark} {fn : Node} {args : List Node} {cast : RecordCast}
    (h : (Node.call m fn args).recordCast? = some cast) :
    Casts (.call m fn args) cast.source cast.type := by
  obtain ⟨parts, hparts, rfl⟩ := Option.map_eq_some_iff.mp h
  change (Node.call m fn args).callCast? = some parts at hparts
  unfold Node.callCast? at hparts
  split at hparts
  · rename_i heq
    obtain ⟨operand, hoperand, rfl⟩ := Option.map_eq_some_iff.mp hparts
    rw [heq]
    unfold Node.rawOperand? at hoperand
    split at hoperand
    · split at hoperand
      · rename_i hfn
        cases hoperand
        exact casts_addressed (namesRawPointer_iff.mpr hfn)
      · cases hoperand
    · cases hoperand
  · cases hparts

/-- A cast is a call that is taken apart. -/
lemma Casts.exists_call (h : Casts n source type) :
    ∃ m fn args, n = .call m fn args ∧ n.recordCast? = some ⟨n, source, type⟩ := by
  cases h with
  | ofAddress hfn =>
    refine ⟨_, _, _, rfl, ?_⟩
    rw [Node.recordCast?, Node.pointerCast?, Node.callCast?, Node.rawOperand?,
      if_pos (namesRawPointer_iff.mp hfn)]
    · rfl
    · nofun
  | ofValue hfn hvalue =>
    refine ⟨_, _, _, rfl, ?_⟩
    rw [Node.recordCast?, Node.pointerCast?, Node.callCast?, Node.rawOperand?,
      if_pos (namesRawPointer_iff.mp hfn)]
    · rw [Option.map_some, Option.map_some, addressed_of_value hvalue]
    · nofun

/-! ## Mismatches -/

/-- The number of fields whose declared type is one of the integers that are as wide as an
address. -/
def wordFields (env : Underlying) (t : Ty) : Nat :=
  (t.underlying env).fields.countP fun f => f.type.any (·.isBasic [.int, .uint, .uintptr])

/-- **Types that do not fit.**  Both are structs, and they have different numbers of word-sized
fields. -/
structure Differ (env : Underlying) (t u : Ty) : Prop where
  left : ∃ serial fields, t.underlying env = .struct serial fields
  right : ∃ serial fields, u.underlying env = .struct serial fields
  ne : wordFields env t ≠ wordFields env u

/-- **Mismatches.**  A cast between types that do not fit. -/
def Mismatched (info : Info) (n : Node) : Prop :=
  ∃ source type, Casts n source type ∧
    Differ info.underlying (info.typeOf source) (info.typeOf type)

/-- **Reports.**  The finding at a mismatched cast says where the call is and how many word-sized
fields there are on each side. -/
def Reports (info : Info) (n : Node) (d : Finding) : Prop :=
  ∃ source type, Casts n source type ∧
    Differ info.underlying (info.typeOf source) (info.typeOf type) ∧
    d = { id := "structCastPlatformFields"
          message := "unsafe cast between structs with mismatching platform-dependent field counts"
          severity := .warning
          loc := n.loc
          checker := "struct-cast-size"
          extra := toString (wordFields info.underlying (info.typeOf source)) ++ " vs " ++
            toString (wordFields info.underlying (info.typeOf type)) }

lemma isPlatformDependent_eq (f : Member Ty) :
    f.isPlatformDependent = f.type.any (·.isBasic [.int, .uint, .uintptr]) := by
  obtain ⟨name, type, embedded⟩ := f
  cases type with
  | none => rfl
  | some t =>
    cases t with
    | basic k => cases k <;> rfl
    | _ => rfl

lemma platformFields_eq (env : Underlying) (t : Ty) : t.platformFields env = wordFields env t :=
  countP_congr fun f _ => by rw [isPlatformDependent_eq]

lemma mismatch?_eq_some_iff {loc : Loc} {m : Mismatch} :
    mismatch? env loc t u = some m ↔ Differ env t u ∧
    m = ⟨loc, wordFields env t, wordFields env u⟩ := by
  rw [mismatch?, platformFields_eq, platformFields_eq]
  constructor
  · intro h
    split at h
    · rename_i ht hu
      dsimp only at h
      split at h
      · cases h
      · rename_i hne
        exact ⟨⟨⟨_, _, ht⟩, ⟨_, _, hu⟩, hne⟩, (Option.some.inj h).symm⟩
    · cases h
  · rintro ⟨⟨⟨a, fs, ht⟩, ⟨b, gs, hu⟩, hne⟩, rfl⟩
    rw [ht, hu]
    exact if_neg hne

/-- The finding at a node is what the node has to be reported with. -/
lemma map_finding_mismatchAt? {d : Finding} :
    (mismatchAt? info n).map (fun m => checker.finding m.draft) = some d ↔ Reports info n d := by
  constructor
  · intro h
    obtain ⟨m, hm, rfl⟩ := Option.map_eq_some_iff.mp h
    cases n with
    | call mark fn args =>
      rw [mismatchAt?] at hm
      split at hm
      · rename_i cast hcast
        obtain ⟨hdiffer, rfl⟩ := mismatch?_eq_some_iff.mp hm
        exact ⟨cast.source, cast.type, casts_of_recordCast? hcast, hdiffer, rfl⟩
      · cases hm
    | _ => cases hm
  · rintro ⟨source, type, hcasts, hdiffer, rfl⟩
    obtain ⟨m, fn, args, rfl, hcast⟩ := hcasts.exists_call
    rw [mismatchAt?, hcast]
    exact congrArg (Option.map _) (mismatch?_eq_some_iff.mpr ⟨hdiffer, rfl⟩)

lemma mismatched_iff : Mismatched info n ↔ (mismatchAt? info n).isSome = true := by
  constructor
  · rintro ⟨source, type, hcasts, hdiffer⟩
    have h := map_finding_mismatchAt?.mpr ⟨source, type, hcasts, hdiffer, rfl⟩
    rw [← Option.isSome_map, h]
    rfl
  · intro h
    obtain ⟨m, hm⟩ := Option.isSome_iff_exists.mp h
    obtain ⟨source, type, hcasts, hdiffer, -⟩ :=
      map_finding_mismatchAt?.mp (congrArg (Option.map _) hm)
    exact ⟨source, type, hcasts, hdiffer⟩

instance (info : Info) : DecidablePred (Mismatched info) :=
  fun _ => decidable_of_iff _ mismatched_iff.symm

/-! ## Exchanging the sides -/

lemma Differ.symm (h : Differ env t u) : Differ env u t := ⟨h.right, h.left, h.ne.symm⟩

/-- Only what the types stand for counts. -/
lemma Differ.alike {μ : Matching} (ht : Alike μ (t.underlying env) (t'.underlying env'))
    (hu : Alike μ (u.underlying env) (u'.underlying env')) :
    Differ env' t' u' ↔ Differ env t u := by
  have hstruct : ∀ {v v' : Ty}, Alike μ (v.underlying env) (v'.underlying env') →
      ((∃ serial fields, v'.underlying env' = .struct serial fields) ↔
        ∃ serial fields, v.underlying env = .struct serial fields) ∧
        wordFields env' v' = wordFields env v := by
    intro v v' h
    refine ⟨?_, ?_⟩
    · generalize v.underlying env = w at h
      generalize v'.underlying env' = w' at h
      cases h <;> simp
    · rw [← platformFields_eq, ← platformFields_eq]
      exact Alike.countP_isPlatformDependent h.fields
  obtain ⟨hleft, hcount⟩ := hstruct ht
  obtain ⟨hright, hcount'⟩ := hstruct hu
  constructor
  · exact fun h => ⟨hleft.mp h.left, hright.mp h.right, hcount ▸ hcount' ▸ h.ne⟩
  · exact fun h => ⟨hleft.mpr h.left, hright.mpr h.right, hcount.symm ▸ hcount'.symm ▸ h.ne⟩

/-- A node is a cast in one way only. -/
lemma Casts.mismatched_iff (h : Casts n source type) :
    Mismatched info n ↔ Differ info.underlying (info.typeOf source) (info.typeOf type) := by
  constructor
  · rintro ⟨source', type', h', hdiffer⟩
    obtain ⟨-, -, -, -, hcast⟩ := h.exists_call
    obtain ⟨-, -, -, -, hcast'⟩ := h'.exists_call
    rw [hcast] at hcast'
    cases hcast'
    exact hdiffer
  · exact fun hdiffer => ⟨source, type, h, hdiffer⟩

/-! ## Findings -/

/-- What is chosen from a list and what it is chosen for go in step. -/
lemma forall₂_filterMap {α β : Type} {P : α → Prop} [DecidablePred P]
    {R : α → β → Prop} {f : α → Option β}
    (hR : ∀ {a b}, f a = some b ↔ R a b) (hP : ∀ a, P a ↔ (f a).isSome = true) (as : List α) :
    Forall₂ R (as.filter P) (as.filterMap f) := by
  induction as with
  | nil => exact .nil
  | cons a as ih =>
    cases hfa : f a with
    | none =>
      have hnot : ¬P a := by rw [hP, hfa]; nofun
      rw [filter_cons_of_neg (by simpa using hnot), filterMap_cons_none hfa]
      exact ih
    | some b =>
      have hyes : P a := by rw [hP, hfa]; rfl
      rw [filter_cons_of_pos (by simpa using hyes), filterMap_cons_some hfa]
      exact .cons (hR.mp hfa) ih

/-- What is somewhere below a node is visited from there. -/
lemma mem_preorder_of_below {root : Node}
    (h : Relation.ReflTransGen (fun a c => c ∈ a.children) root n) :
    n ∈ root.preorder := by
  induction h with
  | refl => exact Node.self_mem_preorder root
  | tail _ hchild ih => exact Node.mem_preorder_of_child ih hchild

/-- There are no mismatches at nodes of other kinds. -/
lemma filterMap_sites (info : Info) (root : Node) :
    (root.walk isSite).filterMap (mismatchAt? info ·.node) =
      root.preorder.filterMap (mismatchAt? info) := by
  rw [root.walk_eq_filter, root.preorder_eq_map_walk, filterMap_map, filterMap_filter]
  refine filterMap_congr fun v _ => ?_
  obtain ⟨node, above⟩ := v
  cases node with
  | call => rfl
  | _ => rfl

/-- **The findings are the mismatched casts, in pre-order.**  There is one for each of them and no
other, wherever in the tree the cast stands; the checker does not fail and leaves the session as it
is.  A cast is reported exactly if one in the opposite direction is, in this unit or in another. -/
theorem found_exactly (unit : CompilationUnit) (options : Options) (s : Session) :
    ∃ drafts, (checker.examine unit options).run.run s = (.ok drafts, s) ∧
      List.Forall₂ (Reports unit.info)
        ((preorderAll [unit.file.node]).filter fun n => Mismatched unit.info n)
        (drafts.map checker.finding) ∧
      (∀ n, Relation.ReflTransGen (fun a c => c ∈ a.children) unit.file.node n →
        Mismatched unit.info n →
        ∃ d ∈ drafts, Reports unit.info n (checker.finding d)) ∧
      ∀ (μ : Matching) (info' : Info) (n source type n' source' type' : Node), Casts n source type →
        Casts n' source' type' →
        Alike μ ((unit.info.typeOf type).underlying unit.info.underlying)
          ((info'.typeOf source').underlying info'.underlying) →
        Alike μ ((unit.info.typeOf source).underlying unit.info.underlying)
          ((info'.typeOf type').underlying info'.underlying) →
          (Mismatched info' n' ↔ Mismatched unit.info n) := by
  refine ⟨_, rfl, ?exact, ?anywhere, ?exchanged⟩
  case exact =>
    rw [filterMap_sites, Node.preorder_eq, List.map_map, List.map_filterMap]
    refine forall₂_filterMap map_finding_mismatchAt? (fun n => ?_) _
    rw [mismatched_iff, Option.isSome_map]
  case anywhere =>
    intro n hbelow hmismatched
    obtain ⟨m, hm⟩ := Option.isSome_iff_exists.mp (mismatched_iff.mp hmismatched)
    rw [filterMap_sites]
    exact ⟨m.draft,
      List.mem_map_of_mem (List.mem_filterMap.mpr ⟨n, mem_preorder_of_below hbelow, hm⟩),
      map_finding_mismatchAt?.mp (congrArg (Option.map _) hm)⟩
  case exchanged =>
    intro μ info' n source type n' source' type' h h' hsource htype
    rw [h.mismatched_iff, h'.mismatched_iff, Differ.alike hsource htype]
    exact ⟨Differ.symm, Differ.symm⟩

end Recast.StructCast
