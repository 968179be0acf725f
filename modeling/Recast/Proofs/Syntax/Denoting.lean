import Recast.Proofs.Syntax.Relabeling
import Recast.Types.Shape

/-!
# Type expressions and their spelling

A literal is reported with the spelling of its type, so a new name for a variable may show there
only if a variable may stand in the type of a literal that is reported.  It may not: an expression
that denotes a type has variables in the lengths of arrays only, and a header has no arrays in it.

* `Ty.Plain` — types in which there is no slice, no array and no function, and nothing that is not
  known.
* `Node.Denotes` — expressions that may denote a type, whose names keep their spelling.
* `Node.Suits` — an expression that denotes a plain type keeps its spelling.
-/

namespace Recast

/-! ## Plain types -/

/-- **A plain type**: a basic or a named one, a pointer to a plain one, or a struct with plain
fields. -/
inductive Ty.Plain : Ty → Prop where
  | basic (kind : Basic) : Plain (.basic kind)
  | named (decl : Nat) (name package : String) : Plain (.named decl name package)
  | pointer {serial : Nat} {elem : Ty} : Plain elem → Plain (.pointer serial (some elem))
  | struct {serial : Nat} {fields : List (Member Ty)} : (∀ f ∈ fields, f.type ≠ none) →
      (∀ f ∈ fields, ∀ t, f.type = some t → Plain t) → Plain (.struct serial fields)

namespace Ty.Plain

variable {env : Underlying} {t : Ty}

lemma isInvalid_eq (h : t.Plain) : t.isInvalid = false := by
  cases h <;> rfl

lemma of_pointer {serial : Nat} {elem : Ty} (h : Ty.Plain (.pointer serial (some elem))) :
    elem.Plain := by
  cases h with
  | pointer h => exact h

/-- What points to a plain type is plain. -/
lemma of_pointee (h : ((t.pointee? env).getD .invalid).Plain) : t.Plain := by
  cases t with
  | named decl name package => exact .named decl name package
  | pointer serial elem =>
    cases elem with
    | none => cases h
    | some elem => exact .pointer h
  | _ => cases h

lemma of_fit {specs : List (String × Basic)} {fields : List (Member Ty)}
    (h : Shape.fit specs fields = true) :
    ∀ f ∈ fields, ∃ kind, f.type = some (.basic kind) := by
  induction specs generalizing fields with
  | nil =>
    cases fields with
    | nil => nofun
    | cons f fs => cases h
  | cons spec specs ih =>
    cases fields with
    | nil => cases h
    | cons f fs =>
      simp only [Shape.fit, Bool.and_eq_true] at h
      intro g hg
      rcases List.mem_cons.mp hg with rfl | hg
      · obtain ⟨t, ht, hbasic⟩ := (Option.any_eq_true ..).mp h.1.2
        cases t with
        | basic kind => exact ⟨kind, ht⟩
        | _ => cases hbasic
      · exact ih h.2 g hg

lemma of_isShapeOf {shape : Shape} (h : shape.isShapeOf t = true) : t.Plain := by
  cases t with
  | struct serial fields =>
    refine .struct (fun f hf hnone => ?_) fun f hf u hu => ?_
    · obtain ⟨kind, hkind⟩ := of_fit h f hf
      rw [hnone] at hkind
      cases hkind
    · obtain ⟨kind, hkind⟩ := of_fit h f hf
      rw [hu] at hkind
      cases hkind
      exact .basic kind
  | _ => cases h

/-- **A header is plain**, and so is a pointer to one. -/
lemma of_isHeaderShaped (h : t.isHeaderShaped env = true) : t.Plain := by
  obtain ⟨shape, hshape⟩ := Option.isSome_iff_exists.mp h
  have hfits := List.find?_some hshape
  cases t with
  | named decl name package => exact .named decl name package
  | pointer serial elem =>
    cases elem with
    | none => cases hfits
    | some elem =>
      cases elem with
      | named decl name package => exact .pointer (.named decl name package)
      | _ => exact .pointer (of_isShapeOf hfits)
  | _ => exact of_isShapeOf hfits

end Ty.Plain

/-! ## Expressions that denote types -/

variable {ρ : Relabeling} {t : Ty} {m : Mark} {n x : Node}

/-- **An expression that may denote a type**: its names keep their spelling, as far as they are not
names of fields or in the length of an array. -/
inductive Node.Denotes (ρ : Relabeling) : Node → Prop where
  | ident {i : Ident} : ρ.spell i = i.name → Denotes ρ (.ident i)
  | member {m : Mark} {i name : Ident} : ρ.spell i = i.name → ρ.spell name = name.name →
      Denotes ρ (.select m (.ident i) name)
  | paren {m : Mark} {x : Node} : Denotes ρ x → Denotes ρ (.paren m x)
  | star {m : Mark} {x : Node} : Denotes ρ x → Denotes ρ (.star m x)
  | array (m : Mark) (length : Option Node) (elem : Node) : Denotes ρ (.arrayType m length elem)
  | struct (m : Mark) (fields : List Field) : Denotes ρ (.structType m fields)
  | func (type : FuncType) : Denotes ρ (.funcType type)

/-- **How a node is spelled that has a type**: if it denotes a plain type, as before.  What counts
about a literal is the spelling of its type. -/
def Node.Suits (ρ : Relabeling) : Node → Ty → Prop
  | .composite _ type _, t => t.Plain → spelledOption (relabelOption ρ type) = spelledOption type
  | n, t => n.Denotes ρ → t.Plain → (n.relabel ρ).spelled = n.spelled

namespace Node.Suits

lemma spelled (h : n.Suits ρ t) (hn : n.Denotes ρ) (ht : t.Plain) :
    (n.relabel ρ).spelled = n.spelled := by
  cases hn with
  | ident hi => exact h (.ident hi) ht
  | member hi hname => exact h (.member hi hname) ht
  | paren hx => exact h (.paren hx) ht
  | star hx => exact h (.star hx) ht
  | array m length elem => exact h (.array m length elem) ht
  | struct m fields => exact h (.struct m fields) ht
  | func type => exact h (.func type) ht

lemma paren (h : x.Suits ρ t) : (Node.paren m x).Suits ρ t := by
  rintro (⟨⟩ | ⟨⟩ | hx) ht
  rw [Node.relabel, Node.spelled, Node.spelled, h.spelled hx ht]

lemma star {u : Ty} (h : x.Suits ρ t) (htu : u.Plain → t.Plain) : (Node.star m x).Suits ρ u := by
  rintro (⟨⟩ | ⟨⟩ | ⟨⟩ | hx) hu
  rw [Node.relabel, Node.spelled, Node.spelled, h.spelled hx (htu hu)]

lemma array {length : Option Node} (ht : ¬t.Plain) : (Node.arrayType m length x).Suits ρ t :=
  fun _ h => absurd h ht

lemma struct {fields : List Field}
    (h : t.Plain → spelledFields (relabelFields ρ fields) = spelledFields fields) :
    (Node.structType m fields).Suits ρ t := by
  intro _ ht
  rw [Node.relabel, Node.spelled, Node.spelled, h ht]

end Node.Suits

/-- Nodes of which nothing is asked: names, and what does not denote a type. -/
def Node.isBare : Node → Bool
  | .composite .. | .paren .. | .star .. | .structType .. | .arrayType .. => false
  | _ => true

lemma Node.suits_of_isBare (h : n.isBare = true) : n.Suits ρ t := by
  cases n with
  | ident i =>
    rintro ⟨hi⟩ -
    exact hi
  | select m base name =>
    rintro (⟨⟩ | ⟨hi, hname⟩) -
    rw [Node.relabel, Node.relabel, Node.spelled, Node.spelled, Node.spelled, Node.spelled,
      Ident.relabel, Ident.relabel, hi, hname]
  | funcType type =>
    intro _ _
    rfl
  | composite m type elements => cases h
  | paren m x => cases h
  | star m x => cases h
  | structType m fields => cases h
  | arrayType m length elem => cases h
  | _ =>
    intro hn
    cases hn

end Recast
