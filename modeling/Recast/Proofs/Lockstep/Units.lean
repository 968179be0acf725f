import Recast.Proofs.Lockstep.Traversal

/-!
# Two readings of one unit

A unit is read twice, with other numbers for its nodes and perhaps another name for one of its
variables.  What belongs together in the two runs is said by a `Reading`; where a name changes,
bindings keep their numbers.

**Scopes.**  In general two frames have the same names, for bindings that belong together
(`FrameBy`).  Where a variable has changed its name, two frames say the same about every name but
the old and the new one.  What the first says about the old name, the second says too, unless it is
the variable; then the second has it under the new name (`FrameRel`).  A redeclaration of the old
name in one frame leaves the variable under the new one, where nobody looks for it any more.

**Pending declarations** of the two runs are the same but for the labels.  The identifiers in those
that are not active are the busy ones.
-/

namespace Recast.Lockstep

open List
open Ty (Alike Matching Matches)

/-! ## Frames and scopes -/

/-- Two frames have the same names, for bindings that belong together. -/
def FrameBy (binds : Nat → Nat → Prop) (f f' : Frame) : Prop :=
  ∀ name, Option.Rel binds (f.find? name) (f'.find? name)

section FrameBy

variable {binds : Nat → Nat → Prop} {f f' : Frame} {s s' : Scope} {b b' : Nat}

lemma FrameBy.insert (h : FrameBy binds f f') (name : String) (hb : binds b b') :
    FrameBy binds (f.insert name b) (f'.insert name b') := by
  intro name'
  rw [Table.find?_insert, Table.find?_insert]
  split
  · exact .some hb
  · exact h name'

lemma frameBy_empty : FrameBy binds {} {} := fun _ => .none

lemma declare_by (hs : Forall₂ (FrameBy binds) s s') (name : String) (hb : binds b b') :
    Forall₂ (FrameBy binds) (s.declare name b) (s'.declare name b') := by
  cases hs with
  | nil => exact .cons (frameBy_empty.insert name hb) .nil
  | cons hf hs => exact .cons (hf.insert name hb) hs

lemma lookup_by (hs : Forall₂ (FrameBy binds) s s') (name : String) :
    Option.Rel binds (s.lookup name) (s'.lookup name) := by
  induction hs with
  | nil => exact .none
  | @cons f f' s s' hf _ ih =>
    have hname := hf name
    rw [Scope.lookup, Scope.lookup]
    generalize f.find? name = o, f'.find? name = o' at hname
    cases hname with
    | some hb => exact .some hb
    | none => exact ih

lemma lookupHere_by (hs : Forall₂ (FrameBy binds) s s') (name : String) :
    Option.Rel binds (s.lookupHere name) (s'.lookupHere name) := by
  cases hs with
  | nil => exact .none
  | cons hf _ => exact hf name

lemma headD_by (hs : Forall₂ (FrameBy binds) s s') : FrameBy binds (s.headD {}) (s'.headD {}) := by
  cases hs with
  | nil => exact frameBy_empty
  | cons hf _ => exact hf

end FrameBy

/-- Two frames differ in the name of one variable only. -/
structure FrameRel (c : Change) (f f' : Frame) : Prop where
  other : ∀ name, name ≠ c.old → name ≠ c.new → f'.find? name = f.find? name
  kept : f.find? c.old ≠ some c.binding → f'.find? c.old = f.find? c.old
  moved : f.find? c.old = some c.binding → f'.find? c.new = some c.binding
  named : ∀ name, f.find? name = some c.binding → name = c.old

/-- Frames of blocks: nothing else has the new name. -/
structure LocalRel (c : Change) (f f' : Frame) : Prop extends FrameRel c f f' where
  fresh : f.find? c.old = none → f'.find? c.new = none

/-- Two scopes differ in the name of one variable only. -/
inductive ScopeRel (c : Change) : Bool → Scope → Scope → Prop where
  | package {f f' : Frame} : FrameRel c f f' →
      (∀ name, Library.predeclaredFrame.find? name ≠ some c.binding) →
      ScopeRel c false [f, Library.predeclaredFrame] [f', Library.predeclaredFrame]
  | inside {inner : Bool} {f f' : Frame} {s s' : Scope} : LocalRel c f f' → ScopeRel c inner s s' →
      ScopeRel c true (f :: s) (f' :: s')

variable {c : Change} {f f' : Frame} {inner : Bool} {s s' : Scope} {name : String} {b : Nat}

lemma localRel_empty : LocalRel c {} {} :=
  ⟨⟨fun _ _ _ => rfl, fun _ => rfl, nofun, nofun⟩, fun _ => rfl⟩

/-- A declaration under the same name, of another binding. -/
lemma FrameRel.insert (h : FrameRel c f f') (hname : name ≠ c.new) (hb : b ≠ c.binding) :
    FrameRel c (f.insert name b) (f'.insert name b) where
  other n hold hnew := by rw [Table.find?_insert, Table.find?_insert, h.other n hold hnew]
  kept hne := by
    rw [Table.find?_insert] at hne ⊢
    rw [Table.find?_insert]
    split at hne
    next heq => rw [if_pos heq, if_pos heq]
    next heq => rw [if_neg heq, if_neg heq, h.kept hne]
  moved hold := by
    rw [Table.find?_insert] at hold
    rw [Table.find?_insert, if_neg hname]
    split at hold
    next => exact absurd (Option.some.inj hold) hb
    next => exact h.moved hold
  named n hn := by
    rw [Table.find?_insert] at hn
    split at hn
    next => exact absurd (Option.some.inj hn) hb
    next => exact h.named n hn

/-- The declaration of the variable. -/
lemma FrameRel.insert_moved (h : FrameRel c f f') :
    FrameRel c (f.insert c.old c.binding) (f'.insert c.new c.binding) where
  other n hold hnew := by
    rw [Table.find?_insert, Table.find?_insert, if_neg (Ne.symm hold),
      if_neg (Ne.symm hnew), h.other n hold hnew]
  kept hne := absurd ((Table.find?_insert ..).trans (if_pos rfl)) hne
  moved _ := (Table.find?_insert ..).trans (if_pos rfl)
  named n hn := by
    rw [Table.find?_insert] at hn
    split at hn
    next heq => exact heq.symm
    next => exact h.named n hn

lemma LocalRel.insert (h : LocalRel c f f') (hname : name ≠ c.new) (hb : b ≠ c.binding) :
    LocalRel c (f.insert name b) (f'.insert name b) := by
  refine ⟨h.toFrameRel.insert hname hb, fun hold => ?_⟩
  rw [Table.find?_insert] at hold
  rw [Table.find?_insert, if_neg hname]
  split at hold
  next => cases hold
  next => exact h.fresh hold

lemma LocalRel.insert_moved (h : LocalRel c f f') :
    LocalRel c (f.insert c.old c.binding) (f'.insert c.new c.binding) := by
  refine ⟨h.toFrameRel.insert_moved, fun hold => ?_⟩
  rw [Table.find?_insert, if_pos rfl] at hold
  cases hold

namespace ScopeRel

/-- The variable is found under its new name. -/
lemma lookup_moved (h : ScopeRel c inner s s') (hold : s.lookup c.old = some c.binding) :
    s'.lookup c.new = some c.binding := by
  induction h with
  | @package f f' hframe huniverse =>
    rw [Scope.lookup] at hold ⊢
    cases hf : f.find? c.old with
    | some b =>
      rw [hf] at hold
      rw [hframe.moved (hf.trans hold)]
    | none =>
      rw [hf, Scope.lookup] at hold
      cases hu : Library.predeclaredFrame.find? c.old with
      | none =>
        rw [hu] at hold
        cases hold
      | some b =>
        rw [hu] at hold
        exact absurd (hu.trans hold) (huniverse c.old)
  | @inside inner f f' s s' hframe _ ih =>
    rw [Scope.lookup] at hold ⊢
    cases hf : f.find? c.old with
    | some b =>
      rw [hf] at hold
      rw [hframe.moved (hf.trans hold)]
    | none =>
      rw [hf] at hold
      rw [hframe.fresh hf]
      exact ih hold

/-- What a frame says about any other name, both frames say. -/
lemma find?_kept (h : FrameRel c f f') (hnew : name ≠ c.new)
    (hb : name = c.old → f.find? name ≠ some c.binding) :
    f'.find? name = f.find? name := by
  by_cases hold : name = c.old
  · subst hold
    exact h.kept (hb rfl)
  · exact h.other name hold hnew

/-- Every other name means what it meant. -/
lemma lookup_kept (h : ScopeRel c inner s s') (hnew : name ≠ c.new)
    (hb : name = c.old → s.lookup name ≠ some c.binding) :
    s'.lookup name = s.lookup name := by
  induction h with
  | @package f f' hframe huniverse =>
    rw [Scope.lookup] at hb
    have hf : f'.find? name = f.find? name := by
      refine find?_kept hframe hnew fun hold hf => hb hold ?_
      rw [hf]
    rw [Scope.lookup, hf]
    rfl
  | @inside inner f f' s s' hframe _ ih =>
    rw [Scope.lookup] at hb
    have hf : f'.find? name = f.find? name := by
      refine find?_kept hframe.toFrameRel hnew fun hold hf => hb hold ?_
      rw [hf]
    rw [Scope.lookup, Scope.lookup, hf]
    cases hfind : f.find? name with
    | some b => rfl
    | none =>
      rw [hfind] at hb
      exact ih hb

/-- The variable is found under its old name only. -/
lemma named (h : ScopeRel c inner s s') (hb : s.lookup name = some c.binding) : name = c.old := by
  induction h with
  | @package f f' hframe huniverse =>
    rw [Scope.lookup] at hb
    cases hf : f.find? name with
    | some b =>
      rw [hf] at hb
      exact hframe.named name (hf.trans hb)
    | none =>
      rw [hf, Scope.lookup] at hb
      cases hu : Library.predeclaredFrame.find? name with
      | none =>
        rw [hu] at hb
        cases hb
      | some b =>
        rw [hu] at hb
        exact absurd (hu.trans hb) (huniverse name)
  | @inside inner f f' s s' hframe _ ih =>
    rw [Scope.lookup] at hb
    cases hf : f.find? name with
    | some b =>
      rw [hf] at hb
      exact hframe.named name (hf.trans hb)
    | none =>
      rw [hf] at hb
      exact ih hb

lemma declare (h : ScopeRel c inner s s') (hname : name ≠ c.new) (hb : b ≠ c.binding) :
    ScopeRel c inner (s.declare name b) (s'.declare name b) := by
  cases h with
  | package hframe huniverse => exact .package (hframe.insert hname hb) huniverse
  | inside hframe hs => exact .inside (hframe.insert hname hb) hs

lemma declare_moved (h : ScopeRel c inner s s') :
    ScopeRel c inner (s.declare c.old c.binding) (s'.declare c.new c.binding) := by
  cases h with
  | package hframe huniverse => exact .package hframe.insert_moved huniverse
  | inside hframe hs => exact .inside hframe.insert_moved hs

end ScopeRel

/-! ## The link -/

/-- How two readings of one unit correspond. -/
structure Reading where
  matching : Matching
  labels : Relabeling
  /-- The numbers of the nodes that are read alike. -/
  knows : Nat → Prop
  /-- The bindings that belong together. -/
  binds : Nat → Nat → Prop
  fits : Nat → Prop := fun _ => True
  stops : Bool → Bool → Prop := Eq
  change : Option Change := none
  /-- The identifiers of the unit, if there is a change of name. -/
  occurs : Ident → Prop := fun _ => True
  /-- The nodes whose spelling counts. -/
  tree : Node → Prop := fun _ => False

/-- The pending declarations that are not active. -/
def waiting (r : Resolver) : List Pending := r.pending.filter fun d => !r.active.contains d.binding

/-- The identifiers in declarations. -/
def declIdents (ds : List Pending) : List Ident := identifiers (ds.map Pending.type)

namespace Reading

variable (R : Reading)

/-- Pending declarations that belong together. -/
structure PendingRel (d d' : Pending) : Prop where
  binding : R.binds d.binding d'.binding
  type : d'.type = d.type.relabel R.labels
  isAlias : d'.isAlias = d.isAlias

/-- What is known about the pending declarations: about identifiers in those that are not active
nothing, if there is a change of name. -/
structure Pends (r : Resolver) : Prop where
  knows : ∀ d ∈ r.pending, Known R.knows R.tree [d.type]
  nodup : R.change ≠ none → (declIdents r.pending).Nodup
  occurs : R.change ≠ none → ∀ i ∈ declIdents (waiting r), R.occurs i
  defs : R.change ≠ none → ∀ i ∈ declIdents (waiting r), r.info.defs.find? i.mark.id = none
  uses : R.change ≠ none → ∀ i ∈ declIdents (waiting r), r.info.uses.find? i.mark.id = none

/-- The link between two readings of one unit. -/
def link : Link where
  matching := R.matching
  binds := R.binds
  knows := R.knows
  scopes inner s s' :=
    match R.change with
    | none => Forall₂ (FrameBy R.binds) s s'
    | some c => ScopeRel c inner s s'
  fits := R.fits
  stops := R.stops
  inv r r' := Forall₂ R.PendingRel r.pending r'.pending ∧ Forall₂ R.binds r.active r'.active
  okay := R.Pends
  change := R.change
  labels := R.labels
  occurs := R.occurs
  tree := R.tree
  busy r :=
    match R.change with
    | none => []
    | some _ => declIdents (waiting r)

/-- The conditions under which two readings go in step. -/
structure Sound : Prop where
  apart : ∀ {k l}, R.knows k → R.knows l → R.labels.number k = R.labels.number l → k = l
  plain : R.change = none → R.labels.spell = Ident.name
  one : ∀ {b b' c c'}, R.binds b b' → R.binds c c' → (b = c ↔ b' = c')
  fits : ∀ {m n}, R.fits n → m ≤ n → R.fits m
  stops : R.stops true true
  /-- Where a name changes, bindings keep their numbers. -/
  kept : R.change ≠ none → ∀ b b', R.binds b b' ↔ b = b'
  blank : ∀ c ∈ R.change, c.old ≠ "_" ∧ c.new ≠ "_"
  distinct : R.change ≠ none → ∀ {i j}, R.occurs i → R.occurs j → i.mark.id = j.mark.id → i = j
  child : ∀ {n c}, R.tree n → c ∈ n.children → R.tree c

variable {R : Reading} {r r' : Resolver} {T : List Ident}

lemma scopes_of_none (h : R.change = none) : R.link.scopes inner s s' ↔
    Forall₂ (FrameBy R.binds) s s' := by
  show (match R.change with | none => _ | some c => _) ↔ _
  rw [h]

lemma scopes_of_change (h : R.change = some c) : R.link.scopes inner s s' ↔
    ScopeRel c inner s s' := by
  show (match R.change with | none => _ | some c => _) ↔ _
  rw [h]

lemma busy_of_none (h : R.change = none) (r : Resolver) : R.link.busy r = [] := by
  show (match R.change with | none => _ | some c => _) = _
  rw [h]

lemma busy_of_change (h : R.change ≠ none) (r : Resolver) :
    R.link.busy r = declIdents (waiting r) := by
  obtain ⟨c, hc⟩ := Option.ne_none_iff_exists'.mp h
  show (match R.change with | none => _ | some c => _) = _
  rw [hc]

/-- What is known about the pending declarations stays so as long as nothing is recorded about what
waits. -/
lemma Pends.kept (h : R.Pends r) (hsame : Link.SamePending r r')
    (hdefs : R.change ≠ none → ∀ i ∈ declIdents (waiting r), r'.info.defs.find? i.mark.id =
      r.info.defs.find? i.mark.id)
    (huses : R.change ≠ none → ∀ i ∈ declIdents (waiting r), r'.info.uses.find? i.mark.id =
      r.info.uses.find? i.mark.id) :
    R.Pends r' := by
  have hwaiting : waiting r' = waiting r := by rw [waiting, waiting, hsame.1, hsame.2]
  refine ⟨hsame.1 ▸ h.knows, fun hc => hsame.1 ▸ h.nodup hc,
    fun hc => hwaiting ▸ h.occurs hc, ?_, ?_⟩
  · intro hc i hi
    rw [hwaiting] at hi
    rw [hdefs hc i hi, h.defs hc i hi]
  · intro hc i hi
    rw [hwaiting] at hi
    rw [huses hc i hi, h.uses hc i hi]

lemma busy_kept (hsame : Link.SamePending r r') : R.link.busy r' = R.link.busy r := by
  by_cases hc : R.change = none
  · rw [busy_of_none hc, busy_of_none hc]
  · rw [busy_of_change hc, busy_of_change hc, waiting, waiting, hsame.1, hsame.2]

lemma okay_update (h : R.Pends r) (hupdate : R.link.Update r T r')
    (hfree : ∀ i ∈ T, i.mark.id ∉ Link.numbers (R.link.busy r)) : R.Pends r' := by
  have hne : R.change ≠ none → ∀ i ∈ T, ∀ j ∈ declIdents (waiting r), i.mark.id ≠ j.mark.id := by
    intro hc i hi j hj heq
    have := hfree i hi
    rw [busy_of_change hc, heq] at this
    exact this (Link.mem_numbers_of_mem hj)
  refine h.kept hupdate.samePending ?_ ?_
  · intro hc j hj
    cases hupdate with
    | @define i b => exact (Table.find?_insert ..).trans (if_neg (hne hc i mem_cons_self j hj))
    | _ => rfl
  · intro hc j hj
    cases hupdate with
    | @refer i b => exact (Table.find?_insert ..).trans (if_neg (hne hc i mem_cons_self j hj))
    | _ => rfl

section Spelling

variable {i : Ident} {b? : Option Nat}

lemma spell_moved (hc : R.change = some c) (h : R.link.Right i (some c.binding))
    (hname : i.name = c.old) :
    R.labels.spell i = c.new := by
  have hspell := h.spell
  rw [Link.spelling_of_change hc, if_pos ⟨rfl, hname⟩] at hspell
  exact hspell

lemma spell_other (hc : R.change = some c) (h : R.link.Right i b?) (hb : b? ≠ some c.binding) :
    R.labels.spell i = i.name := by
  have hspell := h.spell
  rw [Link.spelling_of_change hc, if_neg fun hmoved => hb hmoved.1] at hspell
  exact hspell

lemma spell_kept (hc : R.change = some c) (h : R.link.Right i (some b)) (hb : b ≠ c.binding) :
    R.labels.spell i = i.name :=
  spell_other hc h fun heq => hb (Option.some.inj heq)

end Spelling

lemma rel_eq {α : Type} {A : α → α → Prop} {o o' : Option α} (h : o' = o) (hself : ∀ a ∈ o, A a a) :
    Option.Rel A o o' := by
  subst h
  cases o' with
  | none => exact .none
  | some a => exact .some (hself a rfl)

/-! ## The link is lawful

Each rule about scopes is one about frames with the same names, or one about a change of name. -/

namespace Sound

variable (h : R.Sound) {i : Ident} {b' : Nat}

include h

lemma scopes_declare (hs : R.link.scopes inner s s') (hb : R.binds b b')
    (hright : R.link.Right i (some b)) (hnamed : R.link.Named i.name b) :
    R.link.scopes inner (s.declare i.name b) (s'.declare (R.labels.spell i) b') := by
  cases hchange : R.change with
  | none =>
    rw [scopes_of_none hchange] at hs ⊢
    rw [h.plain hchange]
    exact declare_by hs i.name hb
  | some c =>
    rw [scopes_of_change hchange] at hs ⊢
    obtain rfl := (h.kept (by simp [hchange]) b b').mp hb
    by_cases hb : b = c.binding
    · subst hb
      rw [hnamed c hchange rfl, spell_moved hchange hright (hnamed c hchange rfl)]
      exact ScopeRel.declare_moved hs
    · rw [spell_kept hchange hright hb]
      exact ScopeRel.declare hs (hright.fresh c hchange) hb

lemma scopes_lookup (hs : R.link.scopes inner s s') (hright : R.link.Right i (s.lookup i.name)) :
    Option.Rel R.binds (s.lookup i.name) (s'.lookup (R.labels.spell i)) := by
  cases hchange : R.change with
  | none =>
    rw [h.plain hchange]
    exact lookup_by ((scopes_of_none hchange).mp hs) i.name
  | some c =>
    rw [scopes_of_change hchange] at hs
    refine rel_eq ?_ fun b _ => (h.kept (by simp [hchange]) b b).mpr rfl
    by_cases hb : s.lookup i.name = some c.binding
    · rw [hb] at hright ⊢
      rw [spell_moved hchange hright (hs.named hb)]
      rw [hs.named hb] at hb
      exact hs.lookup_moved hb
    · rw [spell_other hchange hright hb]
      exact hs.lookup_kept (hright.fresh c hchange) fun _ => hb

lemma scopes_here (hs : R.link.scopes true s s') (hhere : s.lookupHere i.name = some b)
    (hright : R.link.Right i (some b)) :
    ∃ b', s'.lookupHere (R.labels.spell i) = some b' ∧ R.binds b b' := by
  cases hchange : R.change with
  | none =>
    have hrel := lookupHere_by ((scopes_of_none hchange).mp hs) i.name
    rw [hhere] at hrel
    rw [h.plain hchange]
    generalize s'.lookupHere i.name = o at hrel
    cases hrel with
    | some hb => exact ⟨_, rfl, hb⟩
  | some c =>
    rw [scopes_of_change hchange] at hs
    refine ⟨b, ?_, (h.kept (by simp [hchange]) b b).mpr rfl⟩
    cases hs with
    | @inside inner f f' s s' hframe _ =>
      change f.find? i.name = some b at hhere
      show f'.find? (R.labels.spell i) = some b
      by_cases hb : b = c.binding
      · subst hb
        rw [spell_moved hchange hright (hframe.named _ hhere)]
        exact hframe.moved (hframe.named _ hhere ▸ hhere)
      · rw [spell_kept hchange hright hb, ScopeRel.find?_kept hframe.toFrameRel
          (hright.fresh c hchange), hhere]
        rintro - heq
        exact hb (Option.some.inj (hhere.symm.trans heq))

lemma scopes_here_none {b? : Option Nat} (hs : R.link.scopes true s s')
    (hhere : s.lookupHere i.name = none)
    (hright : R.link.Right i b?) : s'.lookupHere (R.labels.spell i) = none := by
  cases hchange : R.change with
  | none =>
    have hrel := lookupHere_by ((scopes_of_none hchange).mp hs) i.name
    rw [hhere] at hrel
    rw [h.plain hchange]
    generalize s'.lookupHere i.name = o at hrel
    cases hrel
    rfl
  | some c =>
    rw [scopes_of_change hchange] at hs
    cases hs with
    | @inside inner f f' s s' hframe _ =>
      change f.find? i.name = none at hhere
      show f'.find? (R.labels.spell i) = none
      by_cases hmoved : b? = some c.binding ∧ i.name = c.old
      · obtain ⟨rfl, hold⟩ := hmoved
        rw [spell_moved hchange hright hold]
        exact hframe.fresh (hold ▸ hhere)
      · have hspell : R.labels.spell i = _ := hright.spell
        rw [Link.spelling_of_change hchange, if_neg hmoved] at hspell
        have hkept := ScopeRel.find?_kept hframe.toFrameRel (hright.fresh c hchange) fun _ heq =>
          Option.some_ne_none _ (heq.symm.trans hhere)
        rw [hspell, hkept, hhere]

/-- **The link between two readings of one unit is lawful.** -/
theorem lawful : R.link.Lawful where
  apart := h.apart
  plain := h.plain
  idle hc := busy_of_none hc
  blank := h.blank
  distinct := h.distinct
  occurs_busy hc {r i} hokay hi := by
    rw [busy_of_change hc] at hi
    exact hokay.occurs hc i hi
  child := h.child
  one := h.one
  nested {inner s s'} hs := by
    cases hchange : R.change with
    | none =>
      rw [scopes_of_none hchange] at hs ⊢
      exact .cons frameBy_empty hs
    | some c =>
      rw [scopes_of_change hchange] at hs ⊢
      exact .inside localRel_empty hs
  carry {inner s s' t t'} hs ht := by
    cases hchange : R.change with
    | none =>
      rw [scopes_of_none hchange] at hs ht ⊢
      exact .cons (headD_by hs) ht
    | some c =>
      rw [scopes_of_change hchange] at hs ht ⊢
      cases hs with
      | inside hframe _ => exact .inside hframe ht
  declare := h.scopes_declare
  lookup := h.scopes_lookup
  here := h.scopes_here
  here_none := h.scopes_here_none
  named {inner s s' name b} hs hb := by
    rintro c hc rfl
    exact ((scopes_of_change hc).mp hs).named hb
  fits := h.fits
  stops := h.stops
  okay hokay hupdate hfree := ⟨okay_update hokay hupdate hfree, busy_kept hupdate.samePending⟩
  inv hinv hsame hsame' := by
    refine ⟨?_, ?_⟩
    · rw [hsame.1, hsame'.1]
      exact hinv.1
    · rw [hsame.2, hsame'.2]
      exact hinv.2

end Sound

end Reading

end Recast.Lockstep
