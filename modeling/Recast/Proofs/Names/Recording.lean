import Mathlib.Data.List.Forall2
import Mathlib.Data.List.Nodup
import Recast.Proofs.Names.Lexical

/-!
# What resolution records

The tables of a resolver, as far as names are concerned, and what stays true of them while
resolution goes on.

**Changes.**  A stretch of resolution records something about some nodes only (`Changes`).  What is
right for an event stays right as long as nothing is recorded about the identifiers that it depends
on (`HoldsAll.kept`).

**Scopes.**  A scope of the resolver shows an environment if frame by frame each name is bound to
the binding of what declared it (`Shows`).
-/

namespace Recast.Lexical

open List

/-! ## Identifiers that matter -/

/-- The number of the identifier that declared a name. -/
def Origin.ids : Origin → List Nat
  | .ident i => [i.mark.id]
  | _ => []

/-- The numbers of the identifiers that declared the names of an environment. -/
def Env.ids (σ : Env) : List Nat := σ.flatMap fun level => level.flatMap fun entry => entry.2.ids

/-- The number of the identifier that an event is about. -/
def Event.ids : Event → List Nat
  | .declare i | .define i | .carry i | .use i | .qualifier i | .key _ i | .blank i => [i.mark.id]
  | _ => []

variable {σ : Env} {e : Event} {w w' : List Event} {k : Nat}

lemma Env.ids_cons (level : Level) (σ : Env) : Env.ids (level :: σ) = Env.ids [level] ++ σ.ids := by
  rw [ids, flatMap_cons, ids, flatMap_singleton]
  rfl

lemma Env.mem_ids_push {name : String} {o : Origin} (h : k ∈ (σ.push name o).ids) :
    k ∈ σ.ids ∨ k ∈ o.ids := by
  cases σ with
  | nil => simpa [push, ids] using h
  | cons level outer =>
    simp only [push, ids, flatMap_cons, mem_append] at h ⊢
    tauto

lemma Env.mem_ids_step (h : k ∈ (σ.step e).ids) : k ∈ σ.ids ∨ k ∈ e.ids := by
  cases e with
  | enter => exact Or.inl h
  | leave =>
    refine Or.inl ?_
    obtain ⟨level, hlevel, hk⟩ := mem_flatMap.mp h
    exact mem_flatMap.mpr ⟨level, mem_of_mem_tail hlevel, hk⟩
  | imported name b => exact (mem_ids_push h).imp_right fun h => by cases h
  | declare i => exact mem_ids_push h
  | define i =>
    rw [step] at h
    split at h
    · exact Or.inl h
    · exact mem_ids_push h
  | carry i => exact mem_ids_push h
  | _ => exact Or.inl h

/-- The names of an environment come from the one before and from the events in between. -/
lemma Env.mem_ids_run (h : k ∈ (σ.run w).ids) : k ∈ σ.ids ∨ ∃ e ∈ w, k ∈ e.ids := by
  induction w generalizing σ with
  | nil => exact Or.inl h
  | cons e w ih =>
    rcases ih h with h | ⟨e', he', hk⟩
    · rcases mem_ids_step h with h | h
      · exact Or.inl h
      · exact Or.inr ⟨e, mem_cons_self, h⟩
    · exact Or.inr ⟨e', mem_cons_of_mem e he', hk⟩

lemma Level.ids_of_lookup {level : Level} {name : String} {o : Origin}
    (h : List.lookup name level = some o) :
    ∀ k ∈ o.ids, k ∈ Env.ids [level] := by
  intro k hk
  induction level with
  | nil => cases h
  | cons entry level ih =>
    simp only [Env.ids, flatMap_cons, flatMap_nil, append_nil, mem_append] at ih ⊢
    rw [lookup_cons] at h
    split at h
    · cases h
      exact Or.inl hk
    · exact Or.inr (ih h)

lemma Env.ids_of_here {name : String} {o : Origin} (h : σ.here name = some o) :
    ∀ k ∈ o.ids, k ∈ σ.ids := by
  intro k hk
  cases σ with
  | nil => cases h
  | cons level outer =>
    rw [ids_cons]
    exact mem_append_left _ (Level.ids_of_lookup h k hk)

lemma Env.ids_of_lookup {name : String} {o : Origin} (h : σ.lookup name = some o) :
    ∀ k ∈ o.ids, k ∈ σ.ids := by
  intro k hk
  induction σ with
  | nil => cases h
  | cons level outer ih =>
    rw [lookup] at h
    split at h
    · rename_i o' hlevel
      cases h
      exact ids_of_here (σ := level :: outer) hlevel k hk
    · rw [ids_cons]
      exact mem_append_right _ (ih h)

/-! ## Changes -/

/-- Two states know the same about the node with this number. -/
structure SameAt (k : Nat) (r r' : Resolver) : Prop where
  defs : r'.info.defs.find? k = r.info.defs.find? k
  uses : r'.info.uses.find? k = r.info.uses.find? k
  types : r'.info.types.find? k = r.info.types.find? k

/-- **Declared identifiers have bindings of their own**, none of which is below the given number. -/
def Distinct (base : Nat) (info : Info) : Prop :=
  base ≤ info.bindings.size ∧ ∀ k b, info.defs.find? k = some b →
    base ≤ b ∧ b < info.bindings.size ∧ ∀ k', info.defs.find? k' = some b → k' = k

/-- A binding apart from its type. -/
def untyped (b : Binding) : Binding := { b with type := .invalid }

/-- **What a stretch of resolution can do to the names.**  It records something about the given
nodes only.  Bindings are added and may get a type; otherwise they stay as they are. -/
structure Changes (S : List Nat) (r r' : Resolver) : Prop where
  same : ∀ k, k ∉ S → SameAt k r r'
  size_le : r.info.bindings.size ≤ r'.info.bindings.size
  untyped : ∀ b, b < r.info.bindings.size → untyped (r'.info.binding b) = untyped (r.info.binding b)
  distinct : ∀ base, Distinct base r.info → Distinct base r'.info

variable {S S' : List Nat} {r r' r'' : Resolver}

lemma Changes.refl (S : List Nat) (r : Resolver) : Changes S r r where
  same _ _ := ⟨rfl, rfl, rfl⟩
  size_le := Nat.le_refl _
  untyped _ _ := rfl
  distinct _ h := h

lemma Changes.trans (h : Changes S r r') (h' : Changes S r' r'') : Changes S r r'' where
  same k hk :=
    ⟨(h'.same k hk).defs.trans (h.same k hk).defs, (h'.same k hk).uses.trans (h.same k hk).uses,
    (h'.same k hk).types.trans (h.same k hk).types⟩
  size_le := Nat.le_trans h.size_le h'.size_le
  untyped b hb := (h'.untyped b (Nat.lt_of_lt_of_le hb h.size_le)).trans (h.untyped b hb)
  distinct base hr := h'.distinct base (h.distinct base hr)

lemma Changes.mono (h : Changes S r r') (hsub : ∀ k ∈ S, k ∈ S') : Changes S' r r' :=
  { h with same := fun k hk => h.same k fun hmem => hk (hsub k hmem) }

/-- Steps that leave all that is known about names and types as it is. -/
lemma Changes.of_info (h : r'.info = r.info) : Changes S r r' where
  same _ _ := ⟨by rw [h], by rw [h], by rw [h]⟩
  size_le := Nat.le_of_eq (by rw [h])
  untyped _ _ := by rw [h]
  distinct _ hr := by rwa [h]

lemma Changes.name (h : Changes S r r') {b : Nat} (hb : b < r.info.bindings.size) :
    (r'.info.binding b).name = (r.info.binding b).name :=
  (congrArg Binding.name (h.untyped b hb) :)

lemma Changes.kind (h : Changes S r r') {b : Nat} (hb : b < r.info.bindings.size) :
    (r'.info.binding b).kind = (r.info.binding b).kind :=
  (congrArg Binding.kind (h.untyped b hb) :)

lemma Changes.loc (h : Changes S r r') {b : Nat} (hb : b < r.info.bindings.size) :
    (r'.info.binding b).loc = (r.info.binding b).loc :=
  (congrArg Binding.loc (h.untyped b hb) :)

/-- Nothing is known about some nodes. -/
def Untouched (r : Resolver) (T : List Nat) : Prop :=
  ∀ k ∈ T, r.info.defs.find? k = none ∧ r.info.uses.find? k = none

lemma Untouched.left {T U : List Nat} (h : Untouched r (T ++ U)) : Untouched r T :=
  fun k hk => h k (mem_append_left U hk)

lemma Untouched.right {T U : List Nat} (h : Untouched r (T ++ U)) : Untouched r U :=
  fun k hk => h k (mem_append_right T hk)

lemma Untouched.kept {T : List Nat} (hT : Untouched r T) (h : Changes S r r')
    (hdisjoint : T.Disjoint S) :
    Untouched r' T := by
  intro k hk
  have hsame := h.same k (hdisjoint hk)
  rw [hsame.defs, hsame.uses]
  exact hT k hk

/-! ## What stays right -/

lemma Origin.number?_kept {o : Origin} (h : Changes S r r') (ho : ∀ k ∈ o.ids, k ∉ S) :
    o.number? r'.info = o.number? r.info := by
  cases o with
  | ident i => exact (h.same _ (ho _ mem_cons_self)).defs
  | _ => rfl

lemma Env.binding?_kept (h : Changes S r r') (hσ : ∀ k ∈ σ.ids, k ∉ S) (name : String) :
    σ.binding? r'.info name = σ.binding? r.info name := by
  rw [binding?, binding?]
  cases hlookup : σ.lookup name with
  | none => rfl
  | some o => exact Origin.number?_kept h fun k hk => hσ k (ids_of_lookup hlookup k hk)

lemma bindingOf?_kept (h : Changes S r r') {i : Ident} (hi : i.mark.id ∉ S) :
    r'.info.bindingOf? i = r.info.bindingOf? i := by
  rw [Info.bindingOf?, Info.bindingOf?, (h.same _ hi).defs, (h.same _ hi).uses]

lemma Declared.kept {i : Ident} (hd : Declared r.info i) (h : Changes S r r') (hi : i.mark.id ∉ S) :
    Declared r'.info i := by
  obtain ⟨b, hb, hlt, hname, hloc⟩ := hd
  refine ⟨b, ?_, Nat.lt_of_lt_of_le hlt h.size_le, (h.name hlt).trans hname, (h.loc hlt).trans hloc⟩
  rw [(h.same _ hi).defs, hb]

variable {isStruct? : Nat → Option Bool}

/-- What is right for an event stays right while nothing is recorded about the identifiers that it
depends on. -/
lemma Event.Holds.kept (he : e.Holds r.info isStruct? σ) (h : Changes S r r')
    (hids : ∀ k ∈ e.ids, k ∉ S) (hσ : ∀ k ∈ σ.ids, k ∉ S) : e.Holds r'.info isStruct? σ := by
  cases e with
  | imported name b =>
    obtain ⟨hlt, hkind, hname⟩ := he
    exact ⟨Nat.lt_of_lt_of_le hlt h.size_le, (h.kind hlt).trans hkind, (h.name hlt).trans hname⟩
  | declare i => exact Declared.kept he h (hids _ mem_cons_self)
  | define i =>
    have hi := hids _ mem_cons_self
    rw [Holds] at he ⊢
    cases hhere : σ.here i.name with
    | none =>
      rw [hhere] at he
      exact Declared.kept he h hi
    | some o =>
      rw [hhere] at he
      dsimp only at he ⊢
      rwa [(h.same _ hi).defs, bindingOf?_kept h hi,
        Origin.number?_kept h fun k hk => hσ k (Env.ids_of_here hhere k hk)]
  | use i =>
    rw [Holds] at he ⊢
    rwa [bindingOf?_kept h (hids _ mem_cons_self), Env.binding?_kept h hσ]
  | qualifier i =>
    rw [Holds] at he ⊢
    rwa [bindingOf?_kept h (hids _ mem_cons_self)]
  | key literal i =>
    rw [Holds] at he ⊢
    rwa [bindingOf?_kept h (hids _ mem_cons_self), Env.binding?_kept h hσ]
  | blank i =>
    rw [Holds] at he ⊢
    rwa [bindingOf?_kept h (hids _ mem_cons_self)]
  | _ => trivial

lemma HoldsAll.kept (hw : HoldsAll r.info isStruct? σ w) (h : Changes S r r')
    (hids : ∀ e ∈ w, ∀ k ∈ e.ids, k ∉ S)
    (hσ : ∀ k ∈ σ.ids, k ∉ S) : HoldsAll r'.info isStruct? σ w := by
  induction w generalizing σ with
  | nil => trivial
  | cons e w ih =>
    have he := hids e mem_cons_self
    refine ⟨hw.1.kept h he hσ, ih hw.2 (fun e' he' => hids e' (mem_cons_of_mem e he')) ?_⟩
    intro k hk
    rcases Env.mem_ids_step hk with hk | hk
    · exact hσ k hk
    · exact he k hk

lemma holdsAll_append {info : Info} :
    HoldsAll info isStruct? σ (w ++ w') ↔ HoldsAll info isStruct? σ w ∧
    HoldsAll info isStruct? (σ.run w) w' := by
  induction w generalizing σ with
  | nil => simp [HoldsAll, Env.run]
  | cons e w ih =>
    rw [cons_append, HoldsAll, ih, HoldsAll, and_assoc]
    rfl

/-! ## Scopes and environments -/

/-- A binding is that of what declared a name. -/
structure Origin.Stands (info : Info) (o : Origin) (b : Nat) : Prop where
  number : o.number? info = some b
  lt : b < info.bindings.size
  kind : (info.binding b).kind = .package ↔ ∃ c, o = .imported c

/-- In a frame each name is bound to the binding of what declared it in a level. -/
def FrameShows (info : Info) (level : Level) (frame : Frame) : Prop :=
  ∀ name, Option.Rel (Origin.Stands info) (List.lookup name level) (frame.find? name)

/-- **A scope shows an environment**, frame by frame. -/
def Shows (info : Info) : Env → Scope → Prop := Forall₂ (FrameShows info)

variable {info : Info} {scope : Scope}

lemma Shows.lookup (h : Shows info σ scope) (name : String) :
    Option.Rel (Origin.Stands info) (σ.lookup name) (scope.lookup name) := by
  induction h with
  | nil => exact .none
  | @cons level frame _ _ hframe _ ih =>
    rw [Env.lookup, Scope.lookup]
    have hname := hframe name
    generalize List.lookup name level = o? at hname ⊢
    generalize frame.find? name = b? at hname ⊢
    cases hname with
    | some hb => exact .some hb
    | none => exact ih

lemma Shows.here (h : Shows info σ scope) (name : String) :
    Option.Rel (Origin.Stands info) (σ.here name) (scope.lookupHere name) := by
  cases h with
  | nil => exact .none
  | cons hframe _ => exact hframe name

/-- A new scope shows a new level. -/
lemma Shows.nested (h : Shows info σ scope) : Shows info ([] :: σ) scope.nested :=
  .cons (fun _ => .none) h

lemma FrameShows.insert {level : Level} {frame : Frame} {o : Origin} {b : Nat}
    (h : FrameShows info level frame) (name : String) (hb : o.Stands info b) :
    FrameShows info ((name, o) :: level) (frame.insert name b) := by
  intro name'
  rw [Table.find?_insert, lookup_cons]
  by_cases hname : name = name'
  · subst hname
    rw [if_pos rfl, beq_self_eq_true]
    exact .some hb
  · rw [if_neg hname, beq_false_of_ne fun heq => hname heq.symm]
    exact h name'

/-- To declare a name in a scope is to declare it in the environment. -/
lemma Shows.declare {o : Origin} {b : Nat} (h : Shows info σ scope) (name : String)
    (hb : o.Stands info b) :
    Shows info (σ.push name o) (scope.declare name b) := by
  cases h with
  | nil =>
    have hframe : FrameShows info [] {} := fun _ => .none
    exact .cons (hframe.insert name hb) .nil
  | cons hframe houter => exact .cons (hframe.insert name hb) houter

lemma Origin.Stands.kept {o : Origin} {b : Nat} (hb : o.Stands r.info b) (h : Changes S r r')
    (ho : ∀ k ∈ o.ids, k ∉ S) : o.Stands r'.info b where
  number := by rw [number?_kept h ho, hb.number]
  lt := Nat.lt_of_lt_of_le hb.lt h.size_le
  kind := by rw [h.kind hb.lt, hb.kind]

lemma FrameShows.kept {level : Level} {frame : Frame} (hf : FrameShows r.info level frame)
    (h : Changes S r r')
    (hlevel : ∀ k ∈ Env.ids [level], k ∉ S) : FrameShows r'.info level frame := by
  intro name
  have hname := hf name
  generalize hlookup : List.lookup name level = o? at hname ⊢
  generalize frame.find? name = b? at hname ⊢
  cases hname with
  | some hb => exact .some (hb.kept h fun k hk => hlevel k (Level.ids_of_lookup hlookup k hk))
  | none => exact .none

/-- A scope goes on showing an environment while nothing is recorded about the identifiers that
declared its names. -/
lemma Shows.kept (hs : Shows r.info σ scope) (h : Changes S r r') (hσ : ∀ k ∈ σ.ids, k ∉ S) :
    Shows r'.info σ scope := by
  induction hs with
  | nil => exact .nil
  | cons hframe _ ih =>
    rw [Env.ids_cons] at hσ
    exact .cons (hframe.kept h fun k hk => hσ k (mem_append_left _ hk))
      (ih fun k hk => hσ k (mem_append_right _ hk))

end Recast.Lexical
