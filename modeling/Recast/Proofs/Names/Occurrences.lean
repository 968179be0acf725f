import Recast.Proofs.Names.Reading

/-!
# Occurrences of identifiers

What the resolver records about a single identifier, by the place where it stands: used in an
expression, before a dot, on the left of `:=`, as the key of an element of a literal.
-/

namespace Recast.Lexical

open List hiding get
open Resolve hiding bind

variable {bg : Background} {cond : Prop} {scope : Scope} {T : List Nat} {w : List Event}
  {σ : Env} {r r' : Resolver}

/-! ## Definitions -/

/-- What an identifier refers to, once that is recorded. -/
lemma bindingOf?_refers {i : Ident} (b : Nat) (hready : bg.Ready r T) (hi : i.mark.id ∈ T) :
    ((refers i b).run r).2.info.bindingOf? i = some b := by
  have hdefs : ((refers i b).run r).2.info.defs.find? i.mark.id = none := (hready.untouched _ hi).1
  rw [Info.bindingOf?, hdefs]
  show (r.info.uses.insert i.mark.id b).find? i.mark.id = some b
  rw [Table.find?_insert, if_pos rfl]

/-- The type of a node is none of the things that make bindings right. -/
lemma holds_typed {e : Event} {isStruct? : Nat → Option Bool} (m : Mark) (t : Ty)
    (h : e.Holds r.info isStruct? σ) :
    e.Holds ((typed m t).run r).2.info isStruct? σ := by
  cases e with
  | _ => exact h

/-- **Definitions**: on the left of `:=`. -/
lemma reads_defineOrReuse {i : Ident} (hi : ¬(i.name == "_") = true) (t : Ty) :
    Reads bg cond scope [i.mark.id] [.define i] (defineOrReuse i t scope) (Showing id) := by
  cases hscope : scope.lookupHere i.name with
  | none =>
    have heq : defineOrReuse i t scope = define i t.defaulted scope := by
      rw [defineOrReuse, hscope]
    rw [heq]
    refine (records_define i _ scope).reads (ids_of_singleton rfl) ?_
    intro σ r hclear _ hs
    have hhere : σ.here i.name = none := by
      have h := hs.here i.name
      rw [hscope] at h
      generalize σ.here i.name = o? at h ⊢
      cases h
      rfl
    obtain ⟨hdeclared, hshows⟩ := declared_define hi t.defaulted hclear hs
    refine ⟨fun _ => ⟨?_, trivial⟩, ?_⟩
    · rw [Event.Holds, hhere]
      exact hdeclared
    · rw [Env.run, foldl_cons, Env.step, hhere]
      exact hshows
  | some b =>
    have heq : defineOrReuse i t scope = (do
        refers i b
        let _ ← typed i.mark (← bindingAt b).type
        return scope) := by
      rw [defineOrReuse, hscope]
    rw [heq]
    have hrecords : Records [i.mark.id] (do
        refers i b
        let _ ← typed i.mark (← bindingAt b).type
        return scope) :=
      ⟨fun _ => ⟨rfl, rfl, rfl⟩, fun r => (changes_refers i b r).trans (changes_typed i.mark _ _)⟩
    refine hrecords.reads (ids_of_singleton rfl) ?_
    intro σ r hclear hready hs
    have hs' := (hrecords.changes r).shows hclear hs
    have h := hs'.here i.name
    rw [hscope] at h
    generalize hhere : σ.here i.name = o? at h
    cases h with
    | some hb =>
      refine ⟨fun _ => ⟨?_, trivial⟩, ?_⟩
      · rw [Event.Holds, hhere]
        refine ⟨(hready.untouched _ mem_cons_self).1, ?_⟩
        exact (bindingOf?_refers b hready mem_cons_self).trans hb.number.symm
      · rw [Env.run, foldl_cons, Env.step, hhere]
        exact hs'

/-! ## Uses -/

lemma reads_complete (b : Nat) :
    Reads bg cond scope [] [] (bg.complete b) (Showing fun _ => scope) where
  ids := by simp
  step σ r hclear hready hs := by
    obtain ⟨hinv, hchanges⟩ := bg.completes b r hready.inv
    have hstep : bg.Step cond σ [] [] r ((bg.complete b).run r).2 :=
      ⟨hchanges, hinv, fun _ _ => trivial⟩
    exact ⟨hstep, hstep.shows hclear hs⟩

/-- What the resolver does with a binding that an identifier refers to. -/
lemma reads_bindingType (i : Ident) (b : Nat) : Reads bg cond scope [] [] (do
    let binding ← bindingAt b
    match binding.kind with
    | .type =>
      denotesType i.mark
      bg.complete b
    | .package => return .invalid
    | _ => return binding.type) (Showing fun _ => scope) := by
  refine .afterSilent (still_bindingAt b).silent fun binding => ?_
  cases binding.kind with
  | type => exact .afterSilent (silent_denotesType _) fun _ => reads_complete b
  | _ => exact (silent_pure _).reads

/-- The binding of a name, where the scope shows the environment. -/
lemma Shows.binding? {info : Info} (hs : Shows info σ scope) (name : String) :
    σ.binding? info name = scope.lookup name := by
  have h := hs.lookup name
  rw [Env.binding?]
  generalize σ.lookup name = o? at h ⊢
  generalize scope.lookup name = b? at h ⊢
  cases h with
  | some hb => exact hb.number
  | none => rfl

/-- An identifier that is looked up refers to what its name means. -/
lemma identType_step (i : Ident) (hclear : bg.Clear σ [i.mark.id]) (hready : bg.Ready r [i.mark.id])
    (hs : Shows r.info σ scope) (hr : r' = ((identType bg.complete scope i).run r).2) :
    Changes ([i.mark.id] ++ bg.busy) r r' ∧ bg.inv r' ∧
    (unlessBlank .use i).Holds r'.info bg.isStruct? σ := by
  have hnone := hready.bindingOf? (i := i) mem_cons_self
  rw [identType] at hr
  by_cases hi : (i.name == "_") = true
  · rw [if_pos hi] at hr
    rw [hr, unlessBlank, if_pos hi]
    exact ⟨.refl _ r, hready.inv, hnone⟩
  · rw [if_neg hi] at hr
    rw [unlessBlank, if_neg hi, Event.Holds]
    cases hscope : scope.lookup i.name with
    | none =>
      rw [hscope] at hr
      have hsilent := (still_unresolved ("name " ++ Text.quote i.name) i.mark.loc).silent
      have hinfo : r'.info = r.info := by
        rw [hr]
        exact hsilent.info r
      refine ⟨.of_info hinfo, ?_, ?_⟩
      · rw [hr]
        exact bg.stable [] r _ hready.inv (hsilent.records.changes r)
          (hsilent.records.calm r) (by simp) (by simp)
      · rw [hinfo, hnone, hs.binding?, hscope]
    | some b =>
      rw [hscope] at hr
      have hchanges := changes_refers i b r
      have hinv :=
        bg.stable _ r _ hready.inv hchanges ((records_refers i b).calm r) hclear.busy hclear.held
      have hs' := hchanges.shows hclear hs
      have hclear' : bg.Clear σ [] := ⟨nodup_nil, by simp, by simp, by simp, hclear.env_busy⟩
      have hreads : Reads bg True scope [] [] _ (Showing fun _ => scope) := reads_bindingType i b
      obtain ⟨hstep, -⟩ := hreads.step σ _ hclear' ⟨hinv, by simp [Untouched], by simp⟩ hs'
      have huse : (Event.use i).Holds ((refers i b).run r).2.info bg.isStruct? σ := by
        rw [Event.Holds, bindingOf?_refers b hready mem_cons_self, hs'.binding?, hscope]
      have hr' : r' = _ := hr
      rw [hr']
      refine ⟨(hchanges.mono ?_).trans (hstep.changes.mono ?_), hstep.inv,
        huse.kept hstep.changes ?_ ?_⟩
      · exact fun k hk => mem_append_left _ hk
      · exact fun k hk => mem_append_right _ hk
      · exact fun k hk => hclear.busy hk
      · exact fun k hk => hclear.env_busy hk

/-- **Uses**: in an expression. -/
lemma reads_ident (i : Ident) : Reads bg cond scope [i.mark.id] [unlessBlank .use i]
    (do typed i.mark (← identType bg.complete scope i)) (Showing fun _ => scope) where
  ids := ids_of_singleton (ids_unlessBlank rfl)
  step σ r hclear hready hs := by
    obtain ⟨hchanges, hinv, huse⟩ := identType_step i hclear hready hs rfl
    have htyped := changes_typed i.mark ((identType bg.complete scope i).run r).1
      ((identType bg.complete scope i).run r).2
    have hstep : bg.Step cond σ [unlessBlank .use i] [i.mark.id] r _ :=
      ⟨hchanges.trans (htyped.mono fun k hk => mem_append_left _ hk),
        bg.stable _ _ _ hinv htyped ((records_typed _ _).calm _) hclear.busy hclear.held,
        fun _ _ => ⟨holds_typed i.mark _ huse, trivial⟩⟩
    refine ⟨hstep, ?_⟩
    rw [Showing, keeps_use i]
    exact hstep.shows hclear hs

/-! ## Selectors -/

lemma records_fieldType (m : Mark) (t : Ty) (name : Ident) :
    Records [name.mark.id] (fieldType m t name) := by
  refine still_underlyings.silent.records.bind fun env => ?_
  cases t.member? env name.name with
  | some f => exact records_typed name.mark _
  | none => exact (silent_ite (silent_pure _) (still_unresolved _ _).silent).records.mono (by simp)

/-- What is recorded about the name behind the name of a package. -/
lemma records_member (m : Mark) (package : Ident) (b : Nat) (name : Ident) :
    Records [name.mark.id] (do
    let path := (← bindingAt b).package
    match ((← get).members.find? path).bind (·.find? name.name) with
    | none => unresolved ("name " ++ package.name ++ "." ++ name.name) m.loc
    | some member =>
      refers name member
      let binding ← bindingAt member
      if binding.kind == .type then denotesType m
      return binding.type : Resolve Ty) := by
  refine (still_bindingAt b).silent.records.bind fun binding =>
    still_get.silent.records.bind fun r => ?_
  cases (r.members.find? binding.package).bind (·.find? name.name) with
  | none => exact (still_unresolved _ _).silent.records.mono (by simp)
  | some member =>
    refine (records_refers name member).bind fun _ =>
      ((still_bindingAt member).silent.bind fun binding => ?_).records
    exact silent_ite ((silent_denotesType m).bind fun _ => silent_pure _) (silent_pure _)

lemma ids_baseEvent (i : Ident) : (baseEvent i).ids = [i.mark.id] := by
  rw [baseEvent]
  split
  · rfl
  · rfl

/-- The name of a package before a dot. -/
lemma memberType_step {i name : Ident} {b : Nat} (m : Mark)
    (hclear : bg.Clear σ [i.mark.id, name.mark.id])
    (hready : bg.Ready r [i.mark.id, name.mark.id]) (hs : Shows r.info σ scope)
    (hscope : scope.lookup i.name = some b) (hkind : (r.info.binding b).kind = .package) :
    bg.Step cond σ [baseEvent i] [i.mark.id, name.mark.id] r ((memberType m i b name).run r).2 := by
  have hrecords : Records [i.mark.id, name.mark.id] (memberType m i b name) :=
    (records_refers i b).bind fun _ => records_member m i b name
  have hrefers := changes_refers i b r
  have hrest := (records_member m i b name).changes ((refers i b).run r).2
  have hbase : ((memberType m i b name).run r).2.info.bindingOf? i = some b := by
    refine (bindingOf?_kept hrest ?_).trans (bindingOf?_refers b hready mem_cons_self)
    intro hmem
    exact (nodup_cons.mp hclear.nodup).1 hmem
  have hs' := (hrecords.changes r).shows hclear hs
  refine ⟨(hrecords.changes r).mono fun k hk => mem_append_left _ hk, ?_, fun _ _ => ⟨?_, trivial⟩⟩
  · exact bg.stable _ r _ hready.inv (hrecords.changes r) (hrecords.calm r) hclear.busy hclear.held
  · rw [baseEvent]
    split
    · have h := hs.lookup i.name
      rw [hscope] at h
      rw [Event.Holds, hbase, Env.package?]
      generalize σ.lookup i.name = o? at h ⊢
      cases h with
      | some hb =>
        obtain ⟨c, rfl⟩ := hb.kind.mp hkind
        exact hb.number.symm
    · rw [Event.Holds, hbase, hs'.binding?, hscope]

/-- A blank that is not the name of a package means nothing before a dot. -/
lemma holds_baseEvent {i : Ident} {info : Info} {isStruct? : Nat → Option Bool}
    (hnone : (i.name == "_") = true → σ.package? i.name = none)
    (h : (unlessBlank .use i).Holds info isStruct? σ) :
    (baseEvent i).Holds info isStruct? σ := by
  rw [baseEvent]
  rw [unlessBlank] at h
  split at h
  · rename_i hi
    rw [if_pos hi, Event.Holds, hnone hi]
    exact h
  · rename_i hi
    rw [if_neg hi]
    exact h

/-- A variable, or anything else that is no package, before a dot. -/
lemma reads_fieldOf {x : Resolve Ty} (m : Mark) (name : Ident)
    (hx : Reads bg cond scope T w x (Showing fun _ => scope)) :
    Reads bg cond scope (T ++ ([name.mark.id] ++ [m.id])) w (do
      let t ← x
      typed m (← fieldType m t name)) (Showing fun _ => scope) := by
  have h :=
    hx.bind fun t => ((records_fieldType m t name).bind fun u => records_typed m u).readsNothing
  rwa [append_nil] at h

/-- What a selector with a plain identifier before the dot is, given the package that the identifier
names. -/
def selectIdent (complete : Nat → Resolve Ty) (scope : Scope) (m : Mark) (i name : Ident) :
    Option (Ident × Nat) → Resolve Ty
  | some (package, b) => do typed m (← memberType m package b name)
  | none => do
    let t ← expr complete scope none (.ident i)
    typed m (← fieldType m t name)

/-- **Before a dot**: an identifier. -/
lemma reads_selectIdent (m : Mark) (i name : Ident) (expected : Option Ty) :
    Reads bg cond scope ([i.mark.id] ++ ([name.mark.id] ++ [m.id])) [baseEvent i]
      (expr bg.complete scope expected (.select m (.ident i) name)) (Showing fun _ => scope) where
  ids e he k hk := by
    rw [mem_singleton.mp he, ids_baseEvent] at hk
    exact mem_append_left _ hk
  step σ r hclear hready hs := by
    have hrun : (expr bg.complete scope expected (.select m (.ident i) name)).run r =
        (selectIdent bg.complete scope m i name ((packageOf? scope (.ident i)).run r).1).run
          ((packageOf? scope (.ident i)).run r).2 := by
      rw [expr]
      rfl
    have hkeeps : σ.run [baseEvent i] = σ := keeps_exprWord (.select m (.ident i) name) σ
    have hfield : (∀ c, σ.lookup i.name ≠ some (.imported c)) →
        bg.Step cond σ [baseEvent i] ([i.mark.id] ++ ([name.mark.id] ++ [m.id])) r
          ((selectIdent bg.complete scope m i name none).run r).2 := by
      intro hnone
      have hident : Reads bg cond scope [i.mark.id] [unlessBlank .use i]
        (expr bg.complete scope none (.ident i))
          (Showing fun _ => scope) := by
        rw [expr]
        exact reads_ident i
      obtain ⟨hstep, -⟩ := (reads_fieldOf m name hident).step σ r hclear hready hs
      refine ⟨hstep.changes, hstep.inv, fun hcond hforetold => ⟨?_, trivial⟩⟩
      refine holds_baseEvent ?_ (hstep.holds hcond hforetold).1
      intro _
      rw [Env.package?]
      split
      · rename_i c hc
        exact absurd hc (hnone c)
      · rfl
    suffices hstep : bg.Step cond σ [baseEvent i] ([i.mark.id] ++ ([name.mark.id] ++ [m.id])) r
        ((expr bg.complete scope expected (.select m (.ident i) name)).run r).2 by
      refine ⟨hstep, ?_⟩
      rw [Showing, hkeeps]
      exact hstep.shows hclear hs
    rw [hrun]
    have h := hs.lookup i.name
    cases hscope : scope.lookup i.name with
    | none =>
      have hpackage : packageOf? scope (.ident i) = pure none := by
        rw [packageOf?, hscope]
      rw [hpackage]
      refine hfield ?_
      intro c hc
      rw [hc, hscope] at h
      cases h
    | some b =>
      have hpackage : (packageOf? scope (.ident i)).run r =
          (if (r.info.binding b).kind == .package then some (i, b) else none, r) := by
        rw [packageOf?, hscope]
        rfl
      rw [hpackage]
      by_cases hkind : (r.info.binding b).kind = .package
      · rw [if_pos (beq_iff_eq.mpr hkind)]
        have hclear' : bg.Clear σ ([i.mark.id, name.mark.id] ++ [m.id]) := hclear
        have hready' : bg.Ready r ([i.mark.id, name.mark.id] ++ [m.id]) := hready
        have hmember : bg.Step cond σ [baseEvent i] [i.mark.id, name.mark.id] r _ :=
          memberType_step m hclear'.left hready'.left hs hscope hkind
        have hids : ∀ e ∈ [baseEvent i], ∀ k ∈ e.ids, k ∈ [i.mark.id, name.mark.id] := by
          intro e he k hk
          rw [mem_singleton.mp he, ids_baseEvent] at hk
          exact mem_append_left [name.mark.id] hk
        obtain ⟨htyped, -⟩ := (records_typed m ((memberType m i b name).run r).1).readsNothing.step
          (σ.run [baseEvent i]) _ (hclear'.behind hids) (hready'.right hclear' hmember)
          (hkeeps.symm ▸ hmember.shows hclear'.left hs)
        exact hmember.trans htyped hclear' (hclear'.late hids)
      · rw [if_neg (fun heq => hkind (beq_iff_eq.mp heq))]
        refine hfield ?_
        intro c hc
        rw [hc, hscope] at h
        cases h with
        | some hb => exact hkind (hb.kind.mpr ⟨c, rfl⟩)

/-! ## Keys -/

/-- What was foretold about a literal fits what its type stands for. -/
def Background.Agrees (bg : Background) (literal : Nat) (u : Ty) : Prop :=
  bg.isStruct? literal = none ∨ bg.isStruct? literal = some (isStruct u)

lemma records_keyType (m : Mark) (u : Ty) (key : Ident) :
    Records [key.mark.id] (keyType m u key) := by
  refine still_underlyings.silent.records.bind fun env => ?_
  cases u.member? env key.name with
  | some f => exact records_typed key.mark _
  | none => exact (still_unresolved _ _).silent.records.bind fun _ => records_typed key.mark _

/-- A key that names a field is not looked up. -/
lemma bindingOf?_keyType (m : Mark) (u : Ty) (key i : Ident) (r : Resolver) :
    ((keyType m u key).run r).2.info.bindingOf? i = r.info.bindingOf? i := by
  rw [keyType, run_bind]
  split
  · rfl
  · rfl

/-- A key that is an expression is looked up. -/
lemma holds_key {literal : Nat} {i : Ident} {info : Info} {isStruct? : Nat → Option Bool}
    (hliteral : isStruct? literal ≠ some true) (h : (unlessBlank .use i).Holds info isStruct? σ) :
    (Event.key literal i).Holds info isStruct? σ := by
  refine Or.inr ⟨hliteral, ?_⟩
  rw [unlessBlank] at h
  split at h
  · rename_i hi
    rw [if_pos hi]
    exact h
  · rename_i hi
    rw [if_neg hi]
    exact h

/-- **Keys**: an identifier. -/
lemma reads_keyIdent (literal : Nat) (m : Mark) (u : Ty) (key : Ident) :
    Reads bg (bg.Agrees literal u) scope [key.mark.id] [.key literal key]
      (keyOf bg.complete scope m u (.ident key)) (Showing fun _ => scope) := by
  by_cases hu : isStruct u = true
  · obtain ⟨serial, fields, rfl⟩ : ∃ serial fields, u = .struct serial fields := by
      cases u with
      | struct serial fields => exact ⟨serial, fields, rfl⟩
      | _ => cases hu
    refine (records_keyType m _ key).reads (ids_of_singleton rfl) ?_
    intro σ r hclear hready hs
    refine ⟨fun hagrees => ⟨Or.inl ⟨?_, ?_⟩, trivial⟩,
      ((records_keyType m _ key).changes r).shows hclear hs⟩
    · intro hfalse
      rcases hagrees with h | h
      · cases h.symm.trans hfalse
      · cases h.symm.trans hfalse
    · exact (bindingOf?_keyType m _ key key r).trans (hready.bindingOf? mem_cons_self)
  · have hkey : keyOf bg.complete scope m u (.ident key) = (do
        let _ ← expr bg.complete scope none (.ident key)
        pure (u.elem?.getD .invalid)) := by
      cases u with
      | struct serial fields => exact absurd rfl hu
      | _ => rfl
    rw [hkey, expr]
    refine ((reads_ident key).reword (ids_of_singleton rfl) ?_ ?_).thenSilent
      (fun _ => silent_pure _) fun _ _ => rfl
    · intro σ
      exact (keeps_use key σ).symm
    · intro info σ hagrees h
      refine ⟨holds_key ?_ h.1, trivial⟩
      intro htrue
      rcases hagrees with h | h
      · cases h.symm.trans htrue
      · exact hu (Option.some.inj (h.symm.trans htrue))

end Recast.Lexical
