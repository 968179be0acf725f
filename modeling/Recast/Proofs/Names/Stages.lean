import Recast.Proofs.Names.Completion

/-!
# The stages of a unit

Resolving a unit goes through it several times: for the imports, for the names of types and
functions, for the types, for the signatures, for the package variables and for the bodies.  Each
time it reads a part of the word of the unit.

**Stages.**  A `Stage` leads from one state to another, reads a word on the way, and leaves a scope
that shows the environment behind the word.  Stages are put one behind the other (`Stage.next`).

* `importPackages_stage`, `declareAll_stage`, `completeAll_stage`, `signAll_stage`,
  `reads_declareVars`, `resolveBodies_step` — what each of them does.
-/

namespace Recast.Lexical

open List hiding get modify
open Resolve hiding bind

/-- A word is read between two states, behind which a scope shows the environment. -/
structure Stage (isStruct? : Nat → Option Bool) (env : Underlying) (σ : Env)
    (w : List Event) (T : List Nat) (r r' : Resolver) (scope : Scope) : Prop where
  ids : ∀ e ∈ w, ∀ k ∈ e.ids, k ∈ T
  step : (Background.idle isStruct? env).Step True σ w T r r'
  shows : Shows r'.info (σ.run w) scope

variable {isStruct? : Nat → Option Bool} {env : Underlying} {σ : Env}
  {w w' : List Event} {T U : List Nat}
  {r r' r'' : Resolver} {scope scope' outer : Scope} {frame : Frame} {b : Nat}

/-- One stage behind the other. -/
lemma Stage.next (h : Stage isStruct? env σ w T r r' scope)
    (hclear : (Background.idle isStruct? env).Clear σ (T ++ U))
    (h' : Stage isStruct? env (σ.run w) w' U r' r'' scope') :
    Stage isStruct? env σ (w ++ w') (T ++ U) r r'' scope' where
  ids e he k hk := by
    rcases mem_append.mp he with he | he
    · exact mem_append_left _ (h.ids e he k hk)
    · exact mem_append_right _ (h'.ids e he k hk)
  step := h.step.trans h'.step hclear (hclear.late h.ids)
  shows := by
    rw [Env.run_append]
    exact h'.shows

/-- Nothing is recorded about the nodes of later stages. -/
lemma Stage.untouched (h : Stage isStruct? env σ w T r r' scope)
    (hclear : (Background.idle isStruct? env).Clear σ (T ++ U))
    (huntouched : Untouched r (T ++ U)) : Untouched r' U := by
  refine huntouched.right.kept h.step.changes fun k hk hmem => ?_
  rcases mem_append.mp hmem with hmem | hmem
  · exact disjoint_of_nodup_append hclear.nodup hmem hk
  · cases hmem

/-- A computation that only records something makes a stage if it makes the bindings right for the
word. -/
lemma Changes.stage (h : Changes T r r') (hids : ∀ e ∈ w, ∀ k ∈ e.ids, k ∈ T)
    (hw : HoldsAll r'.info isStruct? σ w)
    (hs : Shows r'.info (σ.run w) scope) : Stage isStruct? env σ w T r r' scope :=
  ⟨hids, ⟨h.mono fun _ hk => mem_append_left _ hk, trivial, fun _ _ => hw⟩, hs⟩

/-! ## Imports -/

lemma records_bind (x : Binding) : Records [] (Resolve.bind x) :=
  ⟨fun _ => ⟨rfl, rfl, rfl⟩, changes_bind x⟩

lemma records_bindMembers (path : String) (es : List Library.Entry) (frame : Frame) :
    Records [] (bindMembers path es frame) := by
  induction es generalizing frame with
  | nil => exact (silent_pure frame).records
  | cons e es ih => exact (records_bind _).bind fun b => ih _

lemma size_bindMembers (path : String) (es : List Library.Entry) (frame : Frame) (r : Resolver) :
    ((bindMembers path es frame).run r).2.info.bindings.size =
      r.info.bindings.size + es.length := by
  induction es generalizing frame r with
  | nil => rfl
  | cons e es ih =>
    rw [bindMembers, run_bind, ih, length_cons]
    show (r.info.bindings.push _).size + es.length = _
    rw [Array.size_push]
    omega

/-- Binds what is known about a package. -/
def loadMembers (path : String) : Resolve Unit := do
  let old := ((← get).members.find? path).getD {}
  let frame ← bindMembers path ((Library.packages.find? path).getD []) old
  modify fun r => { r with members := r.members.insert path frame }
  if (Library.packages.find? path).isNone then
    note ((← get).file ++ ": no member table for package " ++ Text.quote path)

/-- The binding of an imported package. -/
def packageBinding (spec : Import) : Binding :=
  { name := baseName spec.path, kind := .package, loc := spec.mark.loc, package := spec.path }

lemma importPackage_eq (spec : Import) (frame : Frame) : importPackage spec frame = (do
    let b ← Resolve.bind (packageBinding spec)
    loadMembers spec.path
    return frame.insert (baseName spec.path) b) := by
  rw [importPackage]
  cases h : Library.packages.find? spec.path with
  | none =>
    rw [loadMembers, h]
    rfl
  | some es =>
    rw [loadMembers, h]
    rfl

lemma records_loadMembers (path : String) : Records [] (loadMembers path) := by
  refine .afterSilent still_get.silent fun r => (records_bindMembers _ _ _).bind
    fun frame => Silent.records ?_
  refine Silent.bind ⟨fun _ => rfl, fun _ => rfl, fun _ => rfl, fun _ => rfl, fun _ => rfl⟩
    fun _ => ?_
  exact (still_ite (still_get.bind fun _ => still_note _) (still_pure _)).silent

lemma size_loadMembers (path : String) (r : Resolver) :
    ((loadMembers path).run r).2.info.bindings.size = r.info.bindings.size + memberCount path := by
  rw [loadMembers]
  split
  · exact size_bindMembers path _ _ r
  · exact size_bindMembers path _ _ r

/-- An import declares the name of the package. -/
lemma importPackage_stage (spec : Import) (hs : Shows r.info σ (frame :: outer))
    (hb : r.info.bindings.size = b)
    {p : Frame × Resolver} (hp : (importPackage spec frame).run r = p) :
    Stage isStruct? env σ [.imported (baseName spec.path) b] [] r p.2 (p.1 :: outer) ∧
      p.2.info.bindings.size = b + 1 + memberCount spec.path ∧ Calm r p.2 := by
  subst hb
  subst hp
  rw [importPackage_eq, run_bind]
  have hcalm := (records_bind (packageBinding spec)).calm r
  have hbind := changes_bind (packageBinding spec) r
  have hsize := size_bind (packageBinding spec) r
  have hnew := binding_bind (packageBinding spec) r
  generalize ((Resolve.bind (packageBinding spec)).run r).2 = r₁ at hcalm hbind hsize hnew ⊢
  have hload := (records_loadMembers spec.path).changes r₁
  have hcalm' := (records_loadMembers spec.path).calm r₁
  have hsize' := size_loadMembers spec.path r₁
  have hlt : r.info.bindings.size < r₁.info.bindings.size := by omega
  have hkind := (hload.kind hlt).trans (congrArg Binding.kind hnew)
  have hname := (hload.name hlt).trans (congrArg Binding.name hnew)
  have hlt' := Nat.lt_of_lt_of_le hlt hload.size_le
  have hchanges := hbind.trans hload
  refine ⟨hchanges.stage (by simp [Event.ids]) ⟨⟨hlt', hkind, hname⟩, trivial⟩ ?_,
    ?_, hcalm.trans hcalm'⟩
  · exact (hs.kept hchanges (by simp)).declare _ ⟨rfl, hlt', iff_of_true hkind ⟨_, rfl⟩⟩
  · exact hsize'.trans (by rw [hsize])

lemma clear_nil : (Background.idle isStruct? env).Clear σ [] :=
  ⟨nodup_nil, by simp, by simp, by simp, by simp [Background.idle]⟩

/-- **Imports** declare the names of packages. -/
lemma importPackages_stage (specs : List Import) (hs : Shows r.info σ (frame :: outer))
    (hb : r.info.bindings.size = b)
    {p : Frame × Resolver} (hp : (importPackages specs frame).run r = p) :
    Stage isStruct? env σ (importsWord b specs) [] r p.2 (p.1 :: outer) ∧
      p.2.info.bindings.size = behindImports b specs ∧ Calm r p.2 := by
  induction specs generalizing frame σ r b with
  | nil =>
    subst hp
    exact ⟨(Changes.refl [] r).stage (by simp [importsWord]) trivial hs, hb, rfl, rfl, rfl⟩
  | cons spec specs ih =>
    obtain ⟨hstage, hsize, hcalm⟩ := importPackage_stage spec hs hb rfl
    obtain ⟨hstage', hsize', hcalm'⟩ := ih hstage.shows hsize hp
    exact ⟨hstage.next clear_nil hstage', hsize', hcalm.trans hcalm'⟩

/-! ## Names of types and functions -/

/-- The identifier that a type or function declaration declares. -/
def nameNodes : Node → List Node
  | .typeDecl _ name _ _ => [.ident name]
  | .funcDecl _ name _ _ => [.ident name]
  | _ => []

/-- The type of a type declaration. -/
def typeNodes : Node → List Node
  | .typeDecl _ _ type _ => [type]
  | _ => []

/-- Declares the name of a type. -/
def declareType (name : Ident) (type : Node) (isAlias : Bool) : Resolve Nat := do
  let r ← get
  let t : Ty := if isAlias then .invalid else .named r.nextDecl name.name r.package
  let b ← Resolve.bind
    { name := name.name, kind := .type, type := t, loc := name.mark.loc, package := r.package }
  if !isAlias then modify fun r => { r with nextDecl := r.nextDecl + 1 }
  defines name b
  modify fun r => { r with pending := r.pending ++ [⟨b, type, isAlias⟩] }
  return b

/-- Declares the name of a function. -/
def declareFunc (name : Ident) : Resolve Nat := do
  let b ← Resolve.bind
    { name := name.name, kind := .func, loc := name.mark.loc, package := (← get).package }
  defines name b
  return b

variable {m : Mark} {name : Ident} {type : Node} {isAlias : Bool} {ftype : FuncType}
  {body : Option Block} {ds : List Node}

lemma declareAll_typeDecl : declareAll (.typeDecl m name type isAlias :: ds) frame = (do
    let b ← declareType name type isAlias
    declareAll ds (frame.insert name.name b)) := by
  cases isAlias with
  | true => rfl
  | false => rfl

lemma declareAll_funcDecl : declareAll (.funcDecl m name ftype body :: ds) frame = (do
    let b ← declareFunc name
    let (fs, package) ← declareAll ds (frame.insert name.name b)
    return (⟨b, ftype, body, {}⟩ :: fs, package)) := rfl

/-- A computation that gives an identifier a new binding, which may belong to a type that is to be
completed. -/
structure Declares (i : Ident) (new : Nat → List Pending) (a : Resolve Nat) : Prop where
  number : ∀ r, (a.run r).1 = r.info.bindings.size
  info : ∀ r, ∃ x : Binding, (a.run r).2.info = ((Resolve.bind x >>= defines i).run r).2.info ∧
    x.name = i.name ∧ x.loc = i.mark.loc ∧ x.kind ≠ .package
  pending : ∀ r, (a.run r).2.pending = r.pending ++ new r.info.bindings.size
  active : ∀ r, (a.run r).2.active = r.active
  recorded : ∀ r, (a.run r).2.recorded = r.recorded
  stopped : ∀ r, (a.run r).2.stopped = r.stopped

lemma declares_type (name : Ident) (type : Node) (isAlias : Bool) :
    Declares name (fun b => [⟨b, type, isAlias⟩]) (declareType name type isAlias) := by
  cases isAlias with
  | true =>
    exact ⟨fun _ => rfl, fun _ => ⟨_, rfl, rfl, rfl, nofun⟩, fun _ => rfl, fun _ => rfl,
      fun _ => rfl, fun _ => rfl⟩
  | false =>
    exact ⟨fun _ => rfl, fun _ => ⟨_, rfl, rfl, rfl, nofun⟩, fun _ => rfl, fun _ => rfl,
      fun _ => rfl, fun _ => rfl⟩

lemma declares_func (name : Ident) : Declares name (fun _ => []) (declareFunc name) :=
  ⟨fun _ => rfl, fun _ => ⟨_, rfl, rfl, rfl, nofun⟩, fun r => (append_nil r.pending).symm,
    fun _ => rfl, fun _ => rfl, fun _ => rfl⟩

lemma Declares.size {i : Ident} {new : Nat → List Pending} {a : Resolve Nat}
    (h : Declares i new a) (r : Resolver) :
    (a.run r).2.info.bindings.size = r.info.bindings.size + 1 := by
  obtain ⟨x, hinfo, -⟩ := h.info r
  rw [hinfo]
  exact size_bind x r

/-- A name gets a binding of its own. -/
lemma Declares.stage {i : Ident} {new : Nat → List Pending} {a : Resolve Nat} (h : Declares i new a)
    (hclear : (Background.idle isStruct? env).Clear σ [i.mark.id])
    (hs : Shows r.info σ (frame :: outer)) :
    Stage isStruct? env σ [.declare i] [i.mark.id] r (a.run r).2
      (frame.insert i.name (a.run r).1 :: outer) := by
  obtain ⟨x, hinfo, hname, hloc, hkind⟩ := h.info r
  have hchanges : Changes [i.mark.id] r (a.run r).2 :=
    (changes_bind_defines i x r).trans (.of_info hinfo)
  obtain ⟨hdeclared, hstands⟩ :=
    declared_bind hname hloc hkind (congrArg Info.defs hinfo) (congrArg Info.bindings hinfo)
  rw [h.number r]
  exact hchanges.stage (ids_of_singleton rfl) ⟨hdeclared, trivial⟩
    ((hchanges.shows hclear hs).declare i.name hstands)

/-- **The names of types and functions** are declared before anything else is looked at. -/
lemma declareAll_stage (ds : List Node)
    (hclear : (Background.idle isStruct? env).Clear σ (ids (ds.flatMap nameNodes)))
    (hs : Shows r.info σ (frame :: outer)) :
    Stage isStruct? env σ (ds.flatMap declaredName) (ids (ds.flatMap nameNodes)) r
      ((declareAll ds frame).run r).2 (((declareAll ds frame).run r).1.2 :: outer) := by
  induction ds generalizing frame σ r with
  | nil =>
    rw [flatMap_nil, flatMap_nil, ids_nil]
    exact (Changes.refl [] r).stage (by simp) trivial hs
  | cons d ds ih =>
    rw [flatMap_cons, ids_append] at hclear
    rw [flatMap_cons, flatMap_cons, ids_append]
    cases d with
    | typeDecl m name type isAlias =>
      rw [nameNodes, ids_ident] at hclear ⊢
      have hfirst := (declares_type name type isAlias).stage hclear.left hs
      have hrest := ih (hclear.behind hfirst.ids) hfirst.shows
      rw [declareAll_typeDecl]
      exact hfirst.next hclear hrest
    | funcDecl m name ftype body =>
      rw [nameNodes, ids_ident] at hclear ⊢
      have hfirst := (declares_func name).stage hclear.left hs
      have hrest := ih (hclear.behind hfirst.ids) hfirst.shows
      rw [declareAll_funcDecl]
      exact hfirst.next hclear hrest
    | _ =>
      change Background.Clear _ σ (ids [] ++ _) at hclear
      change Stage isStruct? env σ _ (ids [] ++ _) r _ _
      rw [ids_nil] at hclear ⊢
      exact ih hclear hs

/-- The types that are to be completed, each with a binding of its own. -/
lemma declareAll_pending (ds : List Node) (frame : Frame) (r : Resolver) :
    ∃ decls : List Pending, ((declareAll ds frame).run r).2.pending = r.pending ++ decls ∧
      decls.map Pending.type = ds.flatMap typeNodes ∧
      (∀ d ∈ decls, r.info.bindings.size ≤ d.binding) ∧
      (decls.map Pending.binding).Nodup := by
  induction ds generalizing frame r with
  | nil => exact ⟨[], (append_nil _).symm, rfl, by simp, nodup_nil⟩
  | cons d ds ih =>
    cases d with
    | typeDecl m name type isAlias =>
      have hsize := (declares_type name type isAlias).size r
      obtain ⟨decls, hpending, htypes, hle, hnodup⟩ :=
        ih (frame.insert name.name r.info.bindings.size) ((declareType name type isAlias).run r).2
      rw [hsize] at hle
      refine ⟨⟨r.info.bindings.size, type, isAlias⟩ :: decls, ?_, congrArg _ htypes, ?_, ?_⟩
      · rw [declareAll_typeDecl, run_bind, (declares_type name type isAlias).number, hpending,
          (declares_type name type isAlias).pending, append_assoc]
        rfl
      · intro d hd
        rcases mem_cons.mp hd with rfl | hd
        · exact Nat.le_refl _
        · exact Nat.le_of_succ_le (hle d hd)
      · refine nodup_cons.mpr ⟨?_, hnodup⟩
        intro hmem
        obtain ⟨d, hd, heq⟩ := mem_map.mp hmem
        exact absurd (hle d hd) (by rw [heq]; exact Nat.not_succ_le_self _)
    | funcDecl m name ftype body =>
      have hsize := (declares_func name).size r
      obtain ⟨decls, hpending, htypes, hle, hnodup⟩ :=
        ih (frame.insert name.name r.info.bindings.size) ((declareFunc name).run r).2
      rw [hsize] at hle
      refine ⟨decls, ?_, htypes, fun d hd => Nat.le_of_succ_le (hle d hd), hnodup⟩
      rw [declareAll_funcDecl, run_bind, (declares_func name).number]
      exact hpending
    | _ => exact ih frame r

lemma declareAll_active (ds : List Node) (frame : Frame) (r : Resolver) :
    ((declareAll ds frame).run r).2.active = r.active := by
  induction ds generalizing frame r with
  | nil => rfl
  | cons d ds ih =>
    cases d with
    | typeDecl m name type isAlias =>
      rw [declareAll_typeDecl, run_bind, ih, (declares_type name type isAlias).active]
    | funcDecl m name ftype body => exact ih _ _
    | _ => exact ih frame r

/-- What a function declaration contributes. -/
def ofFunction {α : Type} (g : FuncType → Option Block → List α) : Node → List α
  | .funcDecl _ _ type body => g type body
  | _ => []

/-- The functions that come back are those that are declared. -/
lemma declareAll_functions {α : Type} (g : FuncType → Option Block → List α)
    (ds : List Node) (frame : Frame) (r : Resolver) :
    (((declareAll ds frame).run r).1.1.flatMap fun f => g f.type f.body) =
      ds.flatMap (ofFunction g) := by
  induction ds generalizing frame r with
  | nil => rfl
  | cons d ds ih =>
    cases d with
    | typeDecl m name type isAlias =>
      rw [declareAll_typeDecl, run_bind]
      exact ih _ _
    | funcDecl m name ftype body =>
      exact congrArg (g ftype body ++ ·)
        (ih (frame.insert name.name r.info.bindings.size) ((declareFunc name).run r).2)
    | _ => exact ih frame r

/-! ## Types -/

lemma exprsWord_eq_flatMap (ns : List Node) : exprsWord ns = ns.flatMap exprWord := by
  induction ns with
  | nil => rfl
  | cons n ns ih => rw [exprsWord, ih, flatMap_cons]

lemma flatMap_typeWord (ds : List Node) :
    ds.flatMap typeWord = exprsWord (ds.flatMap typeNodes) := by
  rw [exprsWord_eq_flatMap, flatMap_assoc]
  refine congrArg (flatMap · ds) (funext fun d => ?_)
  cases d with
  | typeDecl m name type isAlias => exact (append_nil _).symm
  | _ => rfl

lemma typeIds_eq (decls : List Pending) : typeIds decls = ids (decls.map Pending.type) := by
  induction decls with
  | nil => exact ids_nil.symm
  | cons d decls ih =>
    have hcons : ids (d.type :: decls.map Pending.type) =
        ids [d.type] ++ ids (decls.map Pending.type) :=
      ids_append [d.type] (decls.map Pending.type)
    rw [map_cons, hcons, ← ih]
    rfl

/-- Expressions leave the environment as it is, so each of them can be looked at on its own. -/
lemma holdsAll_exprsWord {info : Info} {ns : List Node}
    (h : ∀ n ∈ ns, HoldsAll info isStruct? σ (exprWord n)) :
    HoldsAll info isStruct? σ (exprsWord ns) := by
  induction ns with
  | nil => trivial
  | cons n ns ih =>
    refine holdsAll_append.mpr ⟨h n mem_cons_self, ?_⟩
    rw [keeps_exprWord n σ]
    exact ih fun n' hn' => h n' (mem_cons_of_mem n hn')

/-- **Types** are completed, in whatever order. -/
lemma completeAll_stage {package : Scope}
    (htypes : r.pending.map Pending.type = ds.flatMap typeNodes)
    (hbindings : (r.pending.map Pending.binding).Nodup) (hactive : r.active = [])
    (hclear : (Background.idle isStruct? env).Clear σ (ids (ds.flatMap typeNodes)))
    (huntouched : Untouched r (ids (ds.flatMap typeNodes)))
    (hnone : ∀ k ∈ ids (ds.flatMap typeNodes), isStruct? k = none)
    (hs : Shows r.info σ package) (hr' : r' = ((completeAll
      (completeWithin package r.pending.length) (r.pending.map Pending.binding)).run r).2) :
    Stage isStruct? env σ (ds.flatMap typeWord) (ids (ds.flatMap typeNodes)) r r' package ∧
    r'.pending = [] := by
  rw [flatMap_typeWord, ← htypes]
  rw [← htypes, ← typeIds_eq] at hclear huntouched hnone
  let D : Declarations :=
    ⟨r.pending, package, σ, isStruct?, hbindings, hclear.nodup, hclear.env, hnone⟩
  have hstart : D.Underway r.pending [] r :=
    { shows := hs
      active := hactive
      declared := fun _ hd => hd
      bound := fun _ hd => hd
      begun := fun _ _ h => absurd h not_mem_nil
      fresh := fun _ hd _ k hk => huntouched k (mem_flatMap.mpr ⟨_, hd, hk⟩)
      done := fun _ hd h => absurd hd h }
  have hbs : ∀ d ∈ r.pending, d.binding ∈ r.pending.map Pending.binding :=
    fun _ hd => mem_map_of_mem hd
  -- At least one declaration may be started, unless there is none.
  have hrun : r' = ((completeAll (completeWithin package (r.pending.length - 1 + 1))
      (r.pending.map Pending.binding)).run r).2 := by
    rw [hr']
    cases r.pending with
    | nil => rfl
    | cons d decls => rfl
  obtain ⟨hchanges, hnil, -, hs', hholds⟩ :=
    Declarations.completeAll_step (D := D) _ _ hstart hbs hrun
  refine ⟨?_, hnil⟩
  have hids := (readsExprs (.idle isStruct? env) (r.pending.map Pending.type) [] none).ids
  have hchanges' : Changes (ids (r.pending.map Pending.type)) r r' :=
    typeIds_eq r.pending ▸ hchanges
  refine hchanges'.stage hids (holdsAll_exprsWord fun n hn => ?_) ?_
  · obtain ⟨d, hd, rfl⟩ := mem_map.mp hn
    exact hholds d hd
  · rw [keeps_exprsWord]
    exact hs'

/-! ## When all types are complete -/

/-- No type declaration is pending, and named types stand for what they stand for in the end. -/
def Settled (env : Underlying) (r : Resolver) : Prop := r.pending = [] ∧ r.info.underlying = env

/-- The background in which all types are complete. -/
def settled (package : Scope) (n : Nat) (isStruct? : Nat → Option Bool) (env : Underlying) :
    Background where
  complete := completeWithin package n
  inv := Settled env
  busy := []
  held := []
  isStruct? := isStruct?
  env := env
  completes b r h := by
    rw [completeWithin_of_pending_eq_nil package n b h.1]
    exact ⟨h, .refl _ _⟩
  stable _ _ _ h _ hcalm _ _ := ⟨hcalm.pending.trans h.1, hcalm.underlying.trans h.2⟩

variable {α : Type} {package : Scope} {n : Nat} {a : Resolve α} {out : α → Scope}
  {post : Env → Info → α → Prop}

/-- What is read when all types are complete. -/
lemma Reads.settled_step (h : Reads (settled package n isStruct? env) True scope T w a post)
    (hclear : (Background.idle isStruct? env).Clear σ T) (hr : Settled env r)
    (huntouched : Untouched r T) (hs : Shows r.info σ scope) :
    (Background.idle isStruct? env).Step True σ w T r (a.run r).2 ∧ Settled env (a.run r).2 ∧
      post (σ.run w) (a.run r).2.info (a.run r).1 := by
  have hclear' : (settled package n isStruct? env).Clear σ T :=
    ⟨hclear.nodup, hclear.busy, hclear.held, hclear.env, hclear.env_busy⟩
  have hready : (settled package n isStruct? env).Ready r T :=
    ⟨hr, huntouched, fun _ _ _ _ h => h.2⟩
  obtain ⟨hstep, hpost⟩ := h.step σ r hclear' hready hs
  exact ⟨⟨hstep.changes, trivial, hstep.holds⟩, hstep.inv, hpost⟩

lemma Reads.stage (h : Reads (settled package n isStruct? env) True scope T w a (Showing out))
    (hclear : (Background.idle isStruct? env).Clear σ T) (hr : Settled env r)
    (huntouched : Untouched r T) (hs : Shows r.info σ scope) {p : α × Resolver} (hp : a.run r = p) :
    Stage isStruct? env σ w T r p.2 (out p.1) ∧ Settled env p.2 := by
  subst hp
  obtain ⟨hstep, hr', hs'⟩ := h.settled_step hclear hr huntouched hs
  exact ⟨⟨h.ids, hstep, hs'⟩, hr'⟩

/-! ## Signatures -/

/-- What the parameters and results of a function mean in its body. -/
def carriedLevel : FuncType → Level
  | .mk _ params results =>
    ((fieldNames params ++ fieldNames results).map fun i => (i.name, Origin.ident i)).reverse

lemma run_carry (is : List Ident) (level : Level) (σ : Env) :
    Env.run (level :: σ) (is.map .carry) =
      ((is.map fun i => (i.name, Origin.ident i)).reverse ++ level) :: σ := by
  induction is generalizing level with
  | nil => rfl
  | cons i is ih =>
    rw [map_cons, map_cons, reverse_cons, append_assoc]
    exact ih ((i.name, .ident i) :: level)

/-- To carry names over is to declare them, as far as the environment is concerned. -/
lemma run_declareAll (names : List Ident) (σ : Env) : σ.run (names.map (unlessBlank .declare)) =
    σ.run ((names.filter fun i => !(i.name == "_")).map .carry) := by
  induction names generalizing σ with
  | nil => rfl
  | cons i names ih =>
    rw [map_cons, filter_cons]
    by_cases hi : (i.name == "_") = true
    · rw [unlessBlank, if_pos hi, hi]
      exact ih σ
    · rw [unlessBlank, if_neg hi, Bool.eq_false_iff.mpr hi]
      exact ih (σ.push i.name (.ident i))

lemma run_fieldsWord (fs : List Field) (σ : Env) :
    σ.run (fieldsWord fs) = σ.run ((fieldNames fs).map .carry) := by
  induction fs generalizing σ with
  | nil => rfl
  | cons f fs ih =>
    obtain ⟨m, names, type⟩ := f
    rw [fieldsWord, Env.run_append, keeps_exprWord, Env.run_append, run_declareAll, ih,
      ← Env.run_append, ← map_append]
    rfl

/-- Behind a signature its names are visible. -/
lemma run_signatureWord (type : FuncType) (σ : Env) :
    Env.run ([] :: σ) (signatureWord type) = carriedLevel type :: σ := by
  obtain ⟨m, params, results⟩ := type
  rw [signatureWord, Env.run_append, run_fieldsWord, run_fieldsWord, ← Env.run_append,
    ← map_append, run_carry, append_nil]
  rfl

/-- The names of a signature are declared in it. -/
lemma mem_ids_carriedLevel {type : FuncType} {k : Nat} (hk : k ∈ Env.ids [carriedLevel type]) :
    k ∈ ids [.funcType type] := by
  rw [← run_signatureWord type []] at hk
  rcases Env.mem_ids_run hk with hk | ⟨e, he, hk⟩
  · cases hk
  · exact (readsSignature (.idle (fun _ => none) {}) type []).ids e he k hk

/-- Gives a function its type. -/
def sign (complete : Nat → Resolve Ty) (package : Scope) (f : Signed) : Resolve (Ty × Scope) := do
  let p ← signature complete package.nested f.type
  setType f.binding p.1
  return p

lemma signAll_cons (complete : Nat → Resolve Ty) (package : Scope) (f : Signed) (fs : List Signed) :
    signAll complete package (f :: fs) = (do
      let p ← sign complete package f
      return { f with frame := p.2.headD {} } :: (← signAll complete package fs)) := rfl

lemma records_setType (b : Nat) (t : Ty) : Records [] (setType b t) :=
  ⟨fun _ => ⟨rfl, rfl, rfl⟩, changes_setType b t⟩

/-- A signature has a scope of its own, whose names are kept for the body. -/
lemma sign_stage (f : Signed)
    (hclear : (Background.idle isStruct? env).Clear σ (ids [.funcType f.type]))
    (hr : Settled env r) (huntouched : Untouched r (ids [.funcType f.type]))
    (hs : Shows r.info σ scope)
    {p : (Ty × Scope) × Resolver} (hp : (sign (completeWithin package n) scope f).run r = p) :
    Stage isStruct? env σ (bracketed (signatureWord f.type)) (ids [.funcType f.type]) r p.2 scope ∧
    Settled env p.2 ∧
      FrameShows p.2.info (carriedLevel f.type) (p.1.2.headD {}) := by
  have hreads : Reads (settled package n isStruct? env) True scope.nested (ids [.funcType f.type])
    (signatureWord f.type)
      (sign (completeWithin package n) scope f) (Showing Prod.snd) := by
    have h := (readsSignature (settled package n isStruct? env) f.type scope.nested).finish
      (fun p => (records_setType f.binding p.1).bind fun _ => (silent_pure p).records)
      fun _ _ => rfl
    exact h.mono (by simp)
  obtain ⟨hstage, hr'⟩ :=
    (hreads.bracketed (stays_signatureWord f.type)).stage hclear hr huntouched hs hp
  obtain ⟨-, -, hs'⟩ := hreads.settled_step hclear.nested hr huntouched hs.nested
  rw [hp] at hs'
  refine ⟨hstage, hr', ?_⟩
  rw [run_signatureWord] at hs'
  obtain ⟨frame, outer, hframe, -, heq⟩ := forall₂_cons_left_iff.mp hs'
  rw [heq]
  exact hframe

/-- **Signatures** are read when all types are complete. -/
lemma signAll_stage (fs : List Signed)
    (hclear : (Background.idle isStruct? env).Clear σ
      (ids (fs.flatMap fun f => [.funcType f.type])))
    (hr : Settled env r) (huntouched : Untouched r (ids (fs.flatMap fun f => [.funcType f.type])))
    (hs : Shows r.info σ scope) {p : List Signed × Resolver}
    (hp : (signAll (completeWithin package n) scope fs).run r = p) :
    Stage isStruct? env σ (fs.flatMap fun f => bracketed (signatureWord f.type))
      (ids (fs.flatMap fun f => [.funcType f.type])) r p.2 scope ∧ Settled env p.2 ∧
      ∀ f ∈ p.1, FrameShows p.2.info (carriedLevel f.type) f.frame := by
  induction fs generalizing r p with
  | nil =>
    subst hp
    rw [flatMap_nil, flatMap_nil, ids_nil]
    exact ⟨(Changes.refl [] r).stage (by simp) trivial hs, hr, fun f hf => absurd hf not_mem_nil⟩
  | cons f fs ih =>
    rw [flatMap_cons, ids_append] at hclear huntouched
    rw [flatMap_cons, flatMap_cons, ids_append]
    have hkeeps := (stays_signatureWord f.type).bracketed σ
    obtain ⟨hfirst, hr', hframe⟩ := sign_stage f hclear.left hr huntouched.left hs rfl
    have hclear' := hclear.behind hfirst.ids
    have hs' := hfirst.shows
    rw [hkeeps] at hclear' hs'
    obtain ⟨hrest, hr'', hframes⟩ := ih hclear' hr' (hfirst.untouched hclear huntouched) hs' rfl
    rw [signAll_cons] at hp
    subst hp
    refine ⟨hfirst.next hclear (hkeeps.symm ▸ hrest), hr'', ?_⟩
    intro f' hf'
    rcases mem_cons.mp hf' with rfl | hf'
    · refine hframe.kept hrest.step.changes fun k hk => ?_
      exact hclear.not_mem_late k (mem_ids_carriedLevel hk)
    · exact hframes f' hf'

/-- The functions stay the same. -/
lemma signAll_functions {β : Type} (g : FuncType → Option Block → List β)
    (complete : Nat → Resolve Ty) (scope : Scope) (fs : List Signed) (r : Resolver) :
    (((signAll complete scope fs).run r).1.flatMap fun f => g f.type f.body) =
      fs.flatMap fun f => g f.type f.body := by
  induction fs generalizing r with
  | nil => rfl
  | cons f fs ih => exact congrArg (g f.type f.body ++ ·) (ih _)

/-! ## Package variables -/

/-- The declaration of package variables. -/
def varNodes : Node → List Node
  | .varSpec m names type values => [.varSpec m names type values]
  | _ => []

/-- **Package variables** are declared in their order. -/
lemma reads_declareVars (bg : Background) (ds : List Node) (scope : Scope) :
    Reads bg True scope (ids (ds.flatMap varNodes)) (ds.flatMap varWord)
      (declareVars bg.complete ds scope) (Showing id) := by
  induction ds generalizing scope with
  | nil =>
    rw [flatMap_nil, flatMap_nil, ids_nil]
    exact reads_pure rfl
  | cons d ds ih =>
    cases d with
    | varSpec m names type values =>
      refine Reads.mono
        ((readsStmt bg (.varSpec m names type values) scope).bind fun scope => ih scope) ?_
      intro k
      exact Nat.le_of_eq (congrArg (count k) (ids_append [.varSpec m names type values] _).symm)
    | _ => exact ih scope

/-! ## Bodies -/

/-- The statements of a body. -/
def bodyStmts : Option Block → List Node
  | some (.mk _ ns) => ns
  | none => []

/-- The events of a body, in the scope that has the names of the signature already. -/
def blockWord (type : FuncType) : Option Block → List Event
  | some (.mk _ ns) => bracketed (carriedWord type ++ stmtsWord ns)
  | none => []

/-- Resolves the body of a function. -/
def resolveBody (complete : Nat → Resolve Ty) (package : Scope) (f : Signed) : Resolve Unit :=
  match f.body with
  | some body => blockStmts complete (f.frame :: package) body
  | none => pure ()

lemma resolveBodies_cons (complete : Nat → Resolve Ty) (package : Scope)
    (f : Signed) (fs : List Signed) :
    resolveBodies complete package (f :: fs) = (do
      resolveBody complete package f
      resolveBodies complete package fs) := by
  rw [resolveBodies, resolveBody]
  cases f.body with
  | none => rfl
  | some body => rfl

lemma run_carriedWord (type : FuncType) (σ : Env) :
    Env.run ([] :: σ) (carriedWord type) = carriedLevel type :: σ := by
  obtain ⟨m, params, results⟩ := type
  rw [carriedWord, run_carry, append_nil]
  rfl

lemma keeps_blockWord (type : FuncType) (body : Option Block) : Keeps (blockWord type body) := by
  intro σ
  match body with
  | none => rfl
  | some (.mk bm ns) =>
    obtain ⟨level, hlevel⟩ := stays_stmtsWord ns (carriedLevel type) σ
    show Env.run ([] :: σ) ((carriedWord type ++ stmtsWord ns) ++ [.leave]) = σ
    rw [Env.run_append, Env.run_append, run_carriedWord, hlevel]
    rfl

/-- A name that is carried over was declared in the signature. -/
lemma ids_carriedWord (type : FuncType) :
    ∀ e ∈ carriedWord type, ∀ k ∈ e.ids, k ∈ ids [.funcType type] := by
  intro e he k hk
  refine mem_ids_carriedLevel ?_
  obtain ⟨m, params, results⟩ := type
  obtain ⟨i, hi, rfl⟩ := mem_map.mp he
  rw [Env.ids, flatMap_singleton]
  exact mem_flatMap.mpr ⟨(i.name, .ident i), mem_reverse.mpr (mem_map_of_mem hi), hk⟩

lemma ids_blockWord (type : FuncType) (body : Option Block) :
    ∀ e ∈ blockWord type body, ∀ k ∈ e.ids, k ∈ ids [.funcType type] ∨
    k ∈ ids (bodyStmts body) := by
  intro e he k hk
  match body with
  | none => cases he
  | some (.mk bm ns) =>
    rcases mem_cons.mp he with rfl | he
    · cases hk
    · rcases mem_append.mp he with he | he
      · rcases mem_append.mp he with he | he
        · exact Or.inl (ids_carriedWord type e he k hk)
        · exact Or.inr ((readsStmts (.idle (fun _ => none) {}) ns []).ids e he k hk)
      · cases mem_singleton.mp he
        cases hk

lemma holdsAll_carriedWord (info : Info) (type : FuncType) (σ : Env) :
    HoldsAll info isStruct? σ (carriedWord type) := by
  obtain ⟨m, params, results⟩ := type
  rw [carriedWord]
  induction fieldNames params ++ fieldNames results generalizing σ with
  | nil => trivial
  | cons i is ih => exact ⟨trivial, ih _⟩

/-- A body is read in the scope that has the names of the signature. -/
lemma resolveBody_step (f : Signed)
    (hclear : (Background.idle isStruct? env).Clear σ (ids (bodyStmts f.body)))
    (hhead : (ids [.funcType f.type]).Disjoint (ids (bodyStmts f.body))) (hr : Settled env r)
    (huntouched : Untouched r (ids (bodyStmts f.body))) (hs : Shows r.info σ scope)
    (hframe : FrameShows r.info (carriedLevel f.type) f.frame)
    (hr' : r' = ((resolveBody (completeWithin package n) scope f).run r).2) :
    (Background.idle isStruct? env).Step True σ (blockWord f.type f.body)
    (ids (bodyStmts f.body)) r r' ∧
      Settled env r' := by
  rw [resolveBody] at hr'
  match hbody : f.body with
  | none =>
    rw [hbody] at hr'
    subst hr'
    exact ⟨⟨.refl _ _, trivial, fun _ _ => trivial⟩, hr⟩
  | some (.mk bm ns) =>
    rw [hbody] at hr' hclear hhead huntouched
    subst hr'
    have hclear' : (Background.idle isStruct? env).Clear (carriedLevel f.type :: σ) (ids ns) := by
      refine ⟨hclear.nodup, hclear.busy, hclear.held, ?_, fun _ _ h => nomatch h⟩
      intro k hk hmem
      rw [Env.ids_cons] at hmem
      rcases mem_append.mp hmem with hmem | hmem
      · exact hhead (mem_ids_carriedLevel hmem) hk
      · exact hclear.env hk hmem
    have hreads := readsBlock (settled package n isStruct? env) bm ns (f.frame :: scope)
    obtain ⟨hstep, hr', -⟩ := hreads.settled_step hclear' hr huntouched (.cons hframe hs)
    refine ⟨⟨hstep.changes, trivial, fun _ hforetold => ⟨trivial, ?_⟩⟩, hr'⟩
    refine holdsAll_append.mpr
      ⟨holdsAll_append.mpr ⟨holdsAll_carriedWord _ _ _, ?_⟩, trivial, trivial⟩
    show HoldsAll _ _ (Env.run ([] :: σ) (carriedWord f.type)) _
    rw [run_carriedWord]
    exact hstep.holds trivial hforetold

/-- **Bodies** are read last. -/
lemma resolveBodies_step (fs : List Signed)
    (hclear : (Background.idle isStruct? env).Clear σ (ids (fs.flatMap fun f => bodyStmts f.body)))
    (hhead : ∀ f ∈ fs, (ids [.funcType f.type]).Disjoint
      (ids (fs.flatMap fun f => bodyStmts f.body)))
    (hr : Settled env r) (huntouched : Untouched r (ids (fs.flatMap fun f => bodyStmts f.body)))
    (hs : Shows r.info σ scope)
    (hframes : ∀ f ∈ fs, FrameShows r.info (carriedLevel f.type) f.frame)
    (hr' : r' = ((resolveBodies (completeWithin package n) scope fs).run r).2) :
    (Background.idle isStruct? env).Step True σ (fs.flatMap fun f => blockWord f.type f.body)
      (ids (fs.flatMap fun f => bodyStmts f.body)) r r' ∧ Settled env r' := by
  induction fs generalizing r with
  | nil =>
    subst hr'
    exact ⟨⟨.refl _ _, trivial, fun _ _ => trivial⟩, hr⟩
  | cons f fs ih =>
    rw [flatMap_cons, ids_append] at hclear huntouched hhead
    rw [flatMap_cons, flatMap_cons, ids_append]
    rw [resolveBodies_cons] at hr'
    rw [run_bind] at hr'
    generalize hrun : ((resolveBody (completeWithin package n) scope f).run r).2 = r₁ at hr'
    have hhead' := hhead f mem_cons_self
    obtain ⟨hfirst, hr₁⟩ :=
      resolveBody_step f hclear.left (fun k hk hmem => hhead' hk (mem_append_left _ hmem)) hr
      huntouched.left hs (hframes f mem_cons_self) hrun.symm
    -- Later bodies concern neither this body nor any signature.
    have hlate : ∀ e ∈ blockWord f.type f.body, ∀ k ∈ e.ids,
        k ∉ ids (fs.flatMap fun f => bodyStmts f.body) ++ [] := by
      intro e he k hk
      rcases ids_blockWord f.type f.body e he k hk with hk | hk
      · rw [append_nil]
        exact fun hmem => hhead' hk (mem_append_right _ hmem)
      · exact hclear.not_mem_late k hk
    have hkept : (ids (fs.flatMap fun f => bodyStmts f.body)).Disjoint
        (ids (bodyStmts f.body) ++ []) := by
      rw [append_nil]
      exact fun _ hk hk' => disjoint_of_nodup_append hclear.nodup hk' hk
    have hframes' : ∀ f' ∈ fs, FrameShows r₁.info (carriedLevel f'.type) f'.frame := by
      intro f' hf'
      refine (hframes f' (mem_cons_of_mem f hf')).kept hfirst.changes fun k hk hmem => ?_
      rw [Background.idle, append_nil] at hmem
      exact hhead f' (mem_cons_of_mem f hf') (mem_ids_carriedLevel hk) (mem_append_left _ hmem)
    obtain ⟨hrest, hsettled⟩ :=
      ih hclear.right (fun f' hf' k hk hmem => hhead f' (mem_cons_of_mem f hf') hk
      (mem_append_right _ hmem)) hr₁ (huntouched.right.kept hfirst.changes hkept)
      (hfirst.shows hclear.left hs)
      hframes' hr'
    exact ⟨hfirst.trans ((keeps_blockWord f.type f.body σ).symm ▸ hrest) hclear hlate, hsettled⟩

end Recast.Lexical
