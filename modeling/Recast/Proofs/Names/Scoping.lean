import Mathlib.Data.List.Induction
import Recast.Proofs.Names.Stages

/-!
# The resolver implements lexical scoping

What the resolver finds out about the names of a unit is what the unit says when it is read as a
word of events: every identifier is bound to what declared its name most recently in the innermost
scope that has it.

* `resolved_lexically` — the bindings are right for every event of every unit.
-/

namespace Recast.Lexical

open List hiding get
open Resolve hiding bind

/-! ## The universe -/

lemma find?_ofList {α : Type} (es : List (String × α)) (name : String) :
    (Table.ofList es).find? name = lookup name es.reverse := by
  induction es using reverseRecOn with
  | nil => rfl
  | append_singleton es e ih =>
    have hinsert : Table.ofList (es ++ [e]) = (Table.ofList es).insert e.1 e.2 := by
      rw [Table.ofList, foldl_append]
      rfl
    rw [hinsert, Table.find?_insert, reverse_append, reverse_singleton,
      singleton_append, lookup_cons]
    by_cases hname : e.1 = name
    · rw [if_pos hname, hname, beq_self_eq_true]
    · rw [if_neg hname, beq_false_of_ne fun heq => hname heq.symm]
      exact ih

variable {info : Info}

/-- Names that stand for bindings with known numbers. -/
lemma lookup_predeclared {es : List (Binding × Nat)}
    (h : ∀ p ∈ es, (Origin.predeclared p.2).Stands info p.2)
    (name : String) : Option.Rel (Origin.Stands info)
      (lookup name (es.map fun p => (p.1.name, Origin.predeclared p.2)))
      (lookup name (es.map fun p => (p.1.name, p.2))) := by
  induction es with
  | nil => exact .none
  | cons p es ih =>
    rw [map_cons, map_cons, lookup_cons, lookup_cons]
    split
    · exact .some (h p mem_cons_self)
    · exact ih fun p' hp' => h p' (mem_cons_of_mem p hp')

lemma kind_predeclared : ∀ b ∈ Library.predeclared, b.kind ≠ .package := by decide

/-- The universe is what it is declared to be. -/
lemma frameShows_predeclared (h : info.bindings = Library.predeclared.toArray) :
    FrameShows info predeclaredLevel Library.predeclaredFrame := by
  intro name
  rw [Library.predeclaredFrame, find?_ofList, predeclaredLevel, ← map_reverse, ← map_reverse]
  refine lookup_predeclared (fun p hp => ?_) name
  obtain ⟨b, i⟩ := p
  obtain ⟨hlt, hb⟩ := mem_zipIdx' (mem_reverse.mp hp)
  have hbinding : info.binding i = b := by
    rw [Info.binding, h, hb]
    simp [hlt]
  refine ⟨rfl, by simpa [h] using hlt, iff_of_false ?_ (by simp)⟩
  rw [hbinding, hb]
  exact kind_predeclared _ (getElem_mem hlt)

/-- No identifier of a unit declares a name of the universe. -/
lemma ids_start : start.ids = [] := by
  rw [Env.ids, flatMap_eq_nil_iff]
  intro level hlevel
  rw [flatMap_eq_nil_iff]
  intro entry hentry
  rcases mem_cons.mp hlevel with rfl | hlevel
  · cases hentry
  · rw [mem_singleton.mp hlevel, predeclaredLevel] at hentry
    obtain ⟨p, -, rfl⟩ := mem_map.mp (mem_reverse.mp hentry)
    rfl

lemma ids_importsWord (b : Nat) (specs : List Import) : ∀ e ∈ importsWord b specs, e.ids = [] := by
  induction specs generalizing b with
  | nil => exact fun e he => nomatch he
  | cons spec specs ih =>
    intro e he
    rcases mem_cons.mp he with rfl | he
    · rfl
    · exact ih _ e he

/-- Nor does an import. -/
lemma ids_run_importsWord (b : Nat) (specs : List Import) :
    (start.run (importsWord b specs)).ids = [] := by
  refine eq_nil_iff_forall_not_mem.mpr fun k hk => ?_
  rcases Env.mem_ids_run hk with hk | ⟨e, he, hk⟩
  · rw [ids_start] at hk
    cases hk
  · rw [ids_importsWord b specs e he] at hk
    cases hk

/-! ## The parts of a unit -/

/-- The signature of a function declaration. -/
def headNodes : Node → List Node := ofFunction fun type _ => [.funcType type]

/-- The statements in the body of a function declaration. -/
def bodyNodes : Node → List Node := ofFunction fun _ body => bodyStmts body

lemma headWord_eq : headWord = ofFunction fun type _ => bracketed (signatureWord type) := by
  funext d
  cases d with
  | _ => rfl

lemma bodyWord_eq : bodyWord = ofFunction blockWord := by
  funext d
  cases d with
  | funcDecl m name type body =>
    match body with
    | none => rfl
    | some (.mk bm ns) => rfl
  | _ => rfl

/-- The numbers of the nodes that matter for names, in the order in which the unit is read. -/
def partIds (ds : List Node) : List Nat :=
  ids (ds.flatMap nameNodes) ++ (ids (ds.flatMap typeNodes) ++ (ids (ds.flatMap headNodes) ++
    (ids (ds.flatMap varNodes) ++ ids (ds.flatMap bodyNodes))))

/-- The nodes that matter for names in one declaration. -/
lemma count_parts (d : Node) (k : Nat) :
    (ids (nameNodes d ++ (typeNodes d ++ (headNodes d ++ (varNodes d ++ bodyNodes d))))).count k ≤
      (ids [d]).count k := by
  cases d with
  | typeDecl m name type isAlias =>
    change (ids [.ident name, type]).count k ≤ _
    grind [Node.children]
  | funcDecl m name type body =>
    rcases body with _ | ⟨bm, ns⟩
    · change (ids [.ident name, .funcType type]).count k ≤ _
      grind [Node.children]
    · change (ids (.ident name :: .funcType type :: ns)).count k ≤ _
      grind [Node.children]
  | varSpec m names type values => exact Nat.le_refl _
  | _ =>
    change (ids []).count k ≤ _
    rw [ids_nil]
    exact Nat.zero_le _

/-- They are numbers of different nodes. -/
lemma count_partIds (ds : List Node) (k : Nat) : (partIds ds).count k ≤ (ids ds).count k := by
  induction ds with
  | nil =>
    simp only [partIds, flatMap_nil, ids_nil]
    exact Nat.le_refl _
  | cons d ds ih =>
    have hd := count_parts d k
    have hcons : ids (d :: ds) = ids [d] ++ ids ds := ids_append [d] ds
    simp only [partIds, flatMap_cons, ids_append, count_append] at hd ih ⊢
    rw [hcons, count_append]
    omega

lemma nodup_partIds {ds : List Node} (h : (ids ds).Nodup) : (partIds ds).Nodup :=
  nodup_iff_count.mpr fun k => Nat.le_trans (count_partIds ds k) (nodup_iff_count.mp h k)

/-- The declarations of a numbered unit have no node in common. -/
lemma nodup_ids_decls (f : File) : (ids f.numbered.decls).Nodup := by
  have h := f.nodup_map_id_preorder
  rw [Node.preorder_eq] at h
  have hchildren : f.numbered.node.children =
      (.ident f.numbered.package :: f.numbered.imports.map .importSpec) ++ f.numbered.decls := rfl
  have hids : (ids [f.numbered.node]).Nodup := h
  rw [ids_cons, hchildren, ids_append, ids_nil, append_nil] at hids
  exact (nodup_cons.mp hids).2.of_append_right

/-! ## A whole unit -/

variable {isStruct? : Nat → Option Bool} {env : Underlying} {σ : Env} {r r' : Resolver}
  {scope package : Scope} {n : Nat} {ds : List Node} {fs : List Signed}

/-- What comes behind the types: signatures, package variables and bodies. -/
def resolveFunctions (complete : Nat → Resolve Ty) (package : Scope)
    (fs : List Signed) (ds : List Node) :
    Resolve Unit := do
  let fs ← signAll complete package fs
  let scope ← declareVars complete ds package
  resolveBodies complete scope fs

/-- What comes behind the types is read when all types are complete. -/
lemma resolveFunctions_step
    (hfuncs : ∀ {α : Type} (g : FuncType → Option Block → List α),
      (fs.flatMap fun f => g f.type f.body) = ds.flatMap (ofFunction g))
    (hclear : (Background.idle isStruct? env).Clear σ
      (ids (ds.flatMap headNodes) ++ (ids (ds.flatMap varNodes) ++ ids (ds.flatMap bodyNodes))))
    (hr : Settled env r)
    (huntouched : Untouched r
      (ids (ds.flatMap headNodes) ++ (ids (ds.flatMap varNodes) ++ ids (ds.flatMap bodyNodes))))
    (hs : Shows r.info σ scope)
    (hr' : r' = ((resolveFunctions (completeWithin package n) scope fs ds).run r).2) :
    (Background.idle isStruct? env).Step True σ
      (ds.flatMap headWord ++ (ds.flatMap varWord ++ ds.flatMap bodyWord))
      (ids (ds.flatMap headNodes) ++ (ids (ds.flatMap varNodes) ++ ids (ds.flatMap bodyNodes))) r
        r' ∧ Settled env r' := by
  rw [resolveFunctions, run_bind, run_bind] at hr'
  have hheads : (fs.flatMap fun f => [.funcType f.type]) = ds.flatMap headNodes :=
    hfuncs fun type _ => [Node.funcType type]
  have hwords : (fs.flatMap fun f => bracketed (signatureWord f.type)) = ds.flatMap headWord := by
    rw [headWord_eq]
    exact hfuncs fun type _ => bracketed (signatureWord type)
  have hsigned := fun {α : Type} (g : FuncType → Option Block → List α) =>
    (signAll_functions g (completeWithin package n) scope fs r).trans (hfuncs g)
  generalize hp : (signAll (completeWithin package n) scope fs).run r = p at hr' hsigned
  generalize hq : (declareVars (completeWithin package n) ds scope).run p.2 = q at hr'
  rw [← hheads] at hclear huntouched ⊢
  obtain ⟨hsign, hr₁, hframes⟩ := signAll_stage fs hclear.left hr huntouched.left hs hp
  rw [hwords] at hsign
  have hclear₁ := hclear.behind hsign.ids
  have huntouched₁ := hsign.untouched hclear huntouched
  obtain ⟨hvars, hr₂⟩ :=
    (reads_declareVars (settled package n isStruct? env) ds scope).stage hclear₁.left hr₁
    huntouched₁.left hsign.shows hq
  have hclear₂ := hclear₁.behind hvars.ids
  have huntouched₂ := hvars.untouched hclear₁ huntouched₁
  have hbodies : (p.1.flatMap fun f => bodyStmts f.body) = ds.flatMap bodyNodes :=
    hsigned fun _ body => bodyStmts body
  have hwords' : (p.1.flatMap fun f => blockWord f.type f.body) = ds.flatMap bodyWord := by
    rw [bodyWord_eq]
    exact hsigned blockWord
  -- The names of the signatures are declared in them, so that neither variables nor bodies touch
  -- them.
  have hhead : ∀ f ∈ p.1, ∀ k ∈ ids [.funcType f.type],
      k ∈ ids (fs.flatMap fun f => [.funcType f.type]) := by
    intro f hf k hk
    rw [hheads, headNodes, ← hsigned fun type _ => [Node.funcType type]]
    exact mem_ids_of_mem (mem_flatMap.mpr ⟨f, hf, mem_singleton_self _⟩) hk
  have hlate : ∀ f ∈ p.1, ∀ k ∈ ids [.funcType f.type],
      k ∉ (ids (ds.flatMap varNodes) ++ ids (ds.flatMap bodyNodes)) := by
    intro f hf k hk
    exact disjoint_of_nodup_append hclear.nodup (hhead f hf k hk)
  have hframes' : ∀ f ∈ p.1, FrameShows q.2.info (carriedLevel f.type) f.frame := by
    intro f hf
    refine (hframes f hf).kept hvars.step.changes fun k hk hmem => ?_
    rw [Background.idle, append_nil] at hmem
    exact hlate f hf k (mem_ids_carriedLevel hk) (mem_append_left _ hmem)
  rw [← hbodies] at hclear₂ huntouched₂ hlate
  obtain ⟨hlast, hr₃⟩ :=
    resolveBodies_step p.1 hclear₂ (fun f hf k hk hmem => hlate f hf k hk (mem_append_right _ hmem))
    hr₂ huntouched₂ hvars.shows hframes' hr'
  rw [hbodies, hwords'] at hlast
  exact ⟨hsign.step.trans (hvars.step.trans hlast hclear₁ (hclear₁.late hvars.ids)) hclear
    (hclear.late hsign.ids), hr₃⟩

/-- What comes behind the names of types and functions. -/
def resolveTypes (scope : Scope) (fs : List Signed) (ds : List Node) : Resolve Unit := do
  let r ← get
  completeAll (completeWithin scope r.pending.length) (r.pending.map Pending.binding)
  resolveFunctions (completeWithin scope r.pending.length) scope fs ds

/-- Types are completed first, so that what they stand for does not change any more. -/
lemma resolveTypes_step
    (hfuncs : ∀ {α : Type} (g : FuncType → Option Block → List α),
      (fs.flatMap fun f => g f.type f.body) = ds.flatMap (ofFunction g))
    (htypes : r.pending.map Pending.type = ds.flatMap typeNodes)
    (hbindings : (r.pending.map Pending.binding).Nodup) (hactive : r.active = [])
    (hclear : ∀ env, (Background.idle isStruct? env).Clear σ
      (ids (ds.flatMap typeNodes) ++ (ids (ds.flatMap headNodes) ++
      (ids (ds.flatMap varNodes) ++ ids (ds.flatMap bodyNodes)))))
    (huntouched : Untouched r (ids (ds.flatMap typeNodes) ++ (ids (ds.flatMap headNodes) ++
      (ids (ds.flatMap varNodes) ++ ids (ds.flatMap bodyNodes)))))
    (hnone : ∀ k ∈ ids (ds.flatMap typeNodes), isStruct? k = none) (hs : Shows r.info σ scope)
    (hr' : r' = ((resolveTypes scope fs ds).run r).2) :
    (Background.idle isStruct? r'.info.underlying).Step True σ
      (ds.flatMap typeWord ++ (ds.flatMap headWord ++ (ds.flatMap varWord ++ ds.flatMap bodyWord)))
      (ids (ds.flatMap typeNodes) ++ (ids (ds.flatMap headNodes) ++
        (ids (ds.flatMap varNodes) ++ ids (ds.flatMap bodyNodes)))) r r' := by
  have hrun : ((resolveTypes scope fs ds).run r).2 =
      ((resolveFunctions (completeWithin scope r.pending.length) scope fs ds).run
        ((completeAll (completeWithin scope r.pending.length) (r.pending.map Pending.binding)).run
          r).2).2 := rfl
  rw [hrun] at hr'
  generalize hr₁ : ((completeAll (completeWithin scope r.pending.length)
    (r.pending.map Pending.binding)).run r).2 = r₁ at hr'
  obtain ⟨hstage, hnil⟩ :=
    completeAll_stage htypes hbindings hactive
      (hclear r₁.info.underlying).left huntouched.left hnone
    hs hr₁.symm
  have hclear₁ := hclear r₁.info.underlying
  obtain ⟨hrest, hsettled⟩ := resolveFunctions_step hfuncs (hclear₁.behind hstage.ids) ⟨hnil, rfl⟩
    (hstage.untouched hclear₁ huntouched) hstage.shows hr'
  rw [hsettled.2]
  exact hstage.step.trans hrest hclear₁ (hclear₁.late hstage.ids)

/-- What comes behind the imports. -/
def resolveDecls (ds : List Node) (frame : Frame) : Resolve Unit := do
  let p ← declareAll ds frame
  resolveTypes [p.2, Library.predeclaredFrame] p.1 ds

/-- The events of declarations. -/
def declsWord (ds : List Node) : List Event :=
  ds.flatMap declaredName ++
    (ds.flatMap typeWord ++ (ds.flatMap headWord ++ (ds.flatMap varWord ++ ds.flatMap bodyWord)))

/-- **Declarations** are read with a package that has the imports, in an environment in which no
identifier has declared anything. -/
lemma resolveDecls_step {frame : Frame} (hnodup : (ids ds).Nodup) (hσ : σ.ids = [])
    (hpending : r.pending = []) (hactive : r.active = []) (huntouched : Untouched r (partIds ds))
    (hnone : ∀ k ∈ ids (ds.flatMap typeNodes), isStruct? k = none)
    (hs : Shows r.info σ [frame, Library.predeclaredFrame])
    (hr' : r' = ((resolveDecls ds frame).run r).2) :
    (Background.idle isStruct? r'.info.underlying).Step True σ (declsWord ds)
    (partIds ds) r r' := by
  have hclear : ∀ env, (Background.idle isStruct? env).Clear σ (partIds ds) := fun env =>
    ⟨nodup_partIds hnodup, disjoint_nil_right _, disjoint_nil_right _, hσ ▸ disjoint_nil_right _,
      disjoint_nil_right _⟩
  have hstage := declareAll_stage ds (hclear r'.info.underlying).left hs
  obtain ⟨decls, hdecls, htypes, -, hbindings⟩ := declareAll_pending ds frame r
  rw [hpending, nil_append] at hdecls
  subst hdecls
  have hrest := resolveTypes_step (fun g => declareAll_functions g ds frame r) htypes hbindings
    ((declareAll_active ds frame r).trans hactive) (fun env => (hclear env).behind hstage.ids)
    (hstage.untouched (hclear _) huntouched) hnone hstage.shows hr'
  exact hstage.step.trans hrest (hclear _) ((hclear _).late hstage.ids)

lemma file_info (f : File) (r : Resolver) : ((file f).run r).2.info =
    ((importPackages f.imports {} >>= resolveDecls f.decls).run
      { r with package := f.package.name }).2.info := by
  rw [file]
  simp only [length_map]
  rfl

/-- The state in which the resolution of a unit begins. -/
def initial (name : String) (f : File) : Resolver :=
  { file := name
    package := f.package.name
    info := { bindings := Library.predeclared.toArray, underlying := Library.underlying } }

/-- **A whole unit.**  The bindings are right for its word if what was foretold about literals has
come true, and every declared identifier has a binding of its own. -/
lemma ofFile_step (name : String) {f : File} (hnodup : (ids f.decls).Nodup)
    (hnone : ∀ k ∈ ids (f.decls.flatMap typeNodes), isStruct? k = none) {info : Info}
    (hinfo : info = (Resolver.ofFile name f).info) :
    Distinct (firstOwn f.imports) info ∧
      ((∀ k t, info.types.find? k = some t → isStruct? k = none ∨
        isStruct? k = some (isStruct (t.underlying info.underlying))) →
        HoldsAll info isStruct? start (word f)) := by
  have hstart : Shows (initial name f).info start [{}, Library.predeclaredFrame] :=
    .cons (fun _ => .none) (.cons (frameShows_predeclared rfl) .nil)
  have hsize : (initial name f).info.bindings.size = Library.predeclared.length := size_toArray
  have hrun : info =
      ((importPackages f.imports {} >>= resolveDecls f.decls).run (initial name f)).2.info :=
    hinfo.trans (file_info f _)
  rw [run_bind] at hrun
  generalize hp : (importPackages f.imports {}).run (initial name f) = p at hrun
  generalize hr' : ((resolveDecls f.decls p.1).run p.2).2 = r' at hrun
  subst hrun
  have himports : Stage isStruct? r'.info.underlying start
    (importsWord Library.predeclared.length f.imports) []
      (initial name f) p.2 [p.1, Library.predeclaredFrame] ∧ _ :=
        importPackages_stage f.imports hstart hsize hp
  obtain ⟨hstage, hsize', hcalm⟩ := himports
  have huntouched : ∀ T, Untouched p.2 T := fun T =>
    Untouched.kept (fun _ _ => ⟨rfl, rfl⟩) hstage.step.changes (disjoint_nil_right T)
  have hstep :=
    resolveDecls_step hnodup (ids_run_importsWord _ _) hcalm.pending hcalm.active
      (huntouched _) hnone
    hstage.shows hr'.symm
  refine ⟨hstep.changes.distinct _ ⟨Nat.le_of_eq hsize'.symm, ?_⟩, ?_⟩
  · intro k b hb
    cases hb.symm.trans (huntouched [k] k mem_cons_self).1
  · intro hforetold
    have himported := hstage.step.holds trivial fun k hk => absurd hk not_mem_nil
    refine holdsAll_append.mpr
      ⟨himported.kept hstep.changes ?_ ?_, hstep.holds trivial fun k _ => hforetold k⟩
    · intro e he
      simp [ids_importsWord _ _ e he]
    · simp [ids_start]

/-- Whether a literal is a struct, by the type that is recorded for it.  In the types of type
declarations that is left open: they are looked at before all types are complete. -/
def structLiteral? (f : File) (info : Info) (literal : Nat) : Option Bool :=
  if literal ∈ ids (f.decls.flatMap typeNodes) then none
  else some (isStruct (((info.types.find? literal).getD .invalid).underlying info.underlying))

/-- What is right for a word is right for each of its events. -/
lemma HoldsAll.event {w before after : List Event} {e : Event} (h : HoldsAll info isStruct? σ w)
    (hw : w = before ++ e :: after) : e.Holds info isStruct? (σ.run before) := by
  rw [hw] at h
  exact (holdsAll_append.mp h).2.1

/-- A compound statement gives back the scope in which it began. -/
lemma stmt_compound {m : Node} (h : isCompound m = true) (complete : Nat → Resolve Ty)
    (scope : Scope) (r : Resolver) :
    ((stmt complete scope m).run r).1 = scope := by
  cases m with
  | block | ifStmt | forStmt | rangeStmt | switch => rfl
  | _ => cases h

/-- **The resolver implements lexical scoping.**  Read as a word of events, in the order in which
names come into being and are used, every unit is bound as its environments say: an identifier that
is used has the binding of the most recent declaration of its name in the innermost scope that has
one, or none if there is no such scope; one on the left of `:=` has the binding of that name in its
own scope, if it is declared there, and a new one otherwise; and no two declarations have the same
binding.  Behind a compound statement the environment and the scope are those before it. -/
theorem resolved_lexically (name : String) (f : File) :
    let info := (Resolver.ofFile name f.numbered).info
    (∀ before e after, word f.numbered = before ++ e :: after →
      e.Holds info (structLiteral? f.numbered info) (start.run before)) ∧
    Distinct (firstOwn f.numbered.imports) info ∧
    ∀ n, isCompound n = true → Keeps (stmtWord n) ∧
      ∀ complete scope r, ((Resolve.stmt complete scope n).run r).1 = scope := by
  intro info
  have hnone : ∀ k ∈ ids (f.numbered.decls.flatMap typeNodes),
      structLiteral? f.numbered info k = none :=
    fun k hk => if_pos hk
  obtain ⟨hdistinct, hholds⟩ := ofFile_step name (nodup_ids_decls f) hnone rfl
  refine ⟨fun before e after hword => (hholds ?_).event hword, hdistinct, ?_⟩
  · intro k t ht
    rw [structLiteral?, ht]
    split
    · exact Or.inl rfl
    · exact Or.inr rfl
  · exact fun n hn => ⟨keeps_compound hn, stmt_compound hn⟩

/-! ## A sample

A function with a parameter that a block hides:

    { x := x; x }
    x
-/

namespace Shadowing

def x (id : Nat) : Ident := ⟨{ id := id }, "x"⟩

def file : File where
  mark := {}
  package := ⟨{}, "main"⟩
  imports := []
  decls := [.funcDecl {} ⟨{}, "f"⟩ (.mk {} [.mk {} [x 0] (.ident ⟨{}, "int"⟩)] []) (some (.mk {} [
    .block (.mk {} [.assign {} [.ident (x 0)] ":=" [.ident (x 0)], .exprStmt {} (.ident (x 0))]),
    .exprStmt {} (.ident (x 0))]))]

/-- The first events of the function. -/
def events (k : Nat) : List Event := (word file.numbered).take k

/-- The name `x` when some of the events have happened. -/
def meaning (k : Nat) : Option Origin := (start.run (events k)).lookup "x"

end Shadowing

/-- On the right of `:=` and behind the block, `x` is the parameter; in the block behind `:=`, it is
the new variable. -/
theorem resolved_lexically_shadowing :
    let info := (Resolver.ofFile "shadowing" Shadowing.file.numbered).info
    info.bindingOf? (Shadowing.x 12) = info.defs.find? 6 ∧
      info.bindingOf? (Shadowing.x 14) = info.defs.find? 11 ∧
      info.bindingOf? (Shadowing.x 16) = info.defs.find? 6 := by
  have h := (resolved_lexically "shadowing" Shadowing.file).1
  intro info
  change ∀ before (e : Event) after, _ = before ++ e :: after →
    e.Holds info (structLiteral? _ info) (start.run before) at h
  clear_value info
  have huse : ∀ k i j after, word Shadowing.file.numbered = Shadowing.events k ++
    .use (Shadowing.x i) :: after →
      Shadowing.meaning k = some (.ident (Shadowing.x j)) → info.bindingOf? (Shadowing.x i) =
          info.defs.find? j := by
    intro k i j after hword hmeaning
    have hbinding : _ = (Shadowing.meaning k).bind (Origin.number? info) := h _ _ after hword
    rw [hbinding, hmeaning]
    rfl
  exact ⟨huse 8 12 6 _ rfl rfl, huse 10 14 11 _ rfl rfl, huse 12 16 6 _ rfl rfl⟩

end Recast.Lexical
