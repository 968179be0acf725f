import Recast.Proofs.Names.Spending
import Recast.Proofs.Surface.Placing

/-!
# Every expression gets its type once

The stages of resolution are put together: whatever a unit consists of, each of its nodes is given
to one of them only, and every expression that is no plain identifier is given to one.

**Stages.**  Imports spend nothing.  The names of types and functions are spent where they are
declared, and with them the nodes of the declared types become owed.  When all types are complete
nothing is owed any more.  Signatures, package variables and bodies spend their own nodes.

* `resolveDecls_accounts` — the accounts of a whole unit.
* `typed_once` — resolution does not stop, gives every expression of a built tree its type, records
  no type twice, and no identifier both declares and refers.
-/

namespace Recast.Ledger

open List
open Resolve hiding bind
open Lexical Regular

/-! ## Stages -/

variable {complete : Nat → Resolve Ty} {r : Resolver} {α β : Type} {x : Resolve α}
  {f : α → Resolve β} {ns ms ds : List Node}

/-- One computation after the other, each with nodes of its own. -/
lemma SpendsOn.next (hx : SpendsOn ns x) (hf : ∀ r, SpendsOn ms (f (x.run r).1)) :
    SpendsOn (ns ++ ms) (x >>= f) :=
  Spends.on (hx.bindRun hf) (fun _ => by rw [ids_append]) fun _ hk => by rwa [needed_append] at hk

lemma spendsOn_nothing (hx : Silent x) : SpendsOn [] x :=
  (spends_silent hx).on (fun _ => Nat.zero_le _) (by simp [needed_nil])

lemma spends_bindMembers (path : String) (es : List Library.Entry) (frame : Frame) :
    Spends [] [] [] (bindMembers path es frame) := by
  induction es generalizing frame with
  | nil => exact spends_silent (silent_pure frame)
  | cons e es ih => exact (spends_bind _).bind fun b => ih _

/-- Imports record nothing about nodes. -/
lemma spends_importPackages (specs : List Import) (frame : Frame) :
    Spends [] [] [] (importPackages specs frame) := by
  induction specs generalizing frame with
  | nil => exact spends_silent (silent_pure frame)
  | cons spec specs ih =>
    refine Spends.bind (N := []) (T := []) (X := []) ?_ fun frame => ih frame
    rw [importPackage_eq]
    refine (spends_bind _).bind fun b => Spends.thenSilent
      (.afterSilent still_get.silent fun r => ?_) fun _ => silent_pure _
    refine (spends_bindMembers _ _ _).thenSilent fun frame => Silent.bind
      ⟨fun _ => rfl, fun _ => rfl, fun _ => rfl, fun _ => rfl, fun _ => rfl⟩ fun _ => ?_
    exact (still_ite (still_get.bind fun _ => still_note _) (still_pure _)).silent

/-- Nothing is entered but that some identifiers declare names. -/
structure Declared (ns : List Node) (e : Entries) (r r' : Resolver) : Prop where
  writes : Writes e r r'
  types : e.types = []
  names : ∀ k, (e.defs ++ e.uses).count k ≤ (ids ns).count k
  stopped : r'.stopped = r.stopped

lemma declared_refl (r : Resolver) : Declared [] {} r r :=
  ⟨writes_nothing rfl rfl rfl rfl, rfl, fun _ => Nat.zero_le _, rfl⟩

lemma writes_declares {i : Ident} {new : Nat → List Pending} {a : Resolve Nat}
    (h : Declares i new a) (r : Resolver) :
    Writes { defs := [i.mark.id] } r (a.run r).2 := by
  obtain ⟨x, hinfo, -⟩ := h.info r
  have hbind : Writes {} r ((Resolve.bind x).run r).2 := writes_nothing rfl rfl rfl rfl
  have hdefines := writes_defines i ((Resolve.bind x).run r).1 ((Resolve.bind x).run r).2
  have hrest : Writes {} ((Resolve.bind x >>= defines i).run r).2 (a.run r).2 :=
    writes_nothing (h.recorded r) (congrArg Info.types hinfo) (congrArg Info.defs hinfo)
      (congrArg Info.uses hinfo)
  exact (hbind.trans hdefines).trans hrest

lemma Declared.cons {i : Ident} {new : Nat → List Pending} {a : Resolve Nat}
    {e : Entries} {r' : Resolver} (ha : Declares i new a) (h : Declared ns e (a.run r).2 r') :
    Declared (.ident i :: ns) (Entries.before { defs := [i.mark.id] } e) r r' where
  writes := (writes_declares ha r).trans h.writes
  types := by rw [Entries.before, h.types, append_nil]
  names k := by
    have := h.names k
    grind [Entries.before, Node.children, Node.id, Node.mark]
  stopped := h.stopped.trans (ha.stopped r)

/-- **The names of types and functions** are spent where they are declared. -/
lemma declareAll_declared (ds : List Node) (frame : Frame) (r : Resolver) :
    ∃ e, Declared (ds.flatMap nameNodes) e r ((declareAll ds frame).run r).2 := by
  induction ds generalizing frame r with
  | nil => exact ⟨{}, declared_refl r⟩
  | cons d ds ih =>
    rw [flatMap_cons]
    cases d with
    | typeDecl m name type isAlias =>
      rw [declareAll_typeDecl, run_bind]
      obtain ⟨e, he⟩ := ih (frame.insert name.name ((declareType name type isAlias).run r).1)
        ((declareType name type isAlias).run r).2
      exact ⟨_, he.cons (declares_type name type isAlias)⟩
    | funcDecl m name ftype body =>
      rw [declareAll_funcDecl, run_bind]
      obtain ⟨e, he⟩ :=
        ih (frame.insert name.name ((declareFunc name).run r).1) ((declareFunc name).run r).2
      exact ⟨_, he.cons (declares_func name)⟩
    | _ => exact ih frame r

/-! ## Signatures, variables and bodies -/

section Functions

variable (hcomplete : ∀ b, Spends [] [] [] (complete b)) {fs : List Signed}

include hcomplete

lemma spendsOn_signAll (package : Scope) (hfs : ∀ f ∈ fs, (Node.funcType f.type).Regular) :
    SpendsOn (fs.flatMap fun f => [.funcType f.type]) (signAll complete package fs) := by
  induction fs with
  | nil => exact spendsOn_nothing (silent_pure _)
  | cons f fs ih =>
    rw [signAll_cons, flatMap_cons]
    have hsign : SpendsOn [.funcType f.type] (sign complete package f) := by
      have h :=
        (spendsSignature hcomplete f.type (hfs f mem_cons_self) package.nested).bind fun p =>
        (spends_setType f.binding p.1).thenSilent fun _ => silent_pure p
      simp only [append_nil] at h
      exact h
    exact hsign.next fun _ => Spends.thenSilent (ih fun f hf => hfs f (mem_cons_of_mem _ hf))
      fun _ => silent_pure _

lemma spendsOn_declareVars (scope : Scope) (hds : ∀ n ∈ ds.flatMap varNodes, Statement n) :
    SpendsOn (ds.flatMap varNodes) (declareVars complete ds scope) := by
  induction ds generalizing scope with
  | nil => exact spendsOn_nothing (silent_pure _)
  | cons d ds ih =>
    rw [flatMap_cons] at hds ⊢
    have hrest : ∀ n ∈ ds.flatMap varNodes, Statement n := fun n hn => hds n (mem_append_right _ hn)
    cases d with
    | varSpec m names type values =>
      exact (spendsStmt hcomplete _ (hds _ (mem_append_left _ (mem_singleton_self _))) scope).next
        fun _ =>
        ih _ hrest
    | _ => exact ih scope hrest

lemma spendsOn_resolveBody (scope : Scope) {f : Signed} (hf : ∀ n ∈ bodyStmts f.body, Statement n) :
    SpendsOn (bodyStmts f.body) (resolveBody complete scope f) := by
  rw [resolveBody]
  cases hbody : f.body with
  | none => exact spendsOn_nothing (silent_pure _)
  | some body =>
    obtain ⟨bm, ns⟩ := body
    rw [hbody] at hf
    exact Spends.thenSilent (spendsStmts hcomplete ns hf (f.frame :: scope)) fun _ => silent_pure _

lemma spendsOn_resolveBodies (scope : Scope) (hfs : ∀ f ∈ fs, ∀ n ∈ bodyStmts f.body, Statement n) :
    SpendsOn (fs.flatMap fun f => bodyStmts f.body) (resolveBodies complete scope fs) := by
  induction fs with
  | nil => exact spendsOn_nothing (silent_pure _)
  | cons f fs ih =>
    rw [resolveBodies_cons, flatMap_cons]
    exact (spendsOn_resolveBody hcomplete scope (hfs f mem_cons_self)).next fun _ =>
      ih fun f hf => hfs f (mem_cons_of_mem _ hf)

/-- **Behind the types** signatures, package variables and bodies spend their own nodes. -/
lemma spendsOn_resolveFunctions (package : Scope)
    (hfuncs : ∀ {α : Type} (g : FuncType → Option Block → List α),
      (fs.flatMap fun f => g f.type f.body) = ds.flatMap (ofFunction g))
    (hheads : ∀ n ∈ ds.flatMap headNodes, n.Regular)
    (hvars : ∀ n ∈ ds.flatMap varNodes, Statement n)
    (hbodies : ∀ n ∈ ds.flatMap bodyNodes, Statement n) :
    SpendsOn (ds.flatMap headNodes ++ (ds.flatMap varNodes ++ ds.flatMap bodyNodes))
      (resolveFunctions complete package fs ds) := by
  have hfs : ∀ f ∈ fs, (Node.funcType f.type).Regular := by
    intro f hf
    refine hheads _ ?_
    rw [headNodes, ← hfuncs fun type _ => [Node.funcType type]]
    exact mem_flatMap.mpr ⟨f, hf, mem_singleton_self _⟩
  have hsign := spendsOn_signAll hcomplete package hfs
  rw [hfuncs fun type _ => [Node.funcType type]] at hsign
  refine hsign.next fun r => (spendsOn_declareVars hcomplete package hvars).next fun r' => ?_
  have hsigned := (signAll_functions (fun _ body => bodyStmts body) complete package fs r).trans
    (hfuncs fun _ body => bodyStmts body)
  rw [bodyNodes, ← hsigned]
  refine spendsOn_resolveBodies hcomplete _ fun f hf n hn => hbodies n ?_
  rw [bodyNodes, ← hsigned]
  exact mem_flatMap.mpr ⟨f, hf, hn⟩

end Functions

/-! ## Types -/

/-- **Types are complete** before anything else is looked at, and what was owed for them is paid. -/
lemma resolveTypes_settles {scope : Scope} {fs : List Signed} (hr : Orderly r)
    (hactive : r.active = []) (hfuncs : ∀ {α : Type} (g : FuncType → Option Block → List α),
      (fs.flatMap fun f => g f.type f.body) = ds.flatMap (ofFunction g))
    (hheads : ∀ n ∈ ds.flatMap headNodes, n.Regular)
    (hvars : ∀ n ∈ ds.flatMap varNodes, Statement n)
    (hbodies : ∀ n ∈ ds.flatMap bodyNodes, Statement n) :
    ∃ e, Settles (ids (ds.flatMap headNodes ++ (ds.flatMap varNodes ++ ds.flatMap bodyNodes)))
        (ids (ds.flatMap headNodes ++ (ds.flatMap varNodes ++ ds.flatMap bodyNodes)))
        (needed (ds.flatMap headNodes ++ (ds.flatMap varNodes ++ ds.flatMap bodyNodes))) e r
        ((resolveTypes scope fs ds).run r).2 ∧
      ∀ d ∈ r.pending, ∀ k ∈ needed [d.type], k ∈ e.types := by
  have hrun : ((resolveTypes scope fs ds).run r).2 =
      ((resolveFunctions (completeWithin scope r.pending.length) scope fs ds).run
        ((completeAll (completeWithin scope r.pending.length) (r.pending.map Pending.binding)).run
          r).2).2 := rfl
  -- At least one declaration may be started, unless there is none.
  have hsteps : completeAll (completeWithin scope r.pending.length)
    (r.pending.map Pending.binding) =
      completeAll (completeWithin scope (r.pending.length - 1 + 1))
          (r.pending.map Pending.binding) := by
    cases r.pending with
    | nil => rfl
    | cons d ds => rfl
  rw [hrun, hsteps]
  obtain ⟨⟨e, he⟩, hnil⟩ :=
    completeAll_settles scope (r.pending.length - 1) (r.pending.map Pending.binding) hr
    hactive fun d hd => mem_map_of_mem hd
  obtain ⟨e', he'⟩ :=
    spendsOn_resolveFunctions (spends_completeWithin scope r.pending.length)
      scope hfuncs hheads hvars
    hbodies _ (hr.sublist he.pending)
  refine ⟨e.before e', he.trans he', fun d hd k hk => mem_append_right _ ?_⟩
  exact he.completed d hd (by rw [hnil]; exact not_mem_nil) k hk

/-! ## Whole units -/

/-- Where the expressions of a declaration stand. -/
lemma needed_declaration {d : Node} (hd : d.isDeclaration = true) {k : Nat} (hk : k ∈ needed [d]) :
    k ∈ needed (typeNodes d) ∨ k ∈ needed (headNodes d ++ (varNodes d ++ bodyNodes d)) := by
  cases d with
  | typeDecl m name type isAlias =>
    change _ ∨ k ∈ needed []
    change k ∈ needed [type] ∨ _
    grind [Node.children, needsType, Node.isExpression]
  | funcDecl m name type body =>
    rcases body with _ | ⟨bm, ns⟩
    · change _ ∨ k ∈ needed [.funcType type]
      grind [Node.children, needsType, Node.isExpression]
    · change _ ∨ k ∈ needed (.funcType type :: ns)
      grind [Node.children, needsType, Node.isExpression]
  | varSpec m names type values => exact Or.inr hk
  | _ => cases hd

lemma needed_declarations (hds : ∀ d ∈ ds, d.isDeclaration = true) {k : Nat} (hk : k ∈ needed ds) :
    k ∈ needed (ds.flatMap typeNodes) ∨
      k ∈ needed (ds.flatMap headNodes ++ (ds.flatMap varNodes ++ ds.flatMap bodyNodes)) := by
  induction ds with
  | nil =>
    rw [needed_nil] at hk
    cases hk
  | cons d ds ih =>
    obtain ⟨hd, hds⟩ := forall_mem_cons.mp hds
    have hcons : needed (d :: ds) = needed [d] ++ needed ds := needed_append [d] ds
    rw [hcons] at hk
    simp only [flatMap_cons, needed_append, mem_append] at hk ih ⊢
    rcases hk with hk | hk
    · have hparts := needed_declaration hd hk
      simp only [needed_append, mem_append] at hparts
      grind
    · have hparts := ih hds hk
      grind

/-- What stands in a regular declaration. -/
lemma regular_declaration {d : Node} (hd : d.Regular) :
    (∀ n ∈ typeNodes d, Operand n) ∧ (∀ n ∈ headNodes d, n.Regular) ∧
    (∀ n ∈ varNodes d, Statement n) ∧
      ∀ n ∈ bodyNodes d, Statement n := by
  cases d with
  | typeDecl m name type isAlias => exact ⟨fun n hn => hd.operandParts hn, nofun, nofun, nofun⟩
  | varSpec m names type values =>
    refine ⟨nofun, nofun, fun n hn => ?_, nofun⟩
    rw [mem_singleton.mp hn]
    exact ⟨rfl, hd⟩
  | funcDecl m name type body =>
    refine ⟨nofun, fun n hn => ?_, nofun, fun n hn => ?_⟩
    · rw [mem_singleton.mp hn]
      exact hd.child (by simp [Node.children])
    · rcases body with _ | ⟨bm, ns⟩
      · cases hn
      · exact (hd.child (c := .block (.mk bm ns)) (by simp [Node.children])).statementParts hn
  | _ => exact ⟨nofun, nofun, nofun, nofun⟩

lemma mem_needed_iff {k : Nat} : k ∈ needed ns ↔ ∃ n ∈ ns, k ∈ needed [n] := by
  induction ns with
  | nil => simp [needed_nil]
  | cons n ns ih =>
    have hcons : needed (n :: ns) = needed [n] ++ needed ns := needed_append [n] ns
    rw [hcons, mem_append, ih, exists_mem_cons_iff]

/-- **The accounts of a unit**: no node pays for more than one entry, and no expression is left
out. -/
structure Accounts (ds : List Node) (e : Entries) (r r' : Resolver) : Prop where
  writes : Writes e r r'
  names : ∀ k, (e.defs ++ e.uses).count k ≤ (ids ds).count k
  types : ∀ k, e.types.count k ≤ (ids ds).count k
  covered : ∀ k ∈ needed ds, k ∈ e.types
  stopped : r'.stopped = r.stopped

/-- **Declarations** are resolved at the cost of their own nodes. -/
lemma resolveDecls_accounts (frame : Frame) (hds : ∀ d ∈ ds, d.isDeclaration = true ∧ d.Regular)
    (hpending : r.pending = [])
    (hactive : r.active = []) : ∃ e, Accounts ds e r ((resolveDecls ds frame).run r).2 := by
  have hparts := fun d hd => regular_declaration (hds d hd).2
  have htypes : ∀ n ∈ ds.flatMap typeNodes, Operand n :=
    forall_mem_flatMap.mpr fun d hd => (hparts d hd).1
  have hheads : ∀ n ∈ ds.flatMap headNodes, n.Regular :=
    forall_mem_flatMap.mpr fun d hd => (hparts d hd).2.1
  have hvars : ∀ n ∈ ds.flatMap varNodes, Statement n :=
    forall_mem_flatMap.mpr fun d hd => (hparts d hd).2.2.1
  have hbodies : ∀ n ∈ ds.flatMap bodyNodes, Statement n :=
    forall_mem_flatMap.mpr fun d hd => (hparts d hd).2.2.2
  obtain ⟨e, he⟩ := declareAll_declared ds frame r
  obtain ⟨decls, hdecls, heq, -, hnodup⟩ := declareAll_pending ds frame r
  have hactive' := (declareAll_active ds frame r).trans hactive
  have hfuncs :=
    fun {α : Type} (g : FuncType → Option Block → List α) => declareAll_functions g ds frame r
  rw [hpending, nil_append] at hdecls
  have hrun : ((resolveDecls ds frame).run r).2 = ((resolveTypes
      [((declareAll ds frame).run r).1.2, Library.predeclaredFrame]
      ((declareAll ds frame).run r).1.1 ds).run
      ((declareAll ds frame).run r).2).2 := rfl
  rw [hrun]
  generalize (declareAll ds frame).run r = p at he hdecls hactive' hfuncs ⊢
  have horderly : Orderly p.2 := by
    refine ⟨by rwa [hdecls], fun d hd => htypes _ ?_⟩
    rw [← heq]
    exact mem_map_of_mem (hdecls ▸ hd)
  obtain ⟨e', he', hcompleted⟩ := resolveTypes_settles horderly hactive' hfuncs hheads hvars hbodies
  have howed : owed p.2 = ids (ds.flatMap typeNodes) := by
    rw [owed, hactive', ← heq, ← hdecls, ← typeIds_eq]
    exact congrArg typeIds (filter_eq_self.mpr fun _ _ => rfl)
  have hcount : ∀ k, (ids (ds.flatMap nameNodes)).count k +
    ((ids (ds.flatMap headNodes ++ (ds.flatMap varNodes ++
      ds.flatMap bodyNodes))).count k + (ids (ds.flatMap typeNodes)).count k) ≤
          (ids ds).count k := by
    intro k
    have := count_partIds ds k
    simp only [partIds, ids_append, count_append] at this ⊢
    omega
  refine ⟨e.before e', {
    writes := he.writes.trans he'.writes
    names := fun k => ?_
    types := fun k => ?_
    covered := fun k hk => ?_
    stopped := he'.stopped.trans he.stopped }⟩
  · have h := he.names k
    have h' := he'.names k
    have := hcount k
    rw [howed] at h'
    simp only [Entries.before, count_append] at h h' ⊢
    omega
  · have h' := he'.types k
    have := hcount k
    rw [howed] at h'
    simp only [Entries.before, he.types, append_nil]
    omega
  · refine mem_append_left _ ?_
    rcases needed_declarations (fun d hd => (hds d hd).1) hk with hk | hk
    · rw [← heq, ← hdecls] at hk
      obtain ⟨n, hn, hk⟩ := mem_needed_iff.mp hk
      obtain ⟨d, hd, rfl⟩ := mem_map.mp hn
      exact hcompleted d hd k hk
    · exact he'.covered k hk

lemma ofFile_eq (name : String) (f : File) : ∃ log, Resolver.ofFile name f =
    { ((importPackages f.imports {} >>= resolveDecls f.decls).run (initial name f)).2 with
      log := log } := by
  rw [Resolver.ofFile, file]
  simp only [length_map]
  exact ⟨_, rfl⟩

/-- **The accounts of a whole unit**, from the beginning. -/
lemma ofFile_accounts (name : String) {f : File} (hf : f.Regular) :
    ∃ e, Accounts f.decls e (initial name f) (Resolver.ofFile name f) := by
  have hds : ∀ d ∈ f.decls, d.isDeclaration = true ∧ d.Regular := fun d hd =>
    ⟨all_eq_true.mp hf.proper d hd, hf.child (mem_append_right _ hd)⟩
  obtain ⟨e, he⟩ := spends_importPackages f.imports {} (initial name f) ⟨nodup_nil, nofun⟩
  obtain ⟨e', he'⟩ :=
    resolveDecls_accounts ((importPackages f.imports {}).run (initial name f)).1 hds
    (sublist_nil.mp he.pending) he.active
  obtain ⟨log, hlog⟩ := ofFile_eq name f
  rw [hlog, run_bind]
  -- Imports are paid with nothing, so they make no entries.
  have hnothing : owed (initial name f) = [] := rfl
  have hwrites := he.writes.trans he'.writes
  refine ⟨e.before e', {
    writes := ⟨hwrites.recorded, fun hr => ?_, hwrites.defs, hwrites.uses⟩
    names := fun k => ?_
    types := fun k => ?_
    covered := fun k hk => mem_append_left _ (he'.covered k hk)
    stopped := he'.stopped.trans he.stopped }⟩
  · obtain ⟨hmem, hkeys⟩ := hwrites.faithful hr
    exact ⟨hmem, hkeys⟩
  · have h := he.names k
    have h' := he'.names k
    simp only [Entries.before, count_append, hnothing, count_nil] at h h' ⊢
    omega
  · have h := he.types k
    have h' := he'.types k
    simp only [Entries.before, count_append, hnothing, count_nil] at h h' ⊢
    omega

/-- An expression that is no plain identifier stands in a declaration. -/
lemma mem_needed_decls {f : File} {n : Node} (hn : n ∈ f.node.preorder)
    (hexpr : n.isExpression = true) (hident : ∀ i, n ≠ .ident i) : n.id ∈ needed f.decls := by
  have hneeds : needsType n = true := by
    cases n with
    | ident i => exact absurd rfl (hident i)
    | _ => exact hexpr
  have hmem : n.id ∈ needed [f.node] := by
    rw [Node.preorder_eq] at hn
    exact mem_map_of_mem (mem_filter.mpr ⟨hn, hneeds⟩)
  have hspecs : needed (f.imports.map .importSpec) = [] := by
    refine eq_nil_iff_forall_not_mem.mpr fun k hk => ?_
    obtain ⟨m, hm, hk⟩ := mem_needed_iff.mp hk
    obtain ⟨spec, -, rfl⟩ := mem_map.mp hm
    simp [mem_needed_cons, needsType, Node.isExpression, Node.children, needed_nil] at hk
  have hchildren : f.node.children = (.ident f.package :: f.imports.map .importSpec) ++ f.decls :=
    rfl
  simpa [mem_needed_cons, needed_append, hchildren, hspecs, needsType, Node.isExpression,
    File.node, Node.children, needed_nil] using hmem

/-- **Every expression gets its type once.**  A tree that is built from a description is resolved
without a stop, and then every expression and type of it that is no plain identifier has a type,
wherever it stands.  No node has been given one twice: the types are those that were recorded, in
that order, and all of them belong to different nodes.  And no identifier both declares something
and refers to something. -/
theorem typed_once {file text : String} {f : File} {expectations : List Expectation}
    (h : File.ofText file text = .ok (f, expectations)) (name : String) :
    let r := Resolver.ofFile name f.numbered
    Info.ofFile name f.numbered = .ok (r.info, r.log) ∧
    (∀ n ∈ f.numbered.node.preorder, n.isExpression = true → (∀ i, n ≠ .ident i) →
      ∃ t, r.info.types.find? n.id = some t) ∧
    (r.recorded.Nodup ∧ r.info.types.keys = r.recorded.reverse) ∧
    ∀ k, r.info.defs.find? k = none ∨ r.info.uses.find? k = none := by
  intro r
  obtain ⟨e, he⟩ := ofFile_accounts name (File.regular_ofText h).numbered
  have hstart : Faithful (initial name f.numbered) :=
    ⟨fun k => by simp [initial, Table.find?, Table.findIn], fun _ => rfl⟩
  have hfaithful := he.writes.faithful hstart
  have hrecorded : r.recorded = e.types := he.writes.recorded.trans (List.append_nil _)
  -- Each node pays once.
  have honce : ∀ k, (ids f.numbered.decls).count k ≤ 1 :=
    List.nodup_iff_count.mp (nodup_ids_decls f)
  have hnodup : r.recorded.Nodup := by
    rw [hrecorded]
    exact List.nodup_iff_count.mpr fun k => (he.types k).trans (honce k)
  refine ⟨?_, fun n hn hexpr hident => ?_, ⟨hnodup, hfaithful.keys hnodup⟩, fun k => ?_⟩
  · have hstopped : (Resolver.ofFile name f.numbered).stopped = none := he.stopped
    simp only [Info.ofFile, hstopped]
    rfl
  · refine Option.isSome_iff_exists.mp ((hfaithful.mem n.id).mp ?_)
    show n.id ∈ r.recorded
    rw [hrecorded]
    exact he.covered n.id (mem_needed_decls hn hexpr hident)
  · have hcount := (he.names k).trans (honce k)
    rw [List.count_append] at hcount
    by_cases hdefs : k ∈ e.defs
    · right
      have huses : k ∉ e.uses := fun huses => by
        have := List.count_pos_iff.mpr hdefs
        have := List.count_pos_iff.mpr huses
        omega
      exact he.writes.uses k huses
    · left
      exact he.writes.defs k hdefs

/-- A type that refers to itself, and a literal of it in a place that is never reached. -/
def unreached : String := "(package p)
(type T (array 2 (ptr T)))
(func f () () (return) (expr (lit T (kv 0 (neg 1)))))"

/-- The numbers of the expressions of `unreached` that are no plain identifiers. -/
def unreachedExprs : List Nat := [4, 5, 6, 10, 14, 16, 17, 18, 19]

/-- They are the array type with its length and its element, the type of the function, and the
literal with all that is in it.  All of them get a type. -/
theorem typed_once_unreached : ∃ f expectations, File.ofText "sample" unreached =
    .ok (f, expectations) ∧
    (f.numbered.node.preorder.filter needsType).map Node.id = unreachedExprs ∧
    ∀ k ∈ unreachedExprs, ∃ t, (Resolver.ofFile "sample" f.numbered).info.types.find? k =
      some t := by
  have hbuilt : ((File.ofText "sample" unreached).toOption.map fun p =>
      (p.1.numbered.node.preorder.filter needsType).map Node.id) =
        some unreachedExprs := by decide +kernel
  obtain ⟨⟨f, expectations⟩, hf, hids⟩ := Option.map_eq_some_iff.mp hbuilt
  have h : File.ofText "sample" unreached = .ok (f, expectations) := by
    cases hread : File.ofText "sample" unreached with
    | error refusal =>
      rw [hread] at hf
      cases hf
    | ok p =>
      rw [hread] at hf
      cases hf
      rfl
  refine ⟨f, expectations, h, hids, fun k hk => ?_⟩
  rw [← hids] at hk
  obtain ⟨n, hn, rfl⟩ := List.mem_map.mp hk
  obtain ⟨hn, hneeds⟩ := List.mem_filter.mp hn
  have hident : ∀ i, n ≠ .ident i := by
    rintro i rfl
    cases hneeds
  refine (typed_once h "sample").2.1 n hn ?_ hident
  cases n with
  | ident i => exact absurd rfl (hident i)
  | _ => exact hneeds

end Recast.Ledger
