import Recast.Flow.Search
import Recast.Proofs.Flow.Contents
import Recast.Proofs.Syntax.Relabeling

/-!
# Relabeling control flow

The graph of a relabeled function is the relabeled graph: lowering looks at the form of a statement
only and never at a number or a name.  Two lowerings, one of a statement and one of the relabeled
statement, go side by side and stay `Mirrored`.

* `Graph.relabel_ofFunction` — what is made of a relabeled function.
* `Graph.relabel_pathTo?` — a search for a relabeled node takes the same way, as long as no node on
  it takes the number of another.
-/

namespace Recast.Flow

open List

variable (ρ : Relabeling)

def BasicBlock.relabel (b : BasicBlock) : BasicBlock :=
  { b with nodes := b.nodes.map (Node.relabel ρ) }

/-- A graph with its nodes relabeled. -/
def Graph.relabel (g : Graph) : Graph where
  function := g.function.map (Node.relabel ρ)
  blocks := g.blocks.map (BasicBlock.relabel ρ)
  edges := g.edges

def Frame.relabel (f : Frame) : Frame := { f with nodes := f.nodes.map (Node.relabel ρ) }

def Outcome.relabel : Outcome → Outcome
  | .found path => .found (path.map (Node.relabel ρ))
  | .unreachable => .unreachable
  | .exhausted => .exhausted

/-- A property that goes from a node to its children. -/
def Hereditary (P : Node → Prop) : Prop := ∀ n, P n → ∀ c ∈ n.children, P c

namespace Graph

variable {ρ}

lemma relabel_addBlock (g : Graph) (kind : BlockKind) :
    (g.addBlock kind).relabel ρ = (g.relabel ρ).addBlock kind := by
  simp [relabel, addBlock, BasicBlock.relabel]

lemma relabel_addEdge (g : Graph) (e : Edge) :
    (g.addEdge e).relabel ρ = (g.relabel ρ).addEdge e := by
  rw [relabel, addEdge, addEdge, relabel, map_modify, map_modify]
  · exact fun _ => rfl
  · exact fun _ => rfl

lemma relabel_addNode (g : Graph) (b : Nat) (n : Node) :
    (g.addNode b n).relabel ρ = (g.relabel ρ).addNode b (n.relabel ρ) := by
  rw [relabel, addNode, addNode, relabel, map_modify]
  exact fun x => by simp [BasicBlock.relabel]

lemma length_blocks_relabel (g : Graph) : (g.relabel ρ).blocks.length = g.blocks.length :=
  length_map _

lemma block_relabel (g : Graph) (b : Nat) : (g.relabel ρ).block b = (g.block b).relabel ρ := by
  rw [block, block, relabel, getD_eq_getElem?_getD, getD_eq_getElem?_getD, getElem?_map]
  cases g.blocks[b]? <;> rfl

end Graph

/-! ## Two lowerings side by side -/

/-- **Mirrored lowerings**: the second graph is the relabeled first one. -/
structure Lowering.Mirrored (s s' : Lowering) : Prop where
  graph : s'.graph = s.graph.relabel ρ
  current : s'.current = s.current

/-- Two steps that keep lowerings mirrored and give the same answer. -/
def Mirrors {α : Type} (x x' : Lower α) : Prop :=
  ∀ s s', Lowering.Mirrored ρ s s' → (x'.run s').1 = (x.run s).1 ∧
    Lowering.Mirrored ρ (x.run s).2 (x'.run s').2

namespace Mirrors

variable {ρ} {α β : Type}

lemma pure (a : α) : Mirrors ρ (pure a) (pure a) := fun _ _ hs => ⟨rfl, hs⟩

lemma bind {x x' : Lower α} {f f' : α → Lower β} (hx : Mirrors ρ x x')
    (hf : ∀ a, Mirrors ρ (f a) (f' a)) :
    Mirrors ρ (x >>= f) (x' >>= f') := by
  intro s s' hs
  obtain ⟨ha, hs⟩ := hx s s' hs
  show (StateT.run (f' (x'.run s').1) (x'.run s').2).1 = _ ∧
    Lowering.Mirrored ρ _ (StateT.run (f' (x'.run s').1) _).2
  rw [ha]
  exact hf _ _ _ hs

lemma seq {x x' : Lower Unit} {y y' : Lower β} (hx : Mirrors ρ x x') (hy : Mirrors ρ y y') :
    Mirrors ρ (do x; y) (do x'; y') := hx.bind fun _ => hy

lemma place (n : Node) : Mirrors ρ (Lower.place n) (Lower.place (n.relabel ρ)) := by
  intro s s' hs
  refine ⟨rfl, ?_, hs.current⟩
  show s'.graph.addNode s'.current (n.relabel ρ) = (s.graph.addNode s.current n).relabel ρ
  rw [hs.graph, hs.current, Graph.relabel_addNode]

lemma newBlock (kind : BlockKind) : Mirrors ρ (Lower.newBlock kind) (Lower.newBlock kind) := by
  intro s s' hs
  refine ⟨?_, ?_, hs.current⟩
  · show s'.graph.blocks.length = s.graph.blocks.length
    rw [hs.graph, Graph.length_blocks_relabel]
  · show s'.graph.addBlock kind = (s.graph.addBlock kind).relabel ρ
    rw [hs.graph, Graph.relabel_addBlock]

lemma connect (source target : Nat) (kind : EdgeKind) :
    Mirrors ρ (Lower.connect source target kind) (Lower.connect source target kind) := by
  intro s s' hs
  refine ⟨rfl, ?_, hs.current⟩
  show s'.graph.addEdge _ = (s.graph.addEdge _).relabel ρ
  rw [hs.graph, Graph.relabel_addEdge]

lemma moveTo (b : Nat) : Mirrors ρ (Lower.moveTo b) (Lower.moveTo b) :=
  fun _ _ hs => ⟨rfl, hs.graph, rfl⟩

lemma here : Mirrors ρ Lower.here Lower.here := fun _ _ hs => ⟨hs.current, hs⟩

lemma jump (target : Nat) (kind : EdgeKind) :
    Mirrors ρ (Lower.jump target kind) (Lower.jump target kind) :=
  here.bind fun _ => connect _ _ _

lemma cutOff : Mirrors ρ Lower.cutOff Lower.cutOff := (newBlock _).bind fun _ => moveTo _

/-- What is put on record when there is nowhere to go may be worded differently; that is not part of
the graph. -/
lemma leave (exits : List Exit) (word : String) :
    Mirrors ρ (Lower.leave exits word) (Lower.leave exits word) := by
  rw [Lower.leave]
  split
  next target kind _ =>
    cases target with
    | none => exact seq (fun s s' hs => ⟨rfl, hs.graph, hs.current⟩) cutOff
    | some b => exact (jump b kind).seq cutOff

lemma placeAll (ns : List Node) :
    Mirrors ρ (Lower.placeAll ns) (Lower.placeAll (ns.map (Node.relabel ρ))) := by
  induction ns with
  | nil => exact pure ()
  | cons n ns ih => exact (place n).seq ih

lemma enter (loop body done : Nat) (cond : Option Node) :
    Mirrors ρ (Lower.stmt.enter loop body done cond)
      (Lower.stmt.enter loop body done (relabelOption ρ cond)) := by
  cases cond with
  | none => exact connect _ _ _
  | some n => exact (place n).seq ((connect _ _ _).seq (connect _ _ _))

/-! ### Statements -/

variable {exits : List Exit} {m bm : Mark} {init : Option Node} {body : List Node}

lemma ifStmt {cond : Node} {orElse : Option Node}
    (hinit : Mirrors ρ (Lower.stmtOption exits init)
      (Lower.stmtOption exits (relabelOption ρ init)))
    (hbody : Mirrors ρ (Lower.stmtList exits body) (Lower.stmtList exits (relabelAll ρ body)))
    (helse : ∀ n ∈ orElse, Mirrors ρ (Lower.stmt exits n) (Lower.stmt exits (n.relabel ρ))) :
    Mirrors ρ (Lower.stmt exits (.ifStmt m init cond (.mk bm body) orElse))
      (Lower.stmt exits ((Node.ifStmt m init cond (.mk bm body) orElse).relabel ρ)) := by
  rw [Node.relabel, Block.relabel, Lower.stmt, Lower.stmt]
  refine hinit.seq
    ((place cond).seq (here.bind fun before => (newBlock _).bind fun thenBlock => ?_))
  cases orElse with
  | none =>
    refine (newBlock _).bind fun done => (connect _ _ _).seq
      ((connect _ _ _).seq ((moveTo _).seq ?_))
    exact hbody.seq ((jump _ _).seq (moveTo _))
  | some orElse =>
    refine (newBlock _).bind fun elseBlock => (newBlock _).bind fun done => ?_
    refine (connect _ _ _).seq
      ((connect _ _ _).seq ((moveTo _).seq (hbody.seq ((jump _ _).seq ((moveTo _).seq ?_)))))
    exact (helse _ rfl).seq ((jump _ _).seq (moveTo _))

lemma forStmt {cond post : Option Node}
    (hinit : Mirrors ρ (Lower.stmtOption exits init)
      (Lower.stmtOption exits (relabelOption ρ init)))
    (hpost : ∀ n ∈ post, Mirrors ρ (Lower.stmt exits n) (Lower.stmt exits (n.relabel ρ)))
    (hbody : ∀ exits, Mirrors ρ (Lower.stmtList exits body)
      (Lower.stmtList exits (relabelAll ρ body))) :
    Mirrors ρ (Lower.stmt exits (.forStmt m init cond post (.mk bm body)))
      (Lower.stmt exits ((Node.forStmt m init cond post (.mk bm body)).relabel ρ)) := by
  rw [Node.relabel, Block.relabel, Lower.stmt, Lower.stmt]
  refine hinit.seq
    ((newBlock _).bind fun loop => (jump _ _).seq
      ((moveTo _).seq ((newBlock _).bind fun bodyBlock => ?_)))
  refine (newBlock _).bind fun done => ?_
  cases post with
  | none =>
    exact (enter _ _ _ cond).seq ((moveTo _).seq ((hbody _).seq ((jump _ _).seq (moveTo _))))
  | some post =>
    refine (newBlock _).bind fun postBlock => (enter _ _ _ cond).seq
      ((moveTo _).seq ((hbody _).seq ?_))
    exact (jump _ _).seq ((moveTo _).seq ((hpost _ rfl).seq ((jump _ _).seq (moveTo _))))

lemma rangeStmt {key value : Option Node} {op : String} {x : Node}
    (hbody : ∀ exits, Mirrors ρ (Lower.stmtList exits body)
      (Lower.stmtList exits (relabelAll ρ body))) :
    Mirrors ρ (Lower.stmt exits (.rangeStmt m key value op x (.mk bm body)))
      (Lower.stmt exits ((Node.rangeStmt m key value op x (.mk bm body)).relabel ρ)) := by
  have hplace := place (ρ := ρ) (.rangeStmt m key value op x (.mk bm body))
  rw [Node.relabel, Block.relabel] at hplace ⊢
  rw [Lower.stmt, Lower.stmt]
  refine (place x).seq
    ((newBlock _).bind fun loop => (jump _ _).seq ((moveTo _).seq (hplace.seq ?_)))
  refine (newBlock _).bind fun bodyBlock => (newBlock _).bind fun done => (connect _ _ _).seq
    ((connect _ _ _).seq ?_)
  exact (moveTo _).seq ((hbody _).seq ((jump _ _).seq (moveTo _)))

lemma switch {tag : Option Node} {clauses : List Clause}
    (hinit : Mirrors ρ (Lower.stmtOption exits init)
      (Lower.stmtOption exits (relabelOption ρ init)))
    (hclauses : ∀ exits before done, Mirrors ρ (Lower.clauseList exits before done clauses)
      (Lower.clauseList exits before done (relabelClauses ρ clauses))) :
    Mirrors ρ (Lower.stmt exits (.switch m init tag clauses))
      (Lower.stmt exits ((Node.switch m init tag clauses).relabel ρ)) := by
  have htags : (relabelOption ρ tag).toList =
    tag.toList.map (Node.relabel ρ) := by cases tag <;> rfl
  have hparts : ∀ c : Clause, (c.relabel ρ).guards.getD [] =
    (c.guards.getD []).map (Node.relabel ρ) ∧
      (c.relabel ρ).isDefault = c.isDefault := by
    rintro ⟨cm, guards, stmts⟩
    cases guards with
    | none => exact ⟨rfl, rfl⟩
    | some gs => exact ⟨relabelAll_eq ρ gs, rfl⟩
  have hall : ((relabelClauses ρ clauses).flatMap fun c => c.guards.getD []) =
      (clauses.flatMap fun c => c.guards.getD []).map (Node.relabel ρ) := by
    rw [relabelClauses_eq, flatMap_map, map_flatMap]
    exact congrArg (flatMap · clauses) (funext fun c => (hparts c).1)
  have hdefault : (relabelClauses ρ clauses).any Clause.isDefault =
      clauses.any Clause.isDefault := by
    rw [relabelClauses_eq, any_map]
    exact congrArg (any clauses) (funext fun c => (hparts c).2)
  rw [Node.relabel, Lower.stmt, Lower.stmt, htags, hall, hdefault]
  refine hinit.seq ((placeAll _).seq ((placeAll _).seq ?_))
  refine here.bind fun before => (newBlock _).bind fun done => (hclauses _ _ _).seq ?_
  cases clauses.any Clause.isDefault with
  | true => exact moveTo _
  | false => exact (connect _ _ _).seq (moveTo _)

lemma clause {before done : Nat} {guards : Option (List Node)} {cs : List Clause}
    (hbody : Mirrors ρ (Lower.stmtList exits body) (Lower.stmtList exits (relabelAll ρ body)))
    (hcs : Mirrors ρ (Lower.clauseList exits before done cs)
      (Lower.clauseList exits before done (relabelClauses ρ cs))) :
    Mirrors ρ (Lower.clauseList exits before done (.mk m guards body :: cs))
      (Lower.clauseList exits before done (relabelClauses ρ (.mk m guards body :: cs))) := by
  have hnone : (relabelGuards ρ guards).isNone = guards.isNone := by cases guards <;> rfl
  rw [relabelClauses, Clause.relabel, Lower.clauseList, Lower.clauseList, hnone]
  refine (newBlock _).bind fun bodyBlock => (connect _ _ _).seq
    ((moveTo _).seq (hbody.seq ((jump _ _).seq hcs)))

end Mirrors

section Recursion

variable {ρ}

mutual

/-- **Lowering does not look at labels.**  One case for each form of statement that cuts the current
block. -/
theorem mirrors_stmt (exits : List Exit) :
    (n : Node) → Mirrors ρ (Lower.stmt exits n) (Lower.stmt exits (n.relabel ρ))
  | .block (.mk m stmts) => by
    rw [Node.relabel, Block.relabel, Lower.stmt, Lower.stmt]
    exact mirrors_stmtList exits stmts
  | .ret m results => by
    have hplace := Mirrors.place (ρ := ρ) (.ret m results)
    rw [Node.relabel] at hplace ⊢
    rw [Lower.stmt, Lower.stmt]
    exact hplace.seq .cutOff
  | .branch m word => by
    rw [Node.relabel, Lower.stmt, Lower.stmt]
    exact .leave exits word
  | .ifStmt m init cond (.mk bm body) orElse => by
    refine .ifStmt (mirrors_stmtOption exits init) (mirrors_stmtList exits body) fun n hmem => ?_
    cases orElse with
    | none => cases hmem
    | some orElse =>
      obtain rfl := Option.some.inj hmem
      exact mirrors_stmt exits orElse
  | .forStmt m init cond post (.mk bm body) => by
    refine .forStmt (mirrors_stmtOption exits init) (fun n hmem => ?_) fun exits =>
      mirrors_stmtList exits body
    cases post with
    | none => cases hmem
    | some post =>
      obtain rfl := Option.some.inj hmem
      exact mirrors_stmt exits post
  | .rangeStmt _ _ _ _ _ (.mk _ body) => .rangeStmt fun exits => mirrors_stmtList exits body
  | .switch _ init _ clauses =>
    .switch (mirrors_stmtOption exits init) fun exits before done =>
      mirrors_clauseList exits before done clauses
  | .ident _ | .literal _ _ _ | .composite _ _ _ | .keyed _ _ _ | .select _ _ _ | .star _ _
  | .unary _ _ _ | .binary _ _ _ _
  | .paren _ _ | .call _ _ _ | .index _ _ _ | .funcLit _ _ _ | .arrayType _ _ _ | .structType _ _
  | .funcType _ | .field _
  | .assign _ _ _ _ | .varSpec _ _ _ _ | .exprStmt _ _ | .incDec _ _ _ | .clause _
  | .importSpec _ | .typeDecl _ _ _ _
  | .funcDecl _ _ _ _ | .file _ _ _ _ => by
    exact .place _

theorem mirrors_stmtList (exits : List Exit) :
    (ns : List Node) → Mirrors ρ (Lower.stmtList exits ns) (Lower.stmtList exits (relabelAll ρ ns))
  | [] => .pure ()
  | n :: ns => by
    rw [relabelAll, Lower.stmtList, Lower.stmtList]
    exact (mirrors_stmt exits n).seq (mirrors_stmtList exits ns)

theorem mirrors_stmtOption (exits : List Exit) :
    (n : Option Node) →
      Mirrors ρ (Lower.stmtOption exits n) (Lower.stmtOption exits (relabelOption ρ n))
  | none => .pure ()
  | some n => by
    rw [relabelOption, Lower.stmtOption, Lower.stmtOption]
    exact mirrors_stmt exits n

theorem mirrors_clauseList (exits : List Exit) (before done : Nat) : (cs : List Clause) →
    Mirrors ρ (Lower.clauseList exits before done cs)
      (Lower.clauseList exits before done (relabelClauses ρ cs))
  | [] => .pure ()
  | .mk _ _ body :: cs =>
    .clause (mirrors_stmtList exits body) (mirrors_clauseList exits before done cs)

end

end Recursion

/-! ## Graphs of functions -/

namespace Graph

variable {ρ} {fn : Node}

lemma functionBody_relabel (fn : Node) :
    (fn.relabel ρ).functionBody = relabelBody ρ fn.functionBody := by
  cases fn <;> rfl

/-- **The graph of a relabeled function** is the relabeled graph of the function. -/
theorem relabel_ofFunction (fn : Node) :
    (ofFunction (fn.relabel ρ)).1 = (ofFunction fn).1.relabel ρ := by
  have hbody : Mirrors ρ (Lower.body fn.functionBody) (Lower.body (fn.relabel ρ).functionBody) := by
    rw [functionBody_relabel]
    cases fn.functionBody with
    | none => exact .pure ()
    | some b =>
      obtain ⟨m, stmts⟩ := b
      exact mirrors_stmtList [] stmts
  have hstart : Lowering.Mirrored ρ (start fn) (start (fn.relabel ρ)) := ⟨rfl, rfl⟩
  exact (hbody _ _ hstart).2.graph

end Graph

/-! ## Searches -/

variable {ρ}

/-- A list of nodes is cut at the same place when no node takes the number looked for. -/
lemma nodesUntil?_relabel {id : Nat} {ns : List Node}
    (h : ∀ n ∈ ns, ρ.number n.id = ρ.number id → n.id = id) :
    nodesUntil? (ρ.number id) (ns.map (Node.relabel ρ)) =
      (nodesUntil? id ns).map (map (Node.relabel ρ)) := by
  induction ns with
  | nil => rfl
  | cons n ns ih =>
    rw [map_cons, nodesUntil?, nodesUntil?, Node.id_relabel,
      ih fun m hm => h m (mem_cons_of_mem n hm)]
    by_cases hn : n.id = id
    · rw [if_pos hn, if_pos (congrArg ρ.number hn)]
      rfl
    · rw [if_neg hn, if_neg (mt (h n mem_cons_self) hn), Option.map_map, Option.map_map]
      rfl

/-- The nodes on the way so far. -/
lemma relabel_trail (stack : List Frame) :
    (stack.map (Frame.relabel ρ)).reverse.flatMap Frame.nodes =
    (stack.reverse.flatMap Frame.nodes).map (Node.relabel ρ) := by
  rw [← map_reverse, flatMap_map, map_flatMap]
  rfl

lemma searchFrom_relabel {block block' : Nat → BasicBlock} {successors : Nat → List Nat} {id : Nat}
    (hblock : ∀ b, block' b = (block b).relabel ρ)
    (h : ∀ b, ∀ n ∈ (block b).nodes, ρ.number n.id = ρ.number id → n.id = id)
    (fresh : Fresh) (budget : Int) (stack : List Frame) :
    searchFrom block' successors (ρ.number id) fresh budget (stack.map (Frame.relabel ρ)) =
      (searchFrom block successors id fresh budget stack).relabel ρ := by
  fun_induction searchFrom block successors id fresh budget stack with
  | case1 fresh budget =>
    rw [map_nil, searchFrom]
    rfl
  | case2 fresh budget nodes below ih =>
    rw [map_cons, Frame.relabel, searchFrom]
    exact ih
  | case3 fresh budget nodes b next below hfresh hbudget =>
    rw [map_cons, Frame.relabel, searchFrom, if_pos hfresh, if_pos hbudget]
    rfl
  | case4 fresh budget nodes b next below hfresh hbudget last hlast =>
    rw [map_cons, Frame.relabel, searchFrom, if_pos hfresh, if_neg hbudget,
      hblock, BasicBlock.until?, BasicBlock.relabel, nodesUntil?_relabel (h b)]
    rw [BasicBlock.until?] at hlast
    rw [hlast]
    simp only [Outcome.relabel, Option.map_some, map_append, ← relabel_trail]
    rfl
  | case5 fresh budget nodes b next below hfresh hbudget hlast ih =>
    rw [map_cons, Frame.relabel, searchFrom, if_pos hfresh, if_neg hbudget,
      hblock, BasicBlock.until?, BasicBlock.relabel, nodesUntil?_relabel (h b)]
    rw [BasicBlock.until?] at hlast
    rw [hlast]
    exact ih
  | case6 fresh budget nodes b next below hfresh ih =>
    rw [map_cons, Frame.relabel, searchFrom, if_neg hfresh]
    exact ih

namespace Graph

variable {g : Graph} {id : Nat}

/-- **A search in a relabeled graph** takes the way it takes in the graph. -/
theorem relabel_pathTo? (h : g.AllNodes fun n => ρ.number n.id = ρ.number id → n.id = id)
    (budget : Int) :
    (g.relabel ρ).pathTo? (ρ.number id) budget =
      (g.pathTo? id budget).map (map (Node.relabel ρ)) := by
  have hsearch : (g.relabel ρ).search (ρ.number id) budget = (g.search id budget).relabel ρ := by
    rw [search_eq, search_eq, length_blocks_relabel]
    exact searchFrom_relabel (block_relabel g) (fun b n hn => h n (mem_contents.mpr ⟨b, hn⟩)) _ _
      [⟨[], [0]⟩]
  rw [pathTo?, pathTo?, hsearch]
  cases g.search id budget <;> rfl

end Graph

end Recast.Flow
