import Recast.Proofs.Flow.Traces
import Recast.Proofs.Syntax.Grammar

/-!
# Flow nodes

The nodes of the control flow of a statement are read off the tree (`Node.flow`), in the order of
the walk: simple statements, conditions, operands and statements of `range`, tags and guards.  A
function inside an expression has a flow of its own.

**Owners.**  A node belongs to the function that is the innermost one above it (`Node.Below`).  By
the grammar the assignments that belong to a function are in its flow (`Below.flow_subset`).
-/

namespace Recast

open List

/-! ## Flow nodes -/

mutual

/-- The nodes of the control flow of a statement, in the order of the walk. -/
def Node.flow : Node → List Node
  | .assign m targets op values => [.assign m targets op values]
  | .varSpec m names type values => [.varSpec m names type values]
  | .exprStmt m x => [.exprStmt m x]
  | .incDec m x op => [.incDec m x op]
  | .ret m results => [.ret m results]
  | .block (.mk _ stmts) => flowAll stmts
  | .ifStmt _ init cond (.mk _ body) orElse =>
    flowOption init ++ cond :: flowAll body ++ flowOption orElse
  | .forStmt _ init cond post (.mk _ body) =>
    flowOption init ++ cond.toList ++ flowOption post ++ flowAll body
  | .rangeStmt m key value op x (.mk bm body) =>
    .rangeStmt m key value op x (.mk bm body) :: x :: flowAll body
  | .switch _ init tag clauses => flowOption init ++ tag.toList ++ flowClauses clauses
  | .clause (.mk _ guards body) => guards.getD [] ++ flowAll body
  | _ => []

def flowAll : List Node → List Node
  | [] => []
  | n :: ns => n.flow ++ flowAll ns

def flowOption : Option Node → List Node
  | none => []
  | some n => n.flow

def flowClauses : List Clause → List Node
  | [] => []
  | .mk _ guards body :: cs => guards.getD [] ++ flowAll body ++ flowClauses cs

end

/-- The nodes of the control flow of a function. -/
def Node.bodyFlow (fn : Node) : List Node :=
  match fn.functionBody with
  | none => []
  | some body => (Node.block body).flow

lemma sublist_toList_preorderAll (n : Option Node) : n.toList.Sublist (preorderAll n.toList) := by
  cases n with
  | none => exact nil_sublist _
  | some n =>
    rw [Option.toList_some, preorderAll]
    exact (nil_sublist _).cons_cons n

lemma sublist_preorderAll_self (ns : List Node) : ns.Sublist (preorderAll ns) := by
  induction ns with
  | nil => exact nil_sublist _
  | cons n ns ih =>
    rw [preorderAll, preorderAll_append]
    exact (ih.trans (sublist_append_right _ _)).cons_cons n

/-- The nodes of one node, and then those of others. -/
lemma preorderAll_cons (n : Node) (ns : List Node) :
    preorderAll (n :: ns) = n :: preorderAll n.children ++ preorderAll ns := by
  rw [preorderAll, preorderAll_append]
  rfl

lemma preorderAll_singleton (n : Node) : preorderAll [n] = n :: preorderAll n.children := by
  rw [preorderAll, append_nil]

/-- Flow nodes belong to their statement, in the order of the walk. -/
lemma Node.flow_sublist (n : Node) : n.flow.Sublist (preorderAll [n]) := by
  refine Node.flow.induct (fun n => n.flow.Sublist (preorderAll [n]))
    (fun cs => (flowClauses cs).Sublist (preorderAll (cs.map .clause)))
    (fun stmts => (flowAll stmts).Sublist (preorderAll stmts))
    (fun n => (flowOption n).Sublist (preorderAll n.toList))
    ?assign ?varSpec ?exprStmt ?incDec ?ret ?block ?ifStmt ?forStmt ?rangeStmt ?switch ?clause
      ?other ?missing ?present
    ?nil ?cons ?noClause ?clauses n
  case assign | varSpec | exprStmt | incDec | ret =>
    intros
    rw [Node.flow, preorderAll_singleton]
    exact (nil_sublist _).cons_cons _
  case block =>
    intro m stmts ih
    rw [Node.flow, preorderAll_singleton]
    exact ih.cons _
  case ifStmt =>
    intro m init cond bm body orElse hinit hbody helse
    rw [Node.flow, preorderAll_singleton, Node.children, preorderAll_append,
      preorderAll_append, preorderAll_cons, preorderAll_singleton]
    have hcond : (cond :: flowAll body).Sublist
        (cond :: preorderAll cond.children ++ Node.block (.mk bm body) :: preorderAll body) :=
      ((hbody.cons _).trans (sublist_append_right _ _)).cons_cons cond
    exact ((hinit.append hcond).append helse).cons _
  case forStmt =>
    intro m init cond post bm body hinit hpost hbody
    rw [Node.flow, preorderAll_singleton, Node.children, preorderAll_append,
      preorderAll_append, preorderAll_append, preorderAll_singleton]
    exact (((hinit.append (sublist_toList_preorderAll cond)).append hpost).append
      (hbody.cons _)).cons _
  case rangeStmt =>
    intro m key value op x bm body hbody
    rw [Node.flow, preorderAll_singleton, Node.children, preorderAll_append, preorderAll_cons,
      preorderAll_singleton]
    have hx : (x :: flowAll body).Sublist
        (x :: preorderAll x.children ++ Node.block (.mk bm body) :: preorderAll body) :=
      ((hbody.cons _).trans (sublist_append_right _ _)).cons_cons x
    exact (hx.trans (sublist_append_right _ _)).cons_cons _
  case switch =>
    intro m init tag clauses hinit hclauses
    rw [Node.flow, preorderAll_singleton, Node.children, preorderAll_append, preorderAll_append]
    exact ((hinit.append (sublist_toList_preorderAll tag)).append hclauses).cons _
  case clause =>
    intro m guards body hbody
    rw [Node.flow, preorderAll_singleton, Node.children, preorderAll_append]
    exact ((sublist_preorderAll_self _).append hbody).cons _
  case other =>
    intros
    rw [Node.flow]
    · exact nil_sublist _
    all_goals assumption
  case missing =>
    rw [flowOption]
    exact nil_sublist _
  case present =>
    intro n ih
    rw [flowOption]
    exact ih
  case nil =>
    rw [flowAll]
    exact nil_sublist _
  case cons =>
    intro n ns ih ihs
    rw [flowAll, ← singleton_append, preorderAll_append]
    exact ih.append ihs
  case noClause =>
    rw [flowClauses]
    exact nil_sublist _
  case clauses =>
    intro m guards body cs hbody hcs
    rw [flowClauses, map_cons, preorderAll_cons, Node.children, preorderAll_append]
    exact (((sublist_preorderAll_self _).append hbody).cons _).append hcs

/-! ## Flow nodes of parts -/

lemma mem_flowAll {x : Node} {ns : List Node} : x ∈ flowAll ns ↔ ∃ n ∈ ns, x ∈ n.flow := by
  induction ns with
  | nil => simp [flowAll]
  | cons n ns ih => simp [flowAll, ih]

lemma mem_flowOption {x : Node} {n : Option Node} : x ∈ flowOption n ↔ ∃ m ∈ n, x ∈ m.flow := by
  cases n with
  | none => simp [flowOption]
  | some n => simp [flowOption]

lemma mem_flowClauses {x : Node} {cs : List Clause} :
    x ∈ flowClauses cs ↔ ∃ c ∈ cs, x ∈ (Node.clause c).flow := by
  induction cs with
  | nil => simp [flowClauses]
  | cons c cs ih =>
    obtain ⟨m, guards, body⟩ := c
    have hclause : (Node.clause (.mk m guards body)).flow = guards.getD [] ++
      flowAll body := by rw [Node.flow]
    simp only [flowClauses, mem_append, ih, mem_cons, exists_eq_or_imp, hclause]

namespace Node

variable {root fn n c x : Node}

/-- By the grammar, the parts of a statement are terms, and statements whose flow nodes are flow
nodes of the whole. -/
lemma flow_of_child (hn : n.isAction = true) (hproper : n.isProper = true) (hc : c ∈ n.children) :
    c.isTerm = true ∨ c.isAction = true ∧ ∀ x ∈ c.flow, x ∈ n.flow := by
  obtain ⟨hexpr, hstmt, -⟩ := isProper_iff.mp hproper
  have hterm : ∀ c ∈ n.operandParts, c.isTerm = true :=
    fun c hc => isTerm_of_isExpression (hexpr c hc)
  have haction : ∀ c ∈ n.statementParts, c.isAction = true :=
    fun c hc => isAction_of_isStatement (hstmt c hc)
  cases n with
  | assign | exprStmt | incDec | ret | branch => grind [operandParts, children]
  | varSpec => grind [operandParts, children, isTerm, isExpression]
  | block b =>
    obtain ⟨m, stmts⟩ := b
    refine Or.inr ⟨haction c hc, ?_⟩
    grind [children, flow, mem_flowAll]
  | ifStmt m init cond b orElse =>
    obtain ⟨bm, body⟩ := b
    grind [operandParts, statementParts, children, flow, isAction, isStatement, mem_flowOption]
  | forStmt m init cond post b =>
    obtain ⟨bm, body⟩ := b
    grind [operandParts, statementParts, children, flow, isAction, isStatement, mem_flowOption]
  | rangeStmt m key value op y b =>
    obtain ⟨bm, body⟩ := b
    by_cases hbody : c = .block (.mk bm body)
    · subst hbody
      exact Or.inr ⟨rfl, by simp only [flow]; grind⟩
    · grind [operandParts, children]
  | switch =>
    grind [operandParts, statementParts, children, flow, isAction, mem_flowOption, mem_flowClauses]
  | clause b =>
    obtain ⟨m, guards, body⟩ := b
    rcases mem_append.mp hc with hc | hc
    · exact Or.inl (hterm c hc)
    · refine Or.inr ⟨haction c hc, fun x hx => ?_⟩
      rw [flow, mem_append, mem_flowAll]
      exact Or.inr ⟨c, hc, hx⟩
  | _ => cases hn

/-! ## Owners -/

/-- A node that is met on the walk from a root with this function as the innermost one above it. -/
def Below (root fn n : Node) : Prop :=
  ∃ above, ⟨n, above⟩ ∈ root.walk ∧ enclosingFunction above = some fn

lemma Below.of_child (h : Below root fn n) (hn : n.isFunction = false) (hc : c ∈ n.children) :
    Below root fn c := by
  obtain ⟨above, hmem, hfn⟩ := h
  refine ⟨n :: above, Visit.mem_unfold_of_child hmem hc, ?_⟩
  rw [enclosingFunction, find?_cons_of_neg (by rw [hn]; exact Bool.false_ne_true)]
  exact hfn

/-- The parts of a function are below it. -/
lemma below_of_child {above : List Node} (hmem : ⟨fn, above⟩ ∈ root.walk)
    (hfn : fn.isFunction = true) (hc : c ∈ fn.children) : Below root fn c := by
  refine ⟨fn :: above, Visit.mem_unfold_of_child hmem hc, ?_⟩
  rw [enclosingFunction, find?_cons_of_pos hfn]

/-- The parts of a function are its name and its type, which are terms, and its body. -/
lemma flow_of_function_child (hfn : fn.isFunction = true) (hc : c ∈ fn.children) :
    c.isTerm = true ∨ c.isAction = true ∧ ∀ x ∈ c.flow, x ∈ fn.bodyFlow := by
  cases fn with
  | funcLit m type body =>
    rcases mem_cons.mp hc with rfl | hc
    · exact Or.inl rfl
    · rw [mem_singleton.mp hc]
      exact Or.inr ⟨rfl, fun x hx => hx⟩
  | funcDecl m name type body =>
    rcases mem_append.mp hc with hc | hc
    · rcases mem_cons.mp hc with rfl | hc
      · exact Or.inl rfl
      · rw [mem_singleton.mp hc]
        exact Or.inl rfl
    · obtain ⟨b, hb, rfl⟩ := mem_map.mp hc
      rw [Option.mem_toList.mp hb]
      exact Or.inr ⟨rfl, fun x hx => hx⟩
  | _ => cases hfn

/-- By the grammar, what belongs to a function is a term, or a statement whose flow nodes are flow
nodes of the function. -/
lemma Below.flow_subset (hroot : ∀ n ∈ root.preorder, n.isProper = true) (h : Below root fn n) :
    n.isTerm = true ∨ n.isAction = true ∧ ∀ x ∈ n.flow, x ∈ fn.bodyFlow := by
  obtain ⟨above, hmem, hfn⟩ := h
  have hchain := (mem_walk_iff.mp hmem).isChain
  have habove : ∀ a ∈ above, a ∈ root.preorder := fun a ha => above_mem_preorder hmem ha
  clear hmem
  -- from the function down to the node, one node above at a time
  induction above generalizing n with
  | nil => cases hfn
  | cons p above ih =>
    obtain ⟨hc, hchain⟩ := isChain_cons_cons.mp hchain
    cases hp : p.isFunction with
    | true =>
      rw [enclosingFunction, find?_cons_of_pos hp] at hfn
      cases hfn
      exact flow_of_function_child hp hc
    | false =>
      rw [enclosingFunction, find?_cons_of_neg (by rw [hp]; exact Bool.false_ne_true)] at hfn
      have hproper := hroot p (habove p mem_cons_self)
      rcases ih hfn hchain fun a ha => habove a (mem_cons_of_mem p ha) with hterm | ⟨haction, hsub⟩
      · exact Or.inl (isTerm_of_child hterm hproper hp hc)
      · rcases flow_of_child haction hproper hc with hterm | ⟨hc, hsub'⟩
        · exact Or.inl hterm
        · exact Or.inr ⟨hc, fun x hx => hsub x (hsub' x hx)⟩

end Node

end Recast
