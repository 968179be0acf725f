import Recast.Proofs.Flow.Contents
import Recast.Proofs.Flow.FlowNodes

/-!
# Where nodes are placed

The graph of a function holds every node of its control flow once.

**Flow nodes.**  The nodes of the control flow of a statement are read off the tree (`Node.flow`),
in the order of the walk: simple statements, conditions, operands and statements of `range`, tags
and guards.  A function inside an expression has a flow of its own.

**Placing.**  By the grammar the nodes that are placed are the flow nodes, in another order
(`Node.lowered_perm`).

**Functions.**  By the grammar the assignments in the flow of a function are those that a walk meets
below it with no other function between (`Graph.below_of_mem_contents`, `Node.Below.flow_subset`).

* `File.placed_once` — every flow node is in one block, and an assignment is in the graph of its
  function only.
-/

namespace Recast

open List hiding contains_iff

/-! ## Statements -/

/-- Everything in these trees follows the grammar. -/
def Proper (ns : List Node) : Prop := ∀ n ∈ preorderAll ns, n.isProper = true

lemma proper_append {ns ms : List Node} : Proper (ns ++ ms) ↔ Proper ns ∧ Proper ms := by
  simp only [Proper, preorderAll_append, forall_mem_append]

lemma proper_cons {n : Node} {ns : List Node} :
    Proper (n :: ns) ↔ (n.isProper = true ∧ Proper n.children) ∧ Proper ns := by
  rw [Proper, preorderAll_cons, forall_mem_append, forall_mem_cons]
  rfl

mutual

/-- The nodes of a statement that are placed are its flow nodes. -/
lemma Node.lowered_perm (n : Node) (h : Proper [n]) (hn : n.isStatement = true) :
    n.lowered.Perm n.flow := by
  obtain ⟨hself, hchildren⟩ := (proper_cons.mp h).1
  cases n with
  | assign | varSpec | exprStmt | incDec | ret | branch =>
    rw [Node.lowered, Node.flow]
    all_goals simp
  | block b =>
    obtain ⟨m, stmts⟩ := b
    rw [Node.lowered, Node.flow]
    exact loweredAll_perm stmts hchildren hself
  | ifStmt m init cond b orElse =>
    obtain ⟨bm, body⟩ := b
    simp only [Node.isProper, Node.children, Bool.and_eq_true, proper_append, proper_cons]
      at hself hchildren
    rw [Node.lowered, Node.flow, append_assoc, cons_append]
    exact (loweredOption_perm init hchildren.1.1 hself.1.1).append
      (.cons cond ((loweredAll_perm body hchildren.1.2.2.1.2 hchildren.1.2.2.1.1).append
        (loweredOption_perm orElse hchildren.2 hself.2)))
  | forStmt m init cond post b =>
    obtain ⟨bm, body⟩ := b
    simp only [Node.isProper, Node.children, Bool.and_eq_true, proper_append, proper_cons]
      at hself hchildren
    rw [Node.lowered, Node.flow, append_assoc, append_assoc]
    have hbody := loweredAll_perm body hchildren.2.1.2 hchildren.2.1.1
    have hpost := loweredOption_perm post hchildren.1.2 hself.2
    exact (loweredOption_perm init hchildren.1.1.1 hself.1.1).append
      (((hbody.append hpost).trans perm_append_comm).append_left _)
  | rangeStmt m key value op x b =>
    obtain ⟨bm, body⟩ := b
    simp only [Node.isProper, Node.children, Bool.and_eq_true, proper_append, proper_cons]
      at hself hchildren
    rw [Node.lowered, Node.flow]
    exact (Perm.swap _ _ _).trans
      (((loweredAll_perm body hchildren.2.2.1.2 hchildren.2.2.1.1).cons x).cons _)
  | switch m init tag clauses =>
    simp only [Node.isProper, Node.children, Bool.and_eq_true, proper_append] at hself hchildren
    rw [Node.lowered, Node.flow, append_assoc]
    exact (loweredOption_perm init hchildren.1.1 hself.1).append
      ((loweredClauses_perm clauses hchildren.2).append_left _)
  | _ => cases hn

lemma loweredAll_perm (stmts : List Node) (h : Proper stmts)
    (hstmts : stmts.all Node.isStatement = true) :
    (loweredAll stmts).Perm (flowAll stmts) := by
  cases stmts with
  | nil => rw [loweredAll, flowAll]
  | cons n ns =>
    obtain ⟨hn, hns⟩ := (Bool.and_eq_true _ _).mp hstmts
    rw [loweredAll, flowAll]
    rw [← singleton_append, proper_append] at h
    exact (n.lowered_perm h.1 hn).append (loweredAll_perm ns h.2 hns)

lemma loweredOption_perm (n : Option Node) (h : Proper n.toList)
    (hn : n.all Node.isStatement = true) :
    (loweredOption n).Perm (flowOption n) := by
  cases n with
  | none => rw [loweredOption, flowOption]
  | some n =>
    rw [loweredOption, flowOption]
    exact n.lowered_perm h hn

lemma loweredClauses_perm (clauses : List Clause) (h : Proper (clauses.map .clause)) :
    ((clauses.flatMap fun c => c.guards.getD []) ++ loweredClauses clauses).Perm
      (flowClauses clauses) := by
  cases clauses with
  | nil => rw [loweredClauses, flowClauses, flatMap_nil, nil_append]
  | cons c cs =>
    obtain ⟨m, guards, body⟩ := c
    simp only [map_cons, proper_cons, Node.isProper, Node.children, Bool.and_eq_true, proper_append]
      at h
    rw [loweredClauses, flowClauses, flatMap_cons, append_assoc, append_assoc]
    have hbody := loweredAll_perm body h.1.2.2 h.1.1.2
    have hclauses := loweredClauses_perm cs h.2
    exact ((perm_append_comm_assoc _ _ _).trans (hbody.append hclauses)).append_left _

end

/-! ## Functions -/

namespace Flow

namespace Graph

variable {root fn : Node}

/-- The graph of a function holds the flow nodes of the function. -/
lemma contents_perm_bodyFlow (hroot : ∀ n ∈ root.preorder, n.isProper = true)
    (hfn : fn ∈ root.preorder) :
    (ofFunction fn).1.contents.Perm fn.bodyFlow := by
  refine (contents_ofFunction fn).trans ?_
  rw [Node.bodyLowered, Node.bodyFlow]
  cases hbody : fn.functionBody with
  | none => exact .refl _
  | some b =>
    obtain ⟨m, stmts⟩ := b
    have hblock := Node.mem_preorder_of_child hfn (block_mem_children hbody)
    rw [Node.preorder_eq] at hroot hblock
    have hproper : Proper [.block (.mk m stmts)] := fun n hn =>
      hroot n ((sublist_preorderAll hblock).subset (preorderAll_singleton _ ▸ hn))
    have hperm := Node.lowered_perm _ hproper rfl
    rw [Node.lowered] at hperm
    exact hperm

/-- What is in the graph of a function belongs to the function. -/
lemma below_of_mem_contents (hfn : fn ∈ root.functions) {n : Node}
    (hn : n ∈ (ofFunction fn).1.contents) :
    Node.Below root fn n := by
  obtain ⟨hmem, hfun⟩ := mem_filter.mp hfn
  obtain ⟨⟨_, above⟩, hvisit, rfl⟩ := mem_map.mp (root.preorder_eq_map_walk ▸ hmem)
  exact allNodes_ofFunction (fun _ hn h _ hc => h.of_child hn hc)
    (fun b hb => Node.below_of_child hvisit hfun (block_mem_children hb)) n hn

/-- The flow nodes of a function of a tree with distinct nodes are distinct. -/
lemma nodup_bodyFlow (hdistinct : (root.preorder.map Node.id).Nodup) (hfn : fn ∈ root.preorder) :
    (fn.bodyFlow.map Node.id).Nodup := by
  rw [Node.bodyFlow]
  cases hbody : fn.functionBody with
  | none => exact nodup_nil
  | some b =>
    have hblock := Node.mem_preorder_of_child hfn (block_mem_children hbody)
    rw [Node.preorder_eq] at hblock hdistinct
    have hsub := sublist_preorderAll hblock
    rw [← preorderAll_singleton] at hsub
    exact (((Node.flow_sublist _).trans hsub).map Node.id).nodup hdistinct

/-- If no number is twice in a graph, then no number is in two blocks. -/
lemma block_unique {g : Graph} (hnodup : (g.contents.map Node.id).Nodup) {b b' id : Nat}
    (hb : (g.block b).contains id = true) (hb' : (g.block b').contains id = true) : b = b' := by
  have hlt : ∀ {b}, (g.block b).contains id = true → b < g.blocks.length := by
    intro b hb
    by_contra h
    rw [block, getD_eq_default _ _ (Nat.not_lt.mp h)] at hb
    cases hb
  have hids : ∀ {b}, (hb : (g.block b).contains id = true) →
      id ∈ (g.blocks.get ⟨b, hlt hb⟩).nodes.map Node.id := by
    intro b hb
    have hblock : g.block b = g.blocks.get ⟨b, hlt hb⟩ := getD_eq_getElem _ _ _
    obtain ⟨n, hn, hid⟩ := any_eq_true.mp hb
    exact mem_map.mpr ⟨n, hblock ▸ hn, beq_iff_eq.mp hid⟩
  rw [contents, map_flatMap, nodup_flatMap, pairwise_iff_getElem] at hnodup
  rcases Nat.lt_trichotomy b b' with h | h | h
  · exact (hnodup.2 b b' (hlt hb) (hlt hb') h (hids hb) (hids hb')).elim
  · exact h
  · exact (hnodup.2 b' b (hlt hb') (hlt hb) h (hids hb') (hids hb)).elim

/-- A block holds a number if it holds the node with that number. -/
lemma contains_iff {g : Graph} {b id : Nat} :
    (g.block b).contains id = true ↔ ∃ n ∈ (g.block b).nodes, n.id = id := by
  rw [BasicBlock.contains, any_eq_true]
  simp only [beq_iff_eq]

end Graph

end Flow

open Recast.Flow

/-- **Every node of control flow is placed once, in the right graph.**  In a tree that follows the
grammar and whose nodes are distinct, the blocks of the graph of a function hold its flow nodes,
each of them once.  An assignment inside a function is in one block of one graph, which is the graph
of the innermost function around it. -/
theorem File.placed_once (f : File) (hgrammar : f.Grammatical)
    (hdistinct : (f.node.preorder.map Node.id).Nodup) :
    (∀ fn ∈ f.node.functions, (Graph.ofFunction fn).1.contents.Perm fn.bodyFlow ∧
      ((Graph.ofFunction fn).1.contents.map Node.id).Nodup) ∧
    ∀ m targets op values above fn, ⟨.assign m targets op values, above⟩ ∈ f.node.walk →
      Node.enclosingFunction above = some fn → fn ∈ f.node.functions ∧
      ∃ b, ∀ fn' ∈ f.node.functions, ∀ b',
        ((Graph.ofFunction fn').1.block b').contains m.id = true ↔ fn' = fn ∧ b' = b := by
  have hplaced : ∀ fn ∈ f.node.functions, (Graph.ofFunction fn).1.contents.Perm fn.bodyFlow :=
    fun fn hfn => Graph.contents_perm_bodyFlow hgrammar (List.mem_filter.mp hfn).1
  have hnodup : ∀ fn ∈ f.node.functions,
    ((Graph.ofFunction fn).1.contents.map Node.id).Nodup := fun fn hfn =>
    ((hplaced fn hfn).map Node.id).nodup_iff.mpr
      (Graph.nodup_bodyFlow hdistinct (List.mem_filter.mp hfn).1)
  refine ⟨fun fn hfn => ⟨hplaced fn hfn, hnodup fn hfn⟩, ?_⟩
  intro m targets op values above fn hvisit hfn
  have hfunctions : fn ∈ f.node.functions :=
    List.mem_filter.mpr
      ⟨Node.above_mem_preorder hvisit (List.mem_of_find?_eq_some hfn), List.find?_some hfn⟩
  -- an assignment is no term, so it is in the flow of its function
  have hflow : Node.assign m targets op values ∈ fn.bodyFlow := by
    have hbelow : Node.Below f.node fn (.assign m targets op values) := ⟨above, hvisit, hfn⟩
    rcases hbelow.flow_subset hgrammar with hterm | ⟨-, hsub⟩
    · cases hterm
    · exact hsub _ (by rw [Node.flow]; exact List.mem_singleton_self _)
  obtain ⟨b, hb⟩ := Graph.mem_contents.mp ((hplaced fn hfunctions).mem_iff.mpr hflow)
  have hcontains : ((Graph.ofFunction fn).1.block b).contains m.id = true :=
    Graph.contains_iff.mpr ⟨_, hb, rfl⟩
  refine ⟨hfunctions, b, fun fn' hfn' b' => ⟨fun h => ?_, ?_⟩⟩
  · -- what is in the graph of a function has that function above it, and a node is met once
    obtain ⟨n, hn, hid⟩ := Graph.contains_iff.mp h
    obtain ⟨above', hvisit', henclosing⟩ :=
      Graph.below_of_mem_contents hfn' (Graph.mem_contents.mpr ⟨b', hn⟩)
    obtain ⟨-, rfl⟩ := Visit.mk.inj (Visit.eq_of_id_eq hdistinct hvisit' hvisit hid)
    obtain rfl : fn' = fn := Option.some.inj (henclosing.symm.trans hfn)
    exact ⟨rfl, Graph.block_unique (hnodup fn' hfn') h hcontains⟩
  · rintro ⟨rfl, rfl⟩
    exact hcontains

/-! ## A sample

A function with a function inside it, and with a statement that is never reached:

    f = func() { x = 1 }
    return
    y = 2
-/

namespace Nested

def file : File where
  mark := {}
  package := ⟨{}, "main"⟩
  imports := []
  decls := [.funcDecl {} ⟨{}, "g"⟩ (.mk {} [] []) (some (.mk {} [
    .assign {} [.ident ⟨{}, "f"⟩] "=" [.funcLit {} (.mk {} [] []) (.mk {} [
      .assign {} [.ident ⟨{}, "x"⟩] "=" [.literal {} .int "1"]])],
    .ret {} [],
    .assign {} [.ident ⟨{}, "y"⟩] "=" [.literal {} .int "2"]]))]

def outer : Node := file.numbered.decls.getD 0 default

def outerBody : Block := outer.functionBody.getD default

def defining : Node := outerBody.stmts.getD 0 default

def inner : Node := defining.children.getD 1 default

def innerBody : Block := inner.functionBody.getD default

/-- The assignment in the inner function is met with these nodes above it. -/
lemma visit_mem_walk :
    ⟨innerBody.stmts.getD 0 default, [.block innerBody, inner, defining, .block outerBody, outer,
    file.numbered.node]⟩ ∈ file.numbered.node.walk := by
  have hroot : ⟨file.numbered.node, []⟩ ∈ file.numbered.node.walk :=
    Visit.mem_unfold_of_mem mem_cons_self
  have houter := Visit.mem_unfold_of_child hroot (show outer ∈ _ from .tail _ (.head _))
  have hbody :=
    Visit.mem_unfold_of_child houter
      (show Node.block outerBody ∈ _ from .tail _ (.tail _ (.head _)))
  have hdefining := Visit.mem_unfold_of_child hbody (show defining ∈ _ from .head _)
  have hinner := Visit.mem_unfold_of_child hdefining (show inner ∈ _ from .tail _ (.head _))
  have hinnerBody :=
    Visit.mem_unfold_of_child hinner (show Node.block innerBody ∈ _ from .tail _ (.head _))
  exact Visit.mem_unfold_of_child hinnerBody (.head _)

end Nested

/-- The assignment in the inner function of the sample is in the graph of that function and in no
other. -/
theorem File.placed_once_nested : Nested.file.numbered.Grammatical ∧
    (Nested.file.numbered.node.preorder.map Node.id).Nodup ∧
    ∃ b, ∀ fn ∈ Nested.file.numbered.node.functions, ∀ b',
      ((Graph.ofFunction fn).1.block b').contains 11 = true ↔ fn = Nested.inner ∧ b' = b := by
  have hgrammar : Nested.file.numbered.Grammatical := List.all_eq_true.mp (by decide +kernel)
  have hdistinct := Nested.file.nodup_map_id_preorder
  exact ⟨hgrammar, hdistinct,
    ((placed_once _ hgrammar hdistinct).2 _ _ _ _ _ _ Nested.visit_mem_walk rfl).2⟩

end Recast
