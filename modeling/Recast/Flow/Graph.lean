import Recast.Syntax.Node

/-!
# Control-flow graphs

The graph of one function.  Its *blocks* hold the simple statements and the conditions that run in
sequence, and its *edges* say where control may go at the end of a block.  A block is known by its
position in the list of blocks, and the first one is the entry.  Loops make the graph cyclic.

Edges are kept twice, in one list and at the two blocks that they join.  Control is followed along
the one list, and a block says itself where it stands and which edges are at it.

* `Graph.addBlock`, `Graph.addEdge`, `Graph.addNode` — the only ways a graph grows.
* `Graph.edgesOutOf`, `Graph.edgesInto` — the edges out of and into a block, in the order in which
  they came.
* `BasicBlock.until?` — the part of a block that runs up to a node.
-/

namespace Recast.Flow

/-- Why a block begins where it does. -/
inductive BlockKind where
  | entry
  | ifThen
  | ifElse
  | ifDone
  | forLoop
  | forBody
  | forPost
  | forDone
  | rangeLoop
  | rangeBody
  | rangeDone
  | switchBody
  | switchDone
  | unreachable
  deriving Repr, DecidableEq, Inhabited

namespace BlockKind

def all : List BlockKind :=
  [.entry, .ifThen, .ifElse, .ifDone, .forLoop, .forBody, .forPost, .forDone, .rangeLoop,
    .rangeBody, .rangeDone, .switchBody, .switchDone, .unreachable]

/-- The name of a kind of block. -/
def name : BlockKind → String
  | .entry => "entry"
  | .ifThen => "if.then"
  | .ifElse => "if.else"
  | .ifDone => "if.done"
  | .forLoop => "for.loop"
  | .forBody => "for.body"
  | .forPost => "for.post"
  | .forDone => "for.done"
  | .rangeLoop => "range.loop"
  | .rangeBody => "range.body"
  | .rangeDone => "range.done"
  | .switchBody => "switch.body"
  | .switchDone => "switch.done"
  | .unreachable => "unreachable"

/-- The kind of block with this name. -/
def ofName? (s : String) : Option BlockKind := all.find? (·.name == s)

end BlockKind

/-- Why control may go along an edge. -/
inductive EdgeKind where
  | fallThrough
  | branchTrue
  | branchFalse
  | backEdge
  | breakOut
  | continueOn
  | switchCase
  | switchDefault
  deriving Repr, DecidableEq, Inhabited

namespace EdgeKind

def all : List EdgeKind :=
  [.fallThrough, .branchTrue, .branchFalse, .backEdge, .breakOut, .continueOn,
    .switchCase, .switchDefault]

/-- The name of a kind of edge. -/
def name : EdgeKind → String
  | .fallThrough => "fall-through"
  | .branchTrue => "branch-true"
  | .branchFalse => "branch-false"
  | .backEdge => "back-edge"
  | .breakOut => "break"
  | .continueOn => "continue"
  | .switchCase => "switch-case"
  | .switchDefault => "switch-default"

/-- The kind of edge with this name. -/
def ofName? (s : String) : Option EdgeKind := all.find? (·.name == s)

end EdgeKind

/-- A way that control may go, from the end of one block to the start of another. -/
structure Edge where
  source : Nat
  target : Nat
  kind : EdgeKind := .fallThrough
  deriving Repr, DecidableEq, Inhabited

/-- A stretch of nodes that run one after the other. -/
structure BasicBlock where
  kind : BlockKind := .entry
  nodes : List Node := []
  /-- The position of the block in its graph. -/
  index : Nat := 0
  /-- The edges out of the block, in the order in which they came. -/
  successors : List Edge := []
  /-- The edges into the block. -/
  predecessors : List Edge := []
  deriving Inhabited

/-- The control flow of one function. -/
structure Graph where
  function : Option Node := none
  blocks : List BasicBlock := []
  edges : List Edge := []
  deriving Inhabited

/-- The nodes up to and including the first one with this number. -/
def nodesUntil? (id : Nat) : List Node → Option (List Node)
  | [] => none
  | n :: ns => if n.id = id then some [n] else (nodesUntil? id ns).map (n :: ·)

namespace BasicBlock

/-- Whether a block holds the node with this number. -/
def contains (b : BasicBlock) (id : Nat) : Bool := b.nodes.any (·.id == id)

/-- The nodes of a block up to and including the node with this number, if it is there. -/
def until? (b : BasicBlock) (id : Nat) : Option (List Node) := nodesUntil? id b.nodes

end BasicBlock

namespace Graph

/-! ## Growing a graph -/

/-- Adds an empty block, which comes last. -/
def addBlock (g : Graph) (kind : BlockKind) : Graph :=
  { g with blocks := g.blocks ++ [{ kind := kind, index := g.blocks.length }] }

/-- Adds an edge, which comes last, also at the two blocks that it joins. -/
def addEdge (g : Graph) (e : Edge) : Graph where
  function := g.function
  blocks :=
    (g.blocks.modify e.source fun b => { b with successors := b.successors ++ [e] }).modify e.target
    fun b => { b with predecessors := b.predecessors ++ [e] }
  edges := g.edges ++ [e]

/-- Adds a node at the end of a block. -/
def addNode (g : Graph) (b : Nat) (n : Node) : Graph :=
  { g with blocks := g.blocks.modify b fun x => { x with nodes := x.nodes ++ [n] } }

@[simp] theorem edges_addBlock (g : Graph) (kind : BlockKind) : (g.addBlock kind).edges = g.edges :=
  rfl

@[simp] theorem edges_addNode (g : Graph) (b : Nat) (n : Node) : (g.addNode b n).edges = g.edges :=
  rfl

@[simp] theorem length_blocks_addBlock (g : Graph) (kind : BlockKind) :
    (g.addBlock kind).blocks.length = g.blocks.length + 1 := by
  rw [addBlock, List.length_append, List.length_singleton]

@[simp] theorem length_blocks_addNode (g : Graph) (b : Nat) (n : Node) :
    (g.addNode b n).blocks.length = g.blocks.length := by
  rw [addNode, List.length_modify]

@[simp] theorem length_blocks_addEdge (g : Graph) (e : Edge) :
    (g.addEdge e).blocks.length = g.blocks.length := by
  rw [addEdge, List.length_modify, List.length_modify]

/-! ## Looking at a graph -/

/-- The block at a position. -/
def block (g : Graph) (b : Nat) : BasicBlock := g.blocks.getD b {}

/-- The edges out of a block. -/
def edgesOutOf (g : Graph) (b : Nat) : List Edge := g.edges.filter (·.source == b)

/-- The edges into a block. -/
def edgesInto (g : Graph) (b : Nat) : List Edge := g.edges.filter (·.target == b)

/-- The blocks to which control may go from a block, one for each edge. -/
def successors (g : Graph) (b : Nat) : List Nat := (g.edgesOutOf b).map Edge.target

/-- A new edge comes after the others that leave its source, and no other block gets a successor. -/
theorem successors_addEdge (g : Graph) (e : Edge) (b : Nat) :
    (g.addEdge e).successors b = g.successors b ++ if e.source = b then [e.target] else [] := by
  rw [successors, edgesOutOf, addEdge, List.filter_append, List.map_append]
  by_cases h : e.source = b
  · rw [if_pos h, List.filter_cons_of_pos (by rw [h]; exact beq_self_eq_true b)]
    rfl
  · rw [if_neg h, List.filter_cons_of_neg (by rw [beq_iff_eq]; exact h)]
    rfl

/-- The edges that close loops. -/
def backEdges (g : Graph) : List Edge := g.edges.filter (·.kind == .backEdge)

/-- The first block that holds the node with this number. -/
def blockOf? (g : Graph) (id : Nat) : Option Nat := g.blocks.findIdx? (·.contains id)

/-- What the function of a graph is called in messages. -/
def name (g : Graph) : String :=
  match g.function with
  | some (.funcDecl _ name _ _) => name.name
  | some (.funcLit m _ _) => "func literal at " ++ m.loc.shown
  | _ => "<unknown>"

end Graph

end Recast.Flow
