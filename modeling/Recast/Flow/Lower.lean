import Recast.Flow.Graph
import Recast.Log

/-!
# From statements to control flow

The graph of a function is made in one pass over its body.  Simple statements go to the *current*
block, and every structured statement cuts it:

* an `if` into then, else and done blocks;
* a `for` into loop, body, post and done blocks;
* a `range` into loop, body and done blocks, where the statement itself stands in the loop block
  because it gives the key and the value their next contents;
* a `switch` into one block for each clause and a done block, where all guards are evaluated before.

After a statement that never ends normally a new block begins that no edge leads to.  Where `break`
and `continue` go is an argument of the pass, one `Exit` for each loop or switch around, innermost
first.

`Graph.ofFunction` is the graph of a function with what there was to say about it.
-/

namespace Recast.Flow

/-- Where `break` and `continue` go inside a loop or a switch.  A switch leaves `continue` to what
is around it. -/
structure Exit where
  breakTo : Nat
  continueTo : Option Nat

/-- A graph in the making. -/
structure Lowering where
  graph : Graph
  /-- The block to which the next node goes. -/
  current : Nat := 0
  log : Log := []

/-- A step in the making of a graph. -/
abbrev Lower := StateM Lowering

namespace Lower

/-- Adds a node to the current block. -/
def place (n : Node) : Lower Unit := modify fun s => { s with graph := s.graph.addNode s.current n }

/-- Adds a block and returns its position. -/
def newBlock (kind : BlockKind) : Lower Nat := modifyGet fun s =>
  (s.graph.blocks.length, { s with graph := s.graph.addBlock kind })

/-- Adds an edge. -/
def connect (source target : Nat) (kind : EdgeKind) : Lower Unit := modify fun s =>
  { s with graph := s.graph.addEdge ⟨source, target, kind⟩ }

/-- Makes a block the current one. -/
def moveTo (b : Nat) : Lower Unit := modify fun s => { s with current := b }

/-- The current block. -/
def here : Lower Nat := return (← get).current

/-- Adds an edge out of the current block. -/
def jump (target : Nat) (kind : EdgeKind) : Lower Unit := do connect (← here) target kind

/-- Goes on in a block that no edge leads to. -/
def cutOff : Lower Unit := do moveTo (← newBlock .unreachable)

/-- Where `break` goes. -/
def breakTarget? : List Exit → Option Nat
  | [] => none
  | e :: _ => some e.breakTo

/-- Where `continue` goes: to the next round of the innermost loop. -/
def continueTarget? (exits : List Exit) : Option Nat := exits.findSome? Exit.continueTo

/-- Leaves the current block by `break` or, with any other word, by `continue`. -/
def leave (exits : List Exit) (word : String) : Lower Unit := do
  let (target, kind) :=
    if word == "break" then (breakTarget? exits, EdgeKind.breakOut)
    else (continueTarget? exits, EdgeKind.continueOn)
  match target with
  | some b => jump b kind
  | none => modify fun s =>
    { s with
      log := s.log ++
        [{ channel := .flow, text := word ++ " outside loop/switch in " ++ s.graph.name }] }
  cutOff

/-- Adds nodes to the current block, from left to right. -/
def placeAll : List Node → Lower Unit
  | [] => return
  | n :: ns => do place n; placeAll ns

mutual

/-- Lowers one statement. -/
def stmt (exits : List Exit) : Node → Lower Unit
  | .block (.mk _ stmts) => stmtList exits stmts
  | .ret m results => do place (.ret m results); cutOff
  | .branch _ word => leave exits word
  | .ifStmt _ init cond (.mk _ body) orElse => do
    stmtOption exits init
    place cond
    let before ← here
    let thenBlock ← newBlock .ifThen
    match orElse with
    | none =>
      let done ← newBlock .ifDone
      connect before thenBlock .branchTrue
      connect before done .branchFalse
      moveTo thenBlock
      stmtList exits body
      jump done .fallThrough
      moveTo done
    | some orElse =>
      let elseBlock ← newBlock .ifElse
      let done ← newBlock .ifDone
      connect before thenBlock .branchTrue
      connect before elseBlock .branchFalse
      moveTo thenBlock
      stmtList exits body
      jump done .fallThrough
      moveTo elseBlock
      stmt exits orElse
      jump done .fallThrough
      moveTo done
  | .forStmt _ init cond post (.mk _ body) => do
    stmtOption exits init
    let loop ← newBlock .forLoop
    jump loop .fallThrough
    moveTo loop
    let bodyBlock ← newBlock .forBody
    let done ← newBlock .forDone
    match post with
    | none =>
      enter loop bodyBlock done cond
      moveTo bodyBlock
      stmtList (⟨done, some loop⟩ :: exits) body
      jump loop .backEdge
    | some post =>
      let postBlock ← newBlock .forPost
      enter loop bodyBlock done cond
      moveTo bodyBlock
      stmtList (⟨done, some postBlock⟩ :: exits) body
      jump postBlock .fallThrough
      moveTo postBlock
      stmt exits post
      jump loop .backEdge
    moveTo done
  | .rangeStmt m key value op x (.mk bm body) => do
    place x
    let loop ← newBlock .rangeLoop
    jump loop .fallThrough
    moveTo loop
    place (.rangeStmt m key value op x (.mk bm body))
    let bodyBlock ← newBlock .rangeBody
    let done ← newBlock .rangeDone
    connect loop bodyBlock .branchTrue
    connect loop done .branchFalse
    moveTo bodyBlock
    stmtList (⟨done, some loop⟩ :: exits) body
    jump loop .backEdge
    moveTo done
  | .switch _ init tag clauses => do
    stmtOption exits init
    placeAll tag.toList
    placeAll (clauses.flatMap fun c => c.guards.getD [])
    let before ← here
    let done ← newBlock .switchDone
    clauseList (⟨done, none⟩ :: exits) before done clauses
    if !clauses.any Clause.isDefault then connect before done .switchDefault
    moveTo done
  | n => place n
where
  /-- Goes from the head of a loop to its body and, if there is a condition, out of the loop. -/
  enter (loop body done : Nat) (cond : Option Node) : Lower Unit :=
    match cond with
    | none => connect loop body .fallThrough
    | some cond => do
      place cond
      connect loop body .branchTrue
      connect loop done .branchFalse

/-- Lowers statements one after the other. -/
def stmtList (exits : List Exit) : List Node → Lower Unit
  | [] => return
  | n :: ns => do stmt exits n; stmtList exits ns

/-- Lowers a statement that may be missing. -/
def stmtOption (exits : List Exit) : Option Node → Lower Unit
  | none => return
  | some n => stmt exits n

/-- Lowers the clauses of a switch that is decided at the end of the block `before`. -/
def clauseList (exits : List Exit) (before done : Nat) : List Clause → Lower Unit
  | [] => return
  | .mk _ guards body :: cs => do
    let bodyBlock ← newBlock .switchBody
    connect before bodyBlock (if guards.isNone then .switchDefault else .switchCase)
    moveTo bodyBlock
    stmtList exits body
    jump done .fallThrough
    clauseList exits before done cs

end

/-- Lowers the body of a function. -/
def body : Option Block → Lower Unit
  | none => return
  | some (.mk _ stmts) => stmtList [] stmts

end Lower

/-- The graph of a function, and what there was to say about it.  A function without a body has an
empty entry block and nothing else. -/
def Graph.ofFunction (fn : Node) : Graph × Log :=
  let start : Lowering := { graph := ({ function := some fn } : Graph).addBlock .entry }
  let ((), s) := (Lower.body fn.functionBody).run start
  (s.graph, s.log)

end Recast.Flow
