import Recast.Flow.Graph
import Recast.Syntax.Spelling

/-!
# Graphs as text

A graph can be written as a listing with one line for each block, or in the DOT language for a
drawing.  Both show at most `labelLimit` nodes of a block.
-/

namespace Recast.Flow

/-- How many nodes of a block its label shows. -/
def labelLimit : Nat := 4

namespace BasicBlock

/-- The nodes of a block on one line; the kind, if there are none. -/
def label (b : BasicBlock) : String :=
  if b.nodes.isEmpty then "[" ++ b.kind.name ++ "]"
  else
    let first := "; ".intercalate ((b.nodes.take labelLimit).map Node.label)
    if labelLimit < b.nodes.length then first ++ "; …" else first

/-- A block as messages show it. -/
def shown (b : BasicBlock) : String :=
  "Block(index=" ++ toString b.index ++ ", kind=" ++ Text.quote b.kind.name ++ ", nnodes="
    ++ toString b.nodes.length ++ ")"

end BasicBlock

/-- The name of the block at a position. -/
def blockName (b : Nat) : String := "BB" ++ toString b

/-- An edge as messages show it. -/
def Edge.shown (e : Edge) : String :=
  "CFGEdge(" ++ blockName e.source ++ " -> " ++ blockName e.target ++ ", kind=" ++
    Text.quote e.kind.name ++ ")"

namespace Graph

/-- A graph as messages show it. -/
def shown (g : Graph) : String :=
  "CFG(function=" ++ Text.quote g.name ++ ", blocks=" ++ toString g.blocks.length ++ ", edges="
    ++ toString g.edges.length ++ ")"

/-- One line of the listing. -/
def listingLine (b : BasicBlock) : String :=
  let out := b.successors.map fun e => blockName e.target ++ "(" ++ e.kind.name ++ ")"
  "  " ++ blockName b.index ++ " [" ++ b.kind.name ++ "] " ++ b.label ++ "  succ=[" ++
    commaSeparated out ++ "]"

/-- A graph as a listing, one line for each block. -/
def listing (g : Graph) : String :=
  "\n".intercalate (g.shown :: g.blocks.map listingLine)

/-! ## DOT -/

/-- One character of a quoted label. -/
def dotChar : Char → String
  | '"' => "\\\""
  | '\n' => "\\n"
  | c => c.toString

/-- A text inside the quotes of a label. -/
def dotText (s : String) : String := String.join (s.toList.map dotChar)

/-- How blocks of a kind are filled. -/
def dotFill : BlockKind → String
  | .entry => ", style=filled, fillcolor=\"#ccffcc\""
  | .unreachable => ", style=filled, fillcolor=\"#dddddd\""
  | _ => ""

/-- How edges of a kind are drawn. -/
def dotStroke : EdgeKind → String
  | .branchTrue => ", color=green, fontcolor=green"
  | .branchFalse => ", color=red, fontcolor=red"
  | .backEdge => ", style=dashed, color=blue, fontcolor=blue"
  | .breakOut => ", style=dotted"
  | .continueOn => ", style=dotted"
  | _ => ""

/-- The line that draws a block. -/
def dotBlock (b : BasicBlock) : String :=
  let name := blockName b.index
  "  " ++ name ++ " [label=\"" ++ name ++ " " ++ b.kind.name ++ "\\n" ++ dotText b.label ++ "\""
    ++ dotFill b.kind ++ "];"

/-- The line that draws an edge. -/
def dotEdge (e : Edge) : String :=
  "  " ++ blockName e.source ++ " -> " ++ blockName e.target ++ " [label=\"" ++ e.kind.name ++ "\""
    ++ dotStroke e.kind ++ "];"

/-- A graph in the DOT language, under a title unless that is empty. -/
def dot (g : Graph) (title : String) : String :=
  "\n".intercalate (["digraph CFG \x7b"]
    ++ (if title.isEmpty then [] else ["  label=\"" ++ title ++ "\";"])
    ++ ["  node [shape=box, fontname=monospace, fontsize=10];"]
    ++ g.blocks.map dotBlock
    ++ g.edges.map dotEdge
    ++ ["\x7d"])

end Graph

end Recast.Flow
