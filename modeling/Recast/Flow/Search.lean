import Recast.Flow.Fresh
import Recast.Flow.Graph

/-!
# Paths through a graph

A depth-first search for the way on which control reaches a node.  Successors are tried in the order
of their edges, and no block is visited twice.

**What is left.**  The search carries the blocks it has not visited yet, the *fresh* ones.  A visit
takes a block out of them, so the search ends, and an edge to a block that does not exist leads
nowhere.

**Budget.**  Every visit costs one unit.  A visit that cannot be paid for ends the search without an
answer, which is not the same as the answer that there is no way.

* `Graph.search` — the outcome of a search within a budget.
* `Graph.pathTo?` — the nodes on the way to a node, that node last.
* `Graph.reachable` — all blocks that control can reach from a block.
-/

namespace Recast.Flow

/-- The budget of a search for which none is given. -/
def defaultBudget : Int := 1000

/-- A block on the way that the search is on. -/
structure Frame where
  /-- The nodes of the block. -/
  nodes : List Node
  /-- The successors that have not been tried. -/
  next : List Nat

/-- How a search ends. -/
inductive Outcome where
  /-- At the node, by a way with these nodes on it. -/
  | found (path : List Node)
  /-- With every block tried that can be reached. -/
  | unreachable
  /-- With a block to visit and no budget left. -/
  | exhausted

/-- How many steps the frames of a stack have left: one for each successor, and one to leave. -/
def stepsLeft : List Frame → Nat
  | [] => 0
  | f :: fs => f.next.length + 1 + stepsLeft fs

/-- Goes on with a search, given the block at each position and its successors.  The stack holds the
blocks of the way so far, the last one on top. -/
def searchFrom (block : Nat → BasicBlock) (successors : Nat → List Nat) (id : Nat)
    (fresh : Fresh) (budget : Int) (stack : List Frame) : Outcome :=
  match stack with
  | [] => .unreachable
  | ⟨_, []⟩ :: below => searchFrom block successors id fresh budget below
  | ⟨nodes, b :: next⟩ :: below =>
    if fresh.has b then
      if budget ≤ 0 then .exhausted
      else
        match (block b).until? id with
        | some last => .found ((⟨nodes, next⟩ :: below).reverse.flatMap Frame.nodes ++ last)
        | none =>
          searchFrom block successors id (fresh.visit b) (budget - 1)
            (⟨(block b).nodes, successors b⟩ :: ⟨nodes, next⟩ :: below)
    else searchFrom block successors id fresh budget (⟨nodes, next⟩ :: below)
termination_by (fresh.count, stepsLeft stack)
decreasing_by
  · exact Prod.Lex.right _ (by simp only [stepsLeft]; omega)
  · exact Prod.Lex.left _ _ (Fresh.count_visit_lt (by assumption))
  · exact Prod.Lex.right _ (by simp only [stepsLeft, List.length_cons]; omega)

namespace Graph

/-- The successors of every block, found in one pass over the edges. -/
def successorTable (g : Graph) : Array (List Nat) :=
  g.edges.foldr (fun e t => t.modify e.source (e.target :: ·)) (Array.replicate g.blocks.length [])

/-- The table has the successors of a block at its position. -/
theorem getElem?_successorTable (g : Graph) (b : Nat) :
    g.successorTable[b]? = if b < g.blocks.length then some (g.successors b) else none := by
  rw [successorTable, successors, edgesOutOf]
  induction g.edges with
  | nil => rw [List.foldr_nil, Array.getElem?_replicate]; rfl
  | cons e es ih =>
    rw [List.foldr_cons, Array.getElem?_modify, ih]
    by_cases h : e.source = b
    · rw [if_pos h, List.filter_cons_of_pos (by rw [h]; exact beq_self_eq_true b)]
      by_cases hb : b < g.blocks.length
      · rw [if_pos hb, if_pos hb]; rfl
      · rw [if_neg hb, if_neg hb]; rfl
    · rw [if_neg h, List.filter_cons_of_neg (by rw [beq_iff_eq]; exact h)]

/-- Searches for the node with this number from the entry.  Blocks and successors are looked up in
arrays. -/
def search (g : Graph) (id : Nat) (budget : Int) : Outcome :=
  let blocks := g.blocks.toArray
  let table := g.successorTable
  searchFrom (fun b => blocks.getD b {}) (fun b => table[b]?.getD (g.successors b)) id
    (.all g.blocks.length) budget [⟨[], [0]⟩]

/-- The search goes by the blocks of the graph and their successors. -/
theorem search_eq (g : Graph) (id : Nat) (budget : Int) :
    g.search id budget =
      searchFrom g.block g.successors id (.all g.blocks.length) budget [⟨[], [0]⟩] := by
  have hblock : (fun b => g.blocks.toArray.getD b {}) = g.block := by
    funext b
    rw [block, Array.getD_eq_getD_getElem?, List.getElem?_toArray, List.getD_eq_getElem?_getD]
  have hnext : (fun b => g.successorTable[b]?.getD (g.successors b)) = g.successors := by
    funext b
    rw [getElem?_successorTable]
    by_cases hb : b < g.blocks.length
    · rw [if_pos hb]; rfl
    · rw [if_neg hb]; rfl
  rw [search, hblock, hnext]

/-- The nodes on the way from the entry to the node with this number, if the search finds one. -/
def pathTo? (g : Graph) (id : Nat) (budget : Int) : Option (List Node) :=
  match g.search id budget with
  | .found path => some path
  | _ => none

/-- The fresh blocks that remain when everything that can be reached from the given blocks is taken
out. -/
def unreached (g : Graph) (fresh : Fresh) (work : List Nat) : Fresh :=
  match work with
  | [] => fresh
  | b :: work =>
    if fresh.has b then g.unreached (fresh.visit b) (g.successors b ++ work)
    else g.unreached fresh work
termination_by (fresh.count, work.length)
decreasing_by
  · exact Prod.Lex.left _ _ (Fresh.count_visit_lt (by assumption))
  · exact Prod.Lex.right _ (by simp only [List.length_cons]; omega)

/-- The blocks that control can reach from a block, in their order in the graph. -/
def reachable (g : Graph) (start : Nat) : List Nat :=
  let left := g.unreached (.all g.blocks.length) [start]
  (List.range g.blocks.length).filter fun b => !left.has b

end Graph

end Recast.Flow
