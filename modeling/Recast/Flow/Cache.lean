import Recast.Flow.Lower
import Recast.Table

/-!
# A store of graphs

The graphs of the functions of one unit.  A graph that was supplied from outside is used as it is;
any other is made when it is first asked for and kept.  Functions are known by the numbers of their
nodes.
-/

namespace Recast.Flow

/-- Graphs by function. -/
structure Cache where
  graphs : Table Nat Graph := {}
  /-- How many of the graphs were made here. -/
  built : Nat := 0
  deriving Inhabited

namespace Cache

/-- Whether a function has its graph in the store. -/
def contains (c : Cache) (fn : Node) : Bool := c.graphs.contains fn.id

/-- The number of graphs in the store. -/
def size (c : Cache) : Nat := c.graphs.size

/-- The graph of a function, with the store and what there was to say when it had to be made. -/
def get (c : Cache) (fn : Node) : Graph × Cache × Log :=
  match c.graphs.find? fn.id with
  | some g => (g, c, [])
  | none =>
    let (g, log) := Graph.ofFunction fn
    (g, { graphs := c.graphs.insert fn.id g, built := c.built + 1 }, log)

/-- A graph in the store is given as it is. -/
theorem get_of_find? {c : Cache} {fn : Node} {g : Graph} (h : c.graphs.find? fn.id = some g) :
    c.get fn = (g, c, []) := by
  rw [get, h]

/-- What was asked for once is in the store. -/
theorem find?_get (c : Cache) (fn : Node) :
    (c.get fn).2.1.graphs.find? fn.id = some (c.get fn).1 := by
  cases h : c.graphs.find? fn.id with
  | some g => rw [get_of_find? h, h]
  | none =>
    rw [get, h]
    exact (Table.find?_insert ..).trans (if_pos rfl)

end Cache

end Recast.Flow
