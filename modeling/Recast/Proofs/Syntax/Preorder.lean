import Mathlib.Data.List.Basic
import Recast.Syntax.Walk

/-!
# Pre-order by recursion

The walk through a tree keeps a stack of nodes still to visit.  Here the same visits are listed by
recursion on the tree: a node, then the visits of each of its children from left to right, with the
node added to the nodes above.

* `visitsAll`, `Node.visits` — the visits of several trees, and of one.
* `Node.walk_eq` — the walk makes these visits, in this order.
-/

namespace Recast

open List

/-- The visits of several trees below the same nodes, from left to right, each tree in pre-order. -/
def visitsAll (above : List Node) : List Node → List Visit
  | [] => []
  | n :: ns => ⟨n, above⟩ :: (visitsAll (n :: above) n.children ++ visitsAll above ns)
termination_by ns => totalSize ns
decreasing_by
  all_goals
    have := n.totalSize_children
    simp only [totalSize]
    omega

/-- The visits of a tree in pre-order: its root, and then the visits of the children. -/
def Node.visits (above : List Node) (n : Node) : List Visit :=
  ⟨n, above⟩ :: visitsAll (n :: above) n.children

lemma visitsAll_eq (above ns : List Node) :
    visitsAll above ns = ns.flatMap (Node.visits above) := by
  induction ns with
  | nil => rw [visitsAll, flatMap_nil]
  | cons n ns ih => rw [visitsAll, ih, flatMap_cons, Node.visits, cons_append]

lemma Node.visits_eq (above : List Node) (n : Node) :
    n.visits above = ⟨n, above⟩ :: n.children.flatMap (Node.visits (n :: above)) := by
  rw [visits, visitsAll_eq]

/-- What is on the stack is visited from top to bottom, each node with everything below it. -/
lemma Visit.unfold_eq (keep : Node → Bool) (stack : List Visit) :
    Visit.unfold keep stack =
      (stack.flatMap fun v => v.node.visits v.above).filter (keep ·.node) := by
  induction stack using Visit.unfold.induct with
  | case1 => rw [Visit.unfold, flatMap_nil, filter_nil]
  | case2 v stack ih =>
    rw [Visit.unfold, ih, flatMap_append, flatMap_map, flatMap_cons, Node.visits_eq,
      cons_append, filter_cons]
    split
    · rfl
    · rfl

/-- **The walk is the pre-order.** -/
theorem Node.walk_eq (root : Node) : root.walk = root.visits [] := by
  rw [walk, Visit.unfold_eq, flatMap_singleton, filter_true]

end Recast
