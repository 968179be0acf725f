import Recast.Proofs.Flow.DepthFirst
import Recast.Proofs.Flow.Layout

/-!
# What a search finds

The search for a node against the ways through a graph.

**Soundness.**  Whatever the budget, a way that the search finds is a way: the graph spells its
nodes, and the last of them is the one looked for.

**Completeness.**  With a budget of one unit for each block, the search finds a way if there is one:
the block that holds the node can be reached, and a search that may visit all such blocks does not
miss it.

* `Graph.spelled_of_search` — what is found is spelled.
* `Graph.search_of_spelled` — what is spelled is found.
-/

namespace Recast.Flow.Graph

open List
open Relation (ReflTransGen)

variable {g : Graph} {id : Nat} {budget : Int}

/-- **Soundness of the search.** -/
theorem spelled_of_search {path : List Node} (h : g.search id budget = .found path) :
    g.Spelled path ∧ ∃ front n, path = front ++ [n] ∧ n.id = id := by
  rw [search_eq] at h
  obtain ⟨k, hway, -⟩ := searchFrom_eq_found_iff.mp h
  obtain ⟨blocks, last, hdescend, rfl⟩ := descend_of_way hway
  have hisWay := (descent_of_descend g id _ _ hdescend).isWay
  obtain ⟨front, n, rest, hnodes, hn, -, hpath⟩ := hisWay.nodes
  have hpart : front ++ [n] <+: (g.block last).nodes := ⟨rest, by rw [hnodes, append_assoc]; rfl⟩
  rw [hpath]
  exact ⟨⟨blocks, last, front ++ [n], hisWay.entry, hisWay.edges, hpart, rfl⟩, _, n,
    (append_assoc ..).symm, hn⟩

/-- A node that is spelled stands in a block to which edges lead from the entry. -/
lemma Spelled.reached {t : List Node} {n : Node} (h : g.Spelled t) (hn : n ∈ t) :
    ∃ b, ReflTransGen g.Leaves 0 b ∧ n ∈ (g.block b).nodes := by
  obtain ⟨path, last, part, hhead, hchain, hpart, rfl⟩ := h
  obtain ⟨rest, hrest⟩ : ∃ rest, path ++ [last] = 0 :: rest := head?_eq_some_iff.mp hhead
  have hreach : ∀ b ∈ path ++ [last], ReflTransGen g.Leaves 0 b := by
    have hpairs := (hchain.imp fun _ _ (h : g.Leaves _ _) => ReflTransGen.single h).pairwise
    rw [hrest, pairwise_cons] at hpairs
    rw [hrest]
    exact forall_mem_cons.mpr ⟨.refl, hpairs.1⟩
  rcases mem_append.mp hn with hn | hn
  · obtain ⟨b, hb, hn⟩ := mem_flatMap.mp hn
    exact ⟨b, hreach b (mem_append_left _ hb), hn⟩
  · exact ⟨last, hreach last (mem_append_right _ mem_cons_self), hpart.subset hn⟩

/-- **Completeness of the search.** -/
theorem search_of_spelled (hg : g.Joined) (hbudget : (g.blocks.length : Int) ≤ budget)
    {front : List Node} {n : Node}
    (h : g.Spelled (front ++ [n])) : ∃ path, g.search n.id budget = .found path := by
  obtain ⟨b, hreach, hn⟩ := h.reached (mem_append_right _ mem_cons_self)
  have hblocks : 0 < g.blocks.length := by
    refine Nat.pos_of_ne_zero fun hzero => ?_
    rw [block, getD_eq_default _ _ (by omega)] at hn
    cases hn
  have hle := g.length_reachable_le 0
  cases hsearch : g.search n.id budget with
  | found path => exact ⟨path, rfl⟩
  | _ =>
    have hnone : g.pathTo? n.id budget = none := by rw [pathTo?, hsearch]
    have hmissed :=
      (pathTo?_eq_none_iff (by omega)).mp hnone b ((mem_reachable_iff hg hblocks).mpr hreach)
    rw [BasicBlock.contains, any_eq_false] at hmissed
    exact absurd (beq_self_eq_true n.id) (hmissed n hn)

end Recast.Flow.Graph
