import Recast.Flow.Search
import Recast.Proofs.Flow.Layout

/-!
# The budget of a search

How much a search has to pay, and for what.

**Order.**  `Graph.depthFirst` lists the blocks in the order in which a depth-first search comes to
them: a block that has not been visited, then everything that its successors lead to, and only then
what was waiting before.  These are the blocks that can be reached (`Graph.perm_depthFirst`).

**Cost.**  `Graph.way` is the search without a budget, with its cost: the number of visits up to and
including the one that finds the node.  A search within a budget finds that way if it can pay for
it, and nothing otherwise (`Graph.searchFrom_eq_found_iff`).  The cost is the position of the first
block in the order that holds the node.

* `Graph.pathTo?_threshold` — below the cost nothing is found, from there on always the same.
-/

namespace Recast.Flow.Graph

open List

variable {g : Graph} {id : Nat} {fresh : Fresh} {budget : Int}
  {stack : List Frame} {work : List Nat}

/-! ## The order of visits -/

/-- The blocks that a depth-first search visits when these ones are waiting, in the order of its
visits. -/
def visitOrder (g : Graph) (fresh : Fresh) (work : List Nat) : List Nat :=
  match work with
  | [] => []
  | b :: work =>
    if fresh.has b then b :: g.visitOrder (fresh.visit b) (g.successors b ++ work)
    else g.visitOrder fresh work
termination_by (fresh.count, work.length)
decreasing_by
  · exact Prod.Lex.left _ _ (Fresh.count_visit_lt (by assumption))
  · exact Prod.Lex.right _ (by simp only [length_cons]; omega)

/-- The blocks of a graph in depth-first order from the entry. -/
def depthFirst (g : Graph) : List Nat := g.visitOrder (.all g.blocks.length) [0]

/-- What is visited was fresh, and is not visited again. -/
lemma visitOrder_fresh (g : Graph) (fresh : Fresh) (work : List Nat) :
    (∀ b ∈ g.visitOrder fresh work, fresh.has b = true) ∧ (g.visitOrder fresh work).Nodup := by
  fun_induction visitOrder g fresh work with
  | case1 fresh => exact ⟨fun b hb => absurd hb not_mem_nil, nodup_nil⟩
  | case2 fresh b work hb ih =>
    have hother : ∀ c ∈ g.visitOrder (fresh.visit b) (g.successors b ++ work), c ≠ b ∧
        fresh.has c = true := by
      intro c hc
      have hvisit := ih.1 c hc
      rw [Fresh.has_visit] at hvisit
      split at hvisit
      next => cases hvisit
      next hne => exact ⟨Ne.symm hne, hvisit⟩
    refine ⟨?_, nodup_cons.mpr ⟨fun hmem => (hother b hmem).1 rfl, ih.2⟩⟩
    intro c hc
    rcases mem_cons.mp hc with rfl | hc
    · exact hb
    · exact (hother c hc).2
  | case3 fresh b work hb ih => exact ih

/-- What remains unreached is what was fresh and is not visited. -/
lemma has_unreached (g : Graph) (fresh : Fresh) (work : List Nat) (c : Nat) :
    (g.unreached fresh work).has c = (fresh.has c && !(g.visitOrder fresh work).contains c) := by
  fun_induction visitOrder g fresh work with
  | case1 fresh => rw [unreached]; simp
  | case2 fresh b work hb ih =>
    rw [unreached, if_pos hb, ih, Fresh.has_visit, contains_cons]
    by_cases hbc : b = c
    · simp [hbc]
    · have : (c == b) = false := beq_false_of_ne fun h => hbc h.symm
      simp [hbc, this]
  | case3 fresh b work hb ih => rw [unreached, if_neg hb, ih]

/-- The blocks that can be reached from a block are those visited from there. -/
lemma mem_reachable {start b : Nat} : b ∈ g.reachable start ↔
    b ∈ g.visitOrder (.all g.blocks.length) [start] := by
  show b ∈ (range g.blocks.length).filter _ ↔ _
  rw [mem_filter, mem_range, has_unreached, Fresh.has_all]
  constructor
  · rintro ⟨hlt, hmem⟩
    simpa [hlt] using hmem
  · intro hmem
    have hlt := (g.visitOrder_fresh (.all g.blocks.length) [start]).1 b hmem
    rw [Fresh.has_all] at hlt
    exact ⟨of_decide_eq_true hlt, by simp [hmem]⟩

lemma length_reachable_le (g : Graph) (start : Nat) :
    (g.reachable start).length ≤ g.blocks.length := by
  have h := length_filter_le (fun b => !(g.unreached (.all g.blocks.length) [start]).has b)
    (range g.blocks.length)
  rwa [length_range] at h

/-- **The order lists the blocks that can be reached**, each once. -/
theorem perm_depthFirst (g : Graph) : g.depthFirst.Perm (g.reachable 0) :=
  (perm_ext_iff_of_nodup (g.visitOrder_fresh _ _).2 (nodup_range.filter _)).mpr
    fun _ => mem_reachable.symm

/-! ## The cost of a way -/

/-- The way that a search without a budget finds, and how many visits it takes to find it. -/
def way (g : Graph) (id : Nat) (fresh : Fresh) (stack : List Frame) : Option (Nat × List Node) :=
  match stack with
  | [] => none
  | ⟨_, []⟩ :: below => g.way id fresh below
  | ⟨nodes, b :: next⟩ :: below =>
    if fresh.has b then
      match (g.block b).until? id with
      | some last => some (1, (⟨nodes, next⟩ :: below).reverse.flatMap Frame.nodes ++ last)
      | none =>
        (g.way id (fresh.visit b)
          (⟨(g.block b).nodes, g.successors b⟩ :: ⟨nodes, next⟩ :: below)).map
          fun found => (found.1 + 1, found.2)
    else g.way id fresh (⟨nodes, next⟩ :: below)
termination_by (fresh.count, stepsLeft stack)
decreasing_by
  · exact Prod.Lex.right _ (by simp only [stepsLeft]; omega)
  · exact Prod.Lex.left _ _ (Fresh.count_visit_lt (by assumption))
  · exact Prod.Lex.right _ (by simp only [stepsLeft, length_cons]; omega)

/-- The blocks that wait on a stack, the top first. -/
def waiting (stack : List Frame) : List Nat := stack.flatMap Frame.next

/-- A block has a part that ends with a node exactly if it holds the node. -/
lemma isSome_until? (b : BasicBlock) (id : Nat) : (b.until? id).isSome = b.contains id := by
  rw [BasicBlock.until?, BasicBlock.contains]
  induction b.nodes with
  | nil => rfl
  | cons n ns ih =>
    rw [nodesUntil?, any_cons, ← ih]
    by_cases hn : n.id = id
    · rw [if_pos hn, beq_iff_eq.mpr hn]
      rfl
    · rw [if_neg hn, beq_false_of_ne hn, Option.isSome_map]
      rfl

/-- **The cost is the position of the node's block** in the order of visits: its block is the first
there that holds it. -/
lemma way_eq_some {k : Nat} {path : List Node} (h : g.way id fresh stack = some (k, path)) :
    ∃ front b rest, g.visitOrder fresh (waiting stack) = front ++ b :: rest ∧ k = front.length + 1 ∧
      (g.block b).contains id = true ∧ ∀ c ∈ front, (g.block c).contains id = false := by
  fun_induction way g id fresh stack generalizing k with
  | case1 fresh => cases h
  | case2 fresh nodes below ih => exact ih h
  | case3 fresh nodes b next below hb last hlast =>
    obtain ⟨rfl, -⟩ := Prod.mk.inj (Option.some.inj h)
    refine ⟨[], b, g.visitOrder (fresh.visit b) (g.successors b ++ (next ++ waiting below)),
      ?_, rfl, ?_, fun c hc => absurd hc not_mem_nil⟩
    · rw [waiting, flatMap_cons, cons_append, visitOrder, if_pos hb]
      rfl
    · rw [← isSome_until?, hlast]
      rfl
  | case4 fresh nodes b next below hb hnone ih =>
    obtain ⟨⟨j, path'⟩, hway, hfound⟩ := Option.map_eq_some_iff.mp h
    obtain ⟨rfl, rfl⟩ := Prod.mk.inj hfound
    obtain ⟨front, c, rest, horder, rfl, hc, hfront⟩ := ih hway
    refine ⟨b :: front, c, rest, ?_, rfl, hc, ?_⟩
    · rw [waiting, flatMap_cons, cons_append, visitOrder, if_pos hb, cons_append, ← horder]
      rfl
    · intro d hd
      rcases mem_cons.mp hd with rfl | hd
      · rw [← isSome_until?, hnone]
        rfl
      · exact hfront d hd
  | case5 fresh nodes b next below hb ih =>
    obtain ⟨front, c, rest, horder, hk, hc, hfront⟩ := ih h
    refine ⟨front, c, rest, ?_, hk, hc, hfront⟩
    rw [waiting, flatMap_cons, cons_append, visitOrder, if_neg hb, ← horder]
    rfl

/-- **A search finds the way if it can pay for it**, and no other. -/
lemma searchFrom_eq_found_iff {path : List Node} :
    searchFrom g.block g.successors id fresh budget stack = .found path ↔
      ∃ k : Nat, g.way id fresh stack = some (k, path) ∧ k ≤ budget := by
  induction fresh, budget, stack using searchFrom.induct g.block g.successors id with
  | case1 fresh budget =>
    rw [searchFrom, way]
    simp
  | case2 fresh budget nodes below ih => rw [searchFrom, way, ih]
  | case3 fresh budget nodes b next below hb hbudget =>
    rw [searchFrom, if_pos hb, if_pos hbudget]
    constructor
    · intro h
      cases h
    · rintro ⟨k, hway, hk⟩
      obtain ⟨front, -, -, -, rfl, -⟩ := way_eq_some hway
      omega
  | case4 fresh budget nodes b next below hb hbudget last hlast =>
    rw [searchFrom, if_pos hb, if_neg hbudget, hlast, way, if_pos hb, hlast]
    constructor
    · intro h
      exact ⟨1, by rw [← Outcome.found.inj h], by omega⟩
    · rintro ⟨k, hway, -⟩
      exact congrArg Outcome.found (Prod.mk.inj (Option.some.inj hway)).2
  | case5 fresh budget nodes b next below hb hbudget hnone ih =>
    rw [searchFrom, if_pos hb, if_neg hbudget, hnone, way, if_pos hb, hnone]
    dsimp only
    rw [ih]
    constructor
    · rintro ⟨k, hway, hk⟩
      exact ⟨k + 1, by rw [hway]; rfl, by omega⟩
    · rintro ⟨k, hway, hk⟩
      obtain ⟨⟨j, path'⟩, hway', hfound⟩ := Option.map_eq_some_iff.mp hway
      obtain ⟨rfl, rfl⟩ := Prod.mk.inj hfound
      exact ⟨j, hway', by omega⟩
  | case6 fresh budget nodes b next below hb ih => rw [searchFrom, if_neg hb, ih, way, if_neg hb]

/-- The way that a search from the entry finds. -/
lemma pathTo?_eq_some_iff {path : List Node} :
    g.pathTo? id budget = some path ↔
      ∃ k : Nat, g.way id (.all g.blocks.length) [⟨[], [0]⟩] = some (k, path) ∧ k ≤ budget := by
  rw [← searchFrom_eq_found_iff, ← search_eq, pathTo?]
  cases g.search id budget <;> simp

/-- **What it costs to find a node.**  The node's block has this position in depth-first order,
counted from one, and no block before it holds the node; with less than that the search finds
nothing, and from there on always the same. -/
structure Costs (g : Graph) (id k : Nat) (path : List Node) : Prop where
  pos : 1 ≤ k
  le_reachable : k ≤ (g.reachable 0).length
  block : ∃ b, g.depthFirst[k - 1]? = some b ∧ (g.block b).contains id = true
  first : ∀ c ∈ g.depthFirst.take (k - 1), (g.block c).contains id = false
  short : ∀ budget < (k : Int), g.pathTo? id budget = none
  enough : ∀ budget, (k : Int) ≤ budget → g.pathTo? id budget = some path

/-- **The threshold.**  Either no budget is enough, or the cost is. -/
theorem pathTo?_threshold (g : Graph) (id : Nat) :
    (∀ budget, g.pathTo? id budget = none) ∨ ∃ k path, g.Costs id k path := by
  cases hway : g.way id (.all g.blocks.length) [⟨[], [0]⟩] with
  | none =>
    refine Or.inl fun budget => Option.eq_none_iff_forall_ne_some.mpr fun path hpath => ?_
    obtain ⟨k, hk, -⟩ := pathTo?_eq_some_iff.mp hpath
    rw [hway] at hk
    cases hk
  | some found =>
    obtain ⟨k, path⟩ := found
    obtain ⟨front, b, rest, horder, rfl, hb, hfront⟩ := way_eq_some hway
    change g.depthFirst = front ++ b :: rest at horder
    refine Or.inr ⟨front.length + 1, path, Nat.le_add_left 1 _, ?_, ⟨b, ?_, hb⟩, ?_, ?_, ?_⟩
    · rw [← g.perm_depthFirst.length_eq, horder, length_append, length_cons]
      omega
    · rw [horder, Nat.add_sub_cancel, getElem?_append_right le_rfl, Nat.sub_self]
      rfl
    · rwa [horder, Nat.add_sub_cancel, take_left]
    · intro budget hbudget
      refine Option.eq_none_iff_forall_ne_some.mpr fun path' hpath => ?_
      obtain ⟨k, hk, hle⟩ := pathTo?_eq_some_iff.mp hpath
      rw [hway] at hk
      obtain ⟨rfl, -⟩ := Prod.mk.inj (Option.some.inj hk)
      omega
    · intro budget hbudget
      exact pathTo?_eq_some_iff.mpr ⟨_, hway, hbudget⟩

/-- What is found within a budget is found within any larger one. -/
lemma pathTo?_mono {budget' : Int} {path : List Node} (hle : budget ≤ budget')
    (h : g.pathTo? id budget = some path) :
    g.pathTo? id budget' = some path := by
  obtain ⟨k, hway, hk⟩ := pathTo?_eq_some_iff.mp h
  exact pathTo?_eq_some_iff.mpr ⟨k, hway, Int.le_trans hk hle⟩

/-- A budget of one unit for each block is as good as any larger one. -/
lemma pathTo?_saturated {budget' : Int} (hblocks : (g.blocks.length : Int) ≤ budget)
    (hle : budget ≤ budget') :
    g.pathTo? id budget' = g.pathTo? id budget := by
  have hreachable := g.length_reachable_le 0
  rcases g.pathTo?_threshold id with hnone | ⟨k, path, hcost⟩
  · rw [hnone, hnone]
  · have := hcost.le_reachable
    rw [hcost.enough budget (by omega), hcost.enough budget' (by omega)]

end Recast.Flow.Graph
