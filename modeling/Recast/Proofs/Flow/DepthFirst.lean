import Mathlib.Logic.Relation
import Recast.Proofs.Flow.Budget

/-!
# Depth-first search

The search keeps its way as a stack of blocks with the successors that have not been tried.  Here it
is compared with the plain recursive search, which has no stack: it looks at a block, then at
everything behind its first successor, then at everything behind the second, and so on, and enters
no block twice.

**The recursive search.**  `Graph.descend` gives the blocks on the way to the first block found that
holds the node, with the blocks that are still fresh.  What the stack search does with the top of
its stack is one call of it (`Graph.way_cons`), and what is below is searched with what that call
leaves.

**Reaching.**  The blocks visited are closed under the edges and come from where the search began,
so they are the ones that can be reached (`Graph.mem_reachable_iff`).  A search that may visit all
of them misses a node only if none of them holds it.

* `Graph.pathTo?_depthFirst` — what the search finds, when it finds nothing, and what can be
  reached.
-/

namespace Recast.Flow.Graph

open List

variable {g : Graph} {id : Nat} {fresh : Fresh} {stack : List Frame} {work : List Nat}

/-! ## The recursive search -/

/-- Depth-first search by recursion, from each of these blocks in turn.  The first part of the
result has the blocks before the first one found that holds the node, and that one; the second part
has the blocks that are still fresh then. -/
def descend (g : Graph) (id : Nat) (fresh : Fresh) (work : List Nat) :
    Option (List Nat × Nat) × { left : Fresh // left.count ≤ fresh.count } :=
  match work with
  | [] => (none, ⟨fresh, le_rfl⟩)
  | b :: work =>
    if h : fresh.has b = true then
      if (g.block b).contains id then (some ([], b), ⟨fresh.visit b, (Fresh.count_visit_lt h).le⟩)
      else
        match g.descend id (fresh.visit b) (g.successors b) with
        | (some (blocks, last), left) =>
          (some (b :: blocks, last), ⟨left, left.2.trans (Fresh.count_visit_lt h).le⟩)
        | (none, left) =>
          match g.descend id left work with
          | (found, left') =>
            (found, ⟨left', left'.2.trans (left.2.trans (Fresh.count_visit_lt h).le)⟩)
    else g.descend id fresh work
termination_by (fresh.count, work.length)
decreasing_by
  · exact Prod.Lex.left _ _ (Fresh.count_visit_lt h)
  · exact Prod.Lex.left _ _ (Nat.lt_of_le_of_lt left.2 (Fresh.count_visit_lt h))
  · exact Prod.Lex.right _ (by simp only [length_cons]; omega)

/-- A block that is fresh after a visit was fresh before. -/
lemma has_of_has_visit {b c : Nat} (h : (fresh.visit b).has c = true) : fresh.has c = true := by
  rw [Fresh.has_visit] at h
  split at h
  next => cases h
  next => exact h

/-- No block becomes fresh again. -/
lemma has_of_has_descend (g : Graph) (id : Nat) (fresh : Fresh) (work : List Nat) {c : Nat}
    (h : (g.descend id fresh work).2.1.has c = true) : fresh.has c = true := by
  fun_induction descend g id fresh work with
  | case1 fresh => exact h
  | case2 fresh b work hb hhere => exact has_of_has_visit h
  | case3 fresh b work hb hmiss blocks last left hbelow ih =>
    rw [hbelow] at ih
    exact has_of_has_visit (ih h)
  | case4 fresh b work hb hmiss left hbelow found left' hbeside ih ih' =>
    rw [hbeside] at ih'
    rw [hbelow] at ih
    exact has_of_has_visit (ih (ih' h))
  | case5 fresh b work hb ih => exact ih h

/-- **The way of the recursive search.**  It begins at one of the given blocks and follows the edges
through fresh blocks, none of them twice; the last one holds the node and no other does. -/
structure Descent (g : Graph) (id : Nat) (fresh : Fresh) (work : List Nat) (blocks : List Nat)
    (last : Nat) : Prop where
  start : ∃ b ∈ work, (blocks ++ [last]).head? = some b
  edges : (blocks ++ [last]).IsChain fun b c => c ∈ g.successors b
  nodup : (blocks ++ [last]).Nodup
  fresh : ∀ b ∈ blocks ++ [last], fresh.has b = true
  missed : ∀ b ∈ blocks, (g.block b).contains id = false
  holds : (g.block last).contains id = true

/-- A way of one block. -/
lemma Descent.here {b : Nat} (hb : fresh.has b = true) (hhere : (g.block b).contains id = true) :
    g.Descent id fresh (b :: work) [] b where
  start := ⟨b, mem_cons_self, rfl⟩
  edges := isChain_singleton b
  nodup := by simp
  fresh c hc := mem_singleton.mp hc ▸ hb
  missed c hc := absurd hc not_mem_nil
  holds := hhere

/-- A block in front of a way that goes on from one of its successors. -/
lemma Descent.behind {b last : Nat} {blocks : List Nat} (hb : fresh.has b = true)
    (hmiss : (g.block b).contains id = false)
    (h : g.Descent id (fresh.visit b) (g.successors b) blocks last) :
    g.Descent id fresh (b :: work) (b :: blocks) last where
  start := ⟨b, mem_cons_self, rfl⟩
  edges := by
    obtain ⟨c, hc, hhead⟩ := h.start
    refine isChain_cons.mpr ⟨fun d hd => ?_, h.edges⟩
    obtain rfl := Option.some.inj (hhead.symm.trans hd)
    exact hc
  nodup := by
    refine nodup_cons.mpr ⟨fun hmem => ?_, h.nodup⟩
    have hvisited := h.fresh b hmem
    rw [Fresh.has_visit, if_pos rfl] at hvisited
    cases hvisited
  fresh := by
    intro c hc
    rcases mem_cons.mp hc with rfl | hc
    · exact hb
    · exact has_of_has_visit (h.fresh c hc)
  missed := by
    intro c hc
    rcases mem_cons.mp hc with rfl | hc
    · exact hmiss
    · exact h.missed c hc
  holds := h.holds

/-- A way that begins at a later block, when more blocks are fresh. -/
lemma Descent.beside {b last : Nat} {blocks : List Nat} {left : Fresh}
    (hleft : ∀ c, left.has c = true → fresh.has c = true)
    (h : g.Descent id left work blocks last) : g.Descent id fresh (b :: work) blocks last where
  start := by
    obtain ⟨c, hc, hhead⟩ := h.start
    exact ⟨c, mem_cons_of_mem b hc, hhead⟩
  edges := h.edges
  nodup := h.nodup
  fresh c hc := hleft c (h.fresh c hc)
  missed := h.missed
  holds := h.holds

lemma descent_of_descend (g : Graph) (id : Nat) (fresh : Fresh) (work : List Nat)
    {blocks : List Nat} {last : Nat} (h : (g.descend id fresh work).1 = some (blocks, last)) :
    g.Descent id fresh work blocks last := by
  fun_induction descend g id fresh work generalizing blocks last with
  | case1 fresh => cases h
  | case2 fresh b work hb hhere =>
    obtain ⟨rfl, rfl⟩ := Prod.mk.inj (Option.some.inj h)
    exact .here hb hhere
  | case3 fresh b work hb hmiss blocks' last' left hbelow ih =>
    obtain ⟨rfl, rfl⟩ := Prod.mk.inj (Option.some.inj h)
    exact .behind hb (Bool.not_eq_true _ ▸ hmiss) (ih (by rw [hbelow]))
  | case4 fresh b work hb hmiss left hbelow found left' hbeside ih ih' =>
    rw [hbeside] at ih'
    refine .beside (fun c hc => ?_) (ih' h)
    refine has_of_has_visit (has_of_has_descend g id (fresh.visit b) (g.successors b) ?_)
    rw [hbelow]
    exact hc
  | case5 fresh b work hb ih => exact .beside (fun c hc => hc) (ih h)

/-! ## The stack search does the same -/

/-- The nodes on the way that the search is on. -/
def trail (stack : List Frame) : List Node := stack.reverse.flatMap Frame.nodes

lemma trail_cons (f : Frame) (below : List Frame) :
    trail (f :: below) = trail below ++ f.nodes := by
  rw [trail, reverse_cons, flatMap_append, flatMap_singleton, trail]

/-- The nodes of some blocks, and of a last one up to the node looked for. -/
def nodesAlong (g : Graph) (id : Nat) (blocks : List Nat) (last : Nat) : List Node :=
  blocks.flatMap (fun b => (g.block b).nodes) ++ ((g.block last).until? id).getD []

lemma until?_eq_none {b : BasicBlock} (h : ¬b.contains id = true) : b.until? id = none := by
  rw [← isSome_until?] at h
  exact Option.not_isSome_iff_eq_none.mp h

/-- **One frame of the stack is one recursive search** of the blocks that wait in it.  If that finds
nothing, the frames below are searched with the blocks that it leaves. -/
lemma way_cons (g : Graph) (id : Nat) (fresh : Fresh) (next : List Nat) (nodes : List Node)
    (below : List Frame) :
    (g.way id fresh (⟨nodes, next⟩ :: below)).map Prod.snd =
      match (g.descend id fresh next).1 with
      | some (blocks, last) => some (trail below ++ nodes ++ g.nodesAlong id blocks last)
      | none => (g.way id (g.descend id fresh next).2 below).map Prod.snd := by
  fun_induction descend g id fresh next generalizing nodes below with
  | case1 fresh => rw [way]
  | case2 fresh b work hb hhere =>
    obtain ⟨part, hpart⟩ := Option.isSome_iff_exists.mp ((isSome_until? (g.block b) id).trans hhere)
    rw [way, if_pos hb, hpart]
    show some (trail (⟨nodes, work⟩ :: below) ++ part) =
      some (trail below ++ nodes ++ g.nodesAlong id [] b)
    rw [trail_cons, nodesAlong, hpart]
    rfl
  | case3 fresh b work hb hmiss blocks last left hbelow ih =>
    have hway := ih (g.block b).nodes (⟨nodes, work⟩ :: below)
    rw [hbelow] at hway
    rw [way, if_pos hb, until?_eq_none hmiss, Option.map_map]
    refine hway.trans (congrArg some ?_)
    rw [trail_cons, nodesAlong, nodesAlong, flatMap_cons]
    simp only [append_assoc]
  | case4 fresh b work hb hmiss left hbelow found left' hbeside ih ih' =>
    rw [hbeside] at ih'
    have hway := ih (g.block b).nodes (⟨nodes, work⟩ :: below)
    rw [hbelow] at hway
    rw [way, if_pos hb, until?_eq_none hmiss, Option.map_map]
    exact hway.trans (ih' nodes below)
  | case5 fresh b work hb ih => rw [way, if_neg hb, ih]

/-! ## Reaching -/

/-- Where control may go from one block to another. -/
def Leaves (g : Graph) (b c : Nat) : Prop := c ∈ g.successors b

open Relation (ReflTransGen)

/-- What is visited can be reached from one of the blocks that were waiting. -/
lemma reached_of_mem_visitOrder {c : Nat} (h : c ∈ g.visitOrder fresh work) :
    ∃ b ∈ work, ReflTransGen g.Leaves b c := by
  fun_induction visitOrder g fresh work with
  | case1 fresh => exact absurd h not_mem_nil
  | case2 fresh b work hb ih =>
    rcases mem_cons.mp h with rfl | h
    · exact ⟨c, mem_cons_self, .refl⟩
    · obtain ⟨d, hd, hreach⟩ := ih h
      rcases mem_append.mp hd with hd | hd
      · exact ⟨b, mem_cons_self, .head hd hreach⟩
      · exact ⟨d, mem_cons_of_mem b hd, hreach⟩
  | case3 fresh b work hb ih =>
    obtain ⟨d, hd, hreach⟩ := ih h
    exact ⟨d, mem_cons_of_mem b hd, hreach⟩

/-- Fresh blocks are visited if they are waiting or follow a block that is visited. -/
lemma mem_visitOrder_of_has (g : Graph) (fresh : Fresh) (work : List Nat) :
    (∀ c ∈ work, fresh.has c = true → c ∈ g.visitOrder fresh work) ∧
      ∀ b ∈ g.visitOrder fresh work, ∀ c ∈ g.successors b, fresh.has c = true →
        c ∈ g.visitOrder fresh work := by
  fun_induction visitOrder g fresh work with
  | case1 fresh => exact ⟨fun c hc => absurd hc not_mem_nil, fun b hb => absurd hb not_mem_nil⟩
  | case2 fresh b work hb ih =>
    -- a block other than the visited one is as fresh as before
    have hother : ∀ {c}, fresh.has c = true → c = b ∨ (fresh.visit b).has c = true := by
      intro c hc
      rw [Fresh.has_visit]
      by_cases hbc : b = c
      · exact Or.inl hbc.symm
      · exact Or.inr (by rw [if_neg hbc]; exact hc)
    have hwaiting : ∀ c ∈ g.successors b ++ work, fresh.has c = true →
        c ∈ b :: g.visitOrder (fresh.visit b) (g.successors b ++ work) := by
      intro c hc hfresh
      rcases hother hfresh with rfl | hfresh
      · exact mem_cons_self
      · exact mem_cons_of_mem b (ih.1 c hc hfresh)
    refine ⟨fun c hc hfresh => ?_, fun d hd c hc hfresh => ?_⟩
    · rcases mem_cons.mp hc with rfl | hc
      · exact mem_cons_self
      · exact hwaiting c (mem_append_right _ hc) hfresh
    · rcases mem_cons.mp hd with rfl | hd
      · exact hwaiting c (mem_append_left _ hc) hfresh
      · rcases hother hfresh with rfl | hfresh
        · exact mem_cons_self
        · exact mem_cons_of_mem b (ih.2 d hd c hc hfresh)
  | case3 fresh b work hb ih =>
    refine ⟨fun c hc hfresh => ?_, ih.2⟩
    rcases mem_cons.mp hc with rfl | hc
    · exact absurd hfresh hb
    · exact ih.1 c hc hfresh

/-- **What can be reached** is what the edges lead to in any number of steps. -/
theorem mem_reachable_iff (hg : g.Joined) {start b : Nat} (hstart : start < g.blocks.length) :
    b ∈ g.reachable start ↔ ReflTransGen g.Leaves start b := by
  have hall : ∀ c < g.blocks.length, (Fresh.all g.blocks.length).has c = true := by
    intro c hc
    rw [Fresh.has_all, decide_eq_true hc]
  obtain ⟨hwaiting, hclosed⟩ := g.mem_visitOrder_of_has (.all g.blocks.length) [start]
  rw [mem_reachable]
  constructor
  · intro h
    obtain ⟨c, hc, hreach⟩ := reached_of_mem_visitOrder h
    obtain rfl := mem_singleton.mp hc
    exact hreach
  · intro h
    induction h with
    | refl => exact hwaiting start mem_cons_self (hall start hstart)
    | tail _ hstep ih =>
      obtain ⟨e, he, rfl⟩ := mem_map.mp hstep
      exact hclosed _ ih _ hstep (hall _ (hg e (mem_filter.mp he).1).2)

/-! ## What the search finds -/

/-- A search without a budget finds nothing only if no block that it visits holds the node. -/
lemma missed_of_way_eq_none (h : g.way id fresh stack = none) :
    ∀ b ∈ g.visitOrder fresh (waiting stack), (g.block b).contains id = false := by
  fun_induction way g id fresh stack with
  | case1 fresh =>
    intro b hb
    rw [waiting, flatMap_nil, visitOrder] at hb
    exact absurd hb not_mem_nil
  | case2 fresh nodes below ih => exact ih h
  | case3 fresh nodes b next below hb last hlast => cases h
  | case4 fresh nodes b next below hb hnone ih =>
    have hmissed := ih (Option.map_eq_none_iff.mp h)
    rw [waiting, flatMap_cons, cons_append, visitOrder, if_pos hb]
    intro c hc
    rcases mem_cons.mp hc with rfl | hc
    · rw [← isSome_until?, hnone]
      rfl
    · exact hmissed c hc
  | case5 fresh nodes b next below hb ih =>
    rw [waiting, flatMap_cons, cons_append, visitOrder, if_neg hb]
    exact ih h

/-- **A way to a node.**  It leads along edges from the entry through blocks of the graph, none of
them twice.  Only the last one holds the node, and its nodes count up to the first place where the
node stands. -/
structure IsWay (g : Graph) (id : Nat) (blocks : List Nat) (last : Nat) (path : List Node) :
    Prop where
  entry : (blocks ++ [last]).head? = some 0
  inside : ∀ b ∈ blocks ++ [last], b < g.blocks.length
  edges : (blocks ++ [last]).IsChain g.Leaves
  nodup : (blocks ++ [last]).Nodup
  missed : ∀ b ∈ blocks, (g.block b).contains id = false
  nodes : ∃ front n rest, (g.block last).nodes = front ++ n :: rest ∧ n.id = id ∧
    (∀ m ∈ front, m.id ≠ id) ∧
    path = blocks.flatMap (fun b => (g.block b).nodes) ++ (front ++ [n])

/-- The part of a block up to a node ends where the node stands for the first time. -/
lemma exists_first {ns part : List Node} (h : nodesUntil? id ns = some part) :
    ∃ front n rest, ns = front ++ n :: rest ∧ n.id = id ∧ (∀ m ∈ front, m.id ≠ id) ∧
    part = front ++ [n] := by
  induction ns generalizing part with
  | nil => cases h
  | cons n ns ih =>
    rw [nodesUntil?] at h
    by_cases hn : n.id = id
    · rw [if_pos hn] at h
      exact ⟨[], n, ns, rfl, hn, fun m hm => absurd hm not_mem_nil, (Option.some.inj h).symm⟩
    · rw [if_neg hn] at h
      obtain ⟨part', hpart, rfl⟩ := Option.map_eq_some_iff.mp h
      obtain ⟨front, m, rest, rfl, hm, hfront, rfl⟩ := ih hpart
      refine ⟨n :: front, m, rest, rfl, hm, fun k hk => ?_, rfl⟩
      rcases mem_cons.mp hk with rfl | hk
      · exact hn
      · exact hfront k hk

/-- The search without a budget and the recursive search take the same way from the entry. -/
lemma descend_of_way {k : Nat} {path : List Node}
    (h : g.way id (.all g.blocks.length) [⟨[], [0]⟩] = some (k, path)) :
    ∃ blocks last, (g.descend id (.all g.blocks.length) [0]).1 = some (blocks, last) ∧
    path = g.nodesAlong id blocks last := by
  have hway := g.way_cons id (.all g.blocks.length) [0] [] []
  rw [h] at hway
  cases hdescend : (g.descend id (.all g.blocks.length) [0]).1 with
  | none =>
    rw [hdescend, way] at hway
    cases hway
  | some found =>
    rw [hdescend] at hway
    exact ⟨found.1, found.2, rfl, Option.some.inj hway⟩

lemma Descent.isWay {blocks : List Nat} {last : Nat}
    (h : g.Descent id (.all g.blocks.length) [0] blocks last) :
    g.IsWay id blocks last (g.nodesAlong id blocks last) where
  entry := by
    obtain ⟨b, hb, hhead⟩ := h.start
    rw [hhead, mem_singleton.mp hb]
  inside b hb := by
    have hfresh := h.fresh b hb
    rw [Fresh.has_all] at hfresh
    exact of_decide_eq_true hfresh
  edges := h.edges
  nodup := h.nodup
  missed := h.missed
  nodes := by
    obtain ⟨part, hpart⟩ :=
      Option.isSome_iff_exists.mp ((isSome_until? (g.block last) id).trans h.holds)
    obtain ⟨front, n, rest, hnodes, hn, hfront, rfl⟩ := exists_first hpart
    exact ⟨front, n, rest, hnodes, hn, hfront, by rw [nodesAlong, hpart]; rfl⟩

/-- A budget for all blocks that can be reached is enough to find the node if one of them holds
it. -/
lemma pathTo?_eq_none_iff {budget : Int} (hbudget : (g.reachable 0).length ≤ budget) :
    g.pathTo? id budget = none ↔ ∀ b ∈ g.reachable 0, (g.block b).contains id = false := by
  rcases g.pathTo?_threshold id with hnever | ⟨k, path, hcost⟩
  · have hway : g.way id (.all g.blocks.length) [⟨[], [0]⟩] = none := by
      refine Option.eq_none_iff_forall_ne_some.mpr fun found hfound => ?_
      have hsome := pathTo?_eq_some_iff.mpr ⟨found.1, hfound, Int.le_refl _⟩
      rw [hnever] at hsome
      cases hsome
    exact ⟨fun _ b hb => missed_of_way_eq_none hway b (mem_reachable.mp hb), fun _ => hnever budget⟩
  · have hle := hcost.le_reachable
    have hsome := hcost.enough budget (by omega)
    obtain ⟨b, hb, hholds⟩ := hcost.block
    have hmem : b ∈ g.reachable 0 := mem_reachable.mpr (mem_of_getElem? hb)
    constructor
    · intro hnone
      rw [hnone] at hsome
      cases hsome
    · intro hmissed
      rw [hmissed b hmem] at hholds
      cases hholds

/-- **The search is depth-first search.**  Whatever it finds is a way to the node, namely the one on
which the recursive search is when it comes to the node.  With a budget for all blocks that can be
reached from the entry it finds nothing exactly if none of them holds the node; and the blocks that
can be reached from a block, each listed once, are those to which edges lead in any number of
steps. -/
theorem pathTo?_depthFirst (g : Graph) (hg : g.Joined) (id : Nat) (budget : Int) :
    (∀ path, g.pathTo? id budget = some path → ∃ blocks last,
      g.IsWay id blocks last path ∧ (g.descend id (.all g.blocks.length) [0]).1 =
        some (blocks, last)) ∧
    ((g.reachable 0).length ≤ budget →
      (g.pathTo? id budget = none ↔ ∀ b ∈ g.reachable 0, (g.block b).contains id = false)) ∧
    ∀ start < g.blocks.length, (g.reachable start).Nodup ∧
      ∀ b, b ∈ g.reachable start ↔ ReflTransGen g.Leaves start b := by
  refine ⟨fun path hpath => ?_, pathTo?_eq_none_iff, fun start hstart =>
    ⟨?_, fun b => mem_reachable_iff hg hstart⟩⟩
  · obtain ⟨k, hway, -⟩ := pathTo?_eq_some_iff.mp hpath
    obtain ⟨blocks, last, hdescend, rfl⟩ := descend_of_way hway
    exact ⟨blocks, last, (descent_of_descend g id _ _ hdescend).isWay, hdescend⟩
  · exact List.nodup_range.filter _

/-- A graph with a loop, an edge from a block to itself, and two edges between the same blocks. -/
def looped : Graph where
  blocks :=
    [{}, { nodes := [.branch { id := 4 } "continue"] }, { nodes := [.branch { id := 7 } "break"] }]
  edges :=
    [⟨0, 1, .branchTrue⟩, ⟨0, 1, .branchFalse⟩, ⟨1, 1, .continueOn⟩,
      ⟨1, 0, .backEdge⟩, ⟨1, 2, .breakOut⟩]

/-- With a unit for each block the search gets to the last block of the sample, and a node that is
nowhere is not found. -/
theorem pathTo?_depthFirst_looped :
    looped.Joined ∧ looped.reachable 0 = [0, 1, 2] ∧ Relation.ReflTransGen looped.Leaves 0 2 ∧
      looped.pathTo? 7 3 ≠ none ∧ looped.pathTo? 5 3 = none := by
  have hjoined : looped.Joined := by unfold Joined; decide
  have hreachable : looped.reachable 0 = [0, 1, 2] := by cbv
  have hbudget : ((looped.reachable 0).length : Int) ≤ 3 := by rw [hreachable]; decide
  refine ⟨hjoined, hreachable, ?_, fun hnone => ?_, ?_⟩
  · refine (((pathTo?_depthFirst looped hjoined 7 3).2.2 0 (by decide)).2 2).mp ?_
    rw [hreachable]
    decide
  · have hmissed :=
      ((pathTo?_depthFirst looped hjoined 7 3).2.1 hbudget).mp hnone 2 (by rw [hreachable]; decide)
    cases hmissed
  · refine ((pathTo?_depthFirst looped hjoined 5 3).2.1 hbudget).mpr ?_
    rw [hreachable]
    decide

end Recast.Flow.Graph
