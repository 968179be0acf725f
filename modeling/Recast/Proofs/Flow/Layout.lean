import Mathlib.Data.List.GetD
import Recast.Flow.Lower
import Recast.Proofs.Flow.Spelling

/-!
# Graphs in the making

What the steps of a lowering do to the graph, and what is left of that in the finished graph.

**Steps.**  A lowering reserves blocks (`Lowering.reserve`), places nodes in the current block
(`Lowering.placed`) and leaves it for another one (`Lowering.leaveTo`).  Each of these has its
effect on the nodes and the successors of every block stated here, and later proofs go by that.

**Growth.**  Whatever a lowering does between two statements, it adds to the current block and to
blocks that it makes itself, and leaves all others as they are: `Lowering.Grows`.

**Keeping.**  The finished graph keeps what was laid between two moments if it has all blocks that
were left or made in between as they were at the second moment: `Lowering.Kept`.  The current block
of that moment is the one exception, since more comes to it.
-/

namespace Recast.Flow

open List hiding le_refl lt

/-! ## Blocks and successors of a growing graph -/

namespace Graph

lemma block_addBlock (g : Graph) (kind : BlockKind) {b : Nat} (h : b < g.blocks.length) :
    (g.addBlock kind).block b = g.block b := by
  rw [block, block, addBlock, getD_append _ _ _ _ h]

/-- A new block has no nodes, and nor has one that does not exist. -/
lemma nodes_addBlock (g : Graph) (kind : BlockKind) {b : Nat} (h : g.blocks.length ≤ b) :
    ((g.addBlock kind).block b).nodes = [] := by
  rw [block, addBlock, getD_append_right _ _ _ _ h]
  cases b - g.blocks.length with
  | zero => rfl
  | succ m => rfl

lemma block_addNode (g : Graph) (c : Nat) (n : Node) {b : Nat} (h : b ≠ c) :
    (g.addNode c n).block b = g.block b := by
  rw [block, block, addNode, getD_eq_getElem?_getD, getElem?_modify_ne _ _ h.symm,
    ← getD_eq_getElem?_getD]

/-- The node comes last in its block. -/
lemma nodes_addNode (g : Graph) {c : Nat} (n : Node) (h : c < g.blocks.length) :
    ((g.addNode c n).block c).nodes = (g.block c).nodes ++ [n] := by
  rw [block, block, addNode, getD_eq_getElem?_getD, getElem?_modify_eq, getElem?_eq_getElem h,
    getD_eq_getElem _ _ h]
  rfl

/-- What is changed in a list does not matter to what comes behind it. -/
lemma modify_concat {α : Type} (f : α → α) (x : α) (xs : List α) {i : Nat} (h : i < xs.length) :
    (xs ++ [x]).modify i f = xs.modify i f ++ [x] := by
  induction xs generalizing i with
  | nil => exact absurd h (Nat.not_lt_zero i)
  | cons y xs ih =>
    cases i with
    | zero => rfl
    | succ i => exact congrArg (y :: ·) (ih (Nat.lt_of_succ_lt_succ h))

/-- A new block does not matter to the nodes of the others. -/
lemma addBlock_addNode (g : Graph) {c : Nat} (n : Node) (kind : BlockKind)
    (h : c < g.blocks.length) :
    (g.addNode c n).addBlock kind = (g.addBlock kind).addNode c n := by
  rw [addBlock, length_blocks_addNode, addNode, addNode, addBlock, modify_concat _ _ _ h]

/-- A new block does not matter to an edge between others. -/
lemma addBlock_addEdge (g : Graph) {e : Edge} (kind : BlockKind) (hs : e.source < g.blocks.length)
    (ht : e.target < g.blocks.length) :
    (g.addEdge e).addBlock kind = (g.addBlock kind).addEdge e := by
  rw [addBlock, length_blocks_addEdge, addEdge, addEdge, addBlock, modify_concat _ _ _ hs,
    modify_concat _ _ _ (by rwa [length_modify])]

/-- A new edge changes neither the kind nor the nodes of a block. -/
lemma content_addEdge (g : Graph) (e : Edge) (b : Nat) :
    (((g.addEdge e).block b).kind, ((g.addEdge e).block b).nodes) =
      ((g.block b).kind, (g.block b).nodes) := by
  rw [block, block, addEdge, getD_eq_getElem?_getD, getElem?_modify, getElem?_modify,
    getD_eq_getElem?_getD]
  cases g.blocks[b]? with
  | none => rfl
  | some x => by_cases hs : e.source = b <;> by_cases ht : e.target = b <;> simp [hs, ht]

/-- All edges join blocks that exist. -/
def Joined (g : Graph) : Prop :=
  ∀ e ∈ g.edges, e.source < g.blocks.length ∧ e.target < g.blocks.length

/-- No edge leaves a block that does not exist. -/
lemma Joined.successors_eq_nil {g : Graph} (h : g.Joined) {b : Nat} (hb : g.blocks.length ≤ b) :
    g.successors b = [] := by
  rw [successors, edgesOutOf, map_eq_nil_iff, filter_eq_nil_iff]
  intro e he hsource
  have := (h e he).1
  rw [beq_iff_eq] at hsource
  omega

/-- A block is the same in two graphs: it has the same nodes and the same successors. -/
def Same (b : Nat) (g g' : Graph) : Prop :=
  (g'.block b).nodes = (g.block b).nodes ∧ g'.successors b = g.successors b

lemma Same.trans {b : Nat} {g g' g'' : Graph} (h : Same b g g') (h' : Same b g' g'') :
    Same b g g'' :=
  ⟨h'.1.trans h.1, h'.2.trans h.2⟩

end Graph

/-! ## Steps -/

namespace Lowering

/-- The number of blocks. -/
def size (s : Lowering) : Nat := s.graph.blocks.length

/-- Where the next node goes. -/
def position (s : Lowering) : Position := ⟨s.current, (s.graph.block s.current).nodes.length⟩

/-- Adds a block to be filled later. -/
def reserve (s : Lowering) (kind : BlockKind) : Lowering :=
  { s with graph := s.graph.addBlock kind }

/-- Adds a node to the current block. -/
def placed (s : Lowering) (n : Node) : Lowering := { s with graph := s.graph.addNode s.current n }

/-- Adds edges out of a block, one for each target. -/
def linked (s : Lowering) (b : Nat) : List (Nat × EdgeKind) → Lowering
  | [] => s
  | (target, kind) :: targets =>
    { s with graph := s.graph.addEdge ⟨b, target, kind⟩ }.linked b targets

/-- Leaves the current block towards the targets and goes on at another one. -/
def leaveTo (s : Lowering) (targets : List (Nat × EdgeKind)) (next : Nat) : Lowering :=
  { s.linked s.current targets with current := next }

/-- Leaves the current block for good and goes on in a block that no edge leads to. -/
def cut (s : Lowering) (targets : List (Nat × EdgeKind)) : Lowering :=
  { (s.linked s.current targets).reserve .unreachable with
    current := (s.linked s.current targets).size }

variable {s s' s'' : Lowering} {b : Nat} {targets : List (Nat × EdgeKind)}

@[simp] lemma size_reserve (kind : BlockKind) : (s.reserve kind).size = s.size + 1 :=
  Graph.length_blocks_addBlock s.graph kind

@[simp] lemma size_placed (n : Node) : (s.placed n).size = s.size :=
  Graph.length_blocks_addNode s.graph s.current n

lemma size_addEdge (e : Edge) : size { s with graph := s.graph.addEdge e } = s.size :=
  Graph.length_blocks_addEdge s.graph e

@[simp] lemma size_linked (targets : List (Nat × EdgeKind)) :
    (s.linked b targets).size = s.size := by
  induction targets generalizing s with
  | nil => rfl
  | cons t targets ih => exact ih.trans (size_addEdge _)

@[simp] lemma size_cut : (s.cut targets).size = s.size + 1 :=
  (size_reserve _).trans (congrArg (· + 1) (size_linked targets))

@[simp] lemma size_leaveTo (next : Nat) : (s.leaveTo targets next).size = s.size :=
  size_linked targets

lemma nodes_linked (targets : List (Nat × EdgeKind)) (c : Nat) :
    ((s.linked b targets).graph.block c).nodes = (s.graph.block c).nodes := by
  induction targets generalizing s with
  | nil => rfl
  | cons t targets ih => exact ih.trans (congrArg Prod.snd (Graph.content_addEdge _ _ _))

/-- Links come after the successors that the block already has. -/
lemma successors_linked (targets : List (Nat × EdgeKind)) :
    (s.linked b targets).graph.successors b = s.graph.successors b ++ targets.map Prod.fst := by
  induction targets generalizing s with
  | nil => simp [linked]
  | cons t targets ih =>
    rw [linked, ih, Graph.successors_addEdge, if_pos rfl]
    simp

lemma successors_linked_of_ne (targets : List (Nat × EdgeKind)) {c : Nat} (h : c ≠ b) :
    (s.linked b targets).graph.successors c = s.graph.successors c := by
  induction targets generalizing s with
  | nil => rfl
  | cons t targets ih =>
    rw [linked, ih, Graph.successors_addEdge, if_neg h.symm, append_nil]

lemma reserve_linked (kind : BlockKind) (hb : b < s.size) (ht : ∀ t ∈ targets, t.1 < s.size) :
    (s.linked b targets).reserve kind = (s.reserve kind).linked b targets := by
  induction targets generalizing s with
  | nil => rfl
  | cons t targets ih =>
    have hsize := size_addEdge (s := s) ⟨b, t.1, t.2⟩
    refine (ih (hsize ▸ hb) fun u hu => hsize ▸ ht u (mem_cons_of_mem _ hu)).trans ?_
    rw [reserve, Graph.addBlock_addEdge s.graph kind hb (ht t mem_cons_self)]
    rfl

/-- A block can as well be reserved before the current one is left. -/
lemma reserve_leaveTo (kind : BlockKind) (next : Nat) (hs : s.current < s.size)
    (ht : ∀ t ∈ targets, t.1 < s.size) :
    (s.leaveTo targets next).reserve kind = (s.reserve kind).leaveTo targets next :=
  congrArg (fun s => { s with current := next }) (reserve_linked kind hs ht)

/-- The block after the current one can as well be reserved before the current one is left. -/
lemma cut_eq (hs : s.current < s.size) (ht : ∀ t ∈ targets, t.1 < s.size) :
    s.cut targets = (s.reserve .unreachable).leaveTo targets s.size := by
  rw [cut, size_linked, reserve_linked .unreachable hs ht]
  rfl

lemma joined_reserve (h : s.graph.Joined) (kind : BlockKind) : (s.reserve kind).graph.Joined := by
  intro e he
  have := h e he
  have hsize : (s.reserve kind).graph.blocks.length = s.graph.blocks.length + 1 := size_reserve kind
  omega

lemma joined_linked (h : s.graph.Joined) (hb : b < s.size) (ht : ∀ t ∈ targets, t.1 < s.size) :
    (s.linked b targets).graph.Joined := by
  induction targets generalizing s with
  | nil => exact h
  | cons t targets ih =>
    have hsize := size_addEdge (s := s) ⟨b, t.1, t.2⟩
    refine ih (fun e he => ?_) (hsize ▸ hb) fun u hu => hsize ▸ ht u (mem_cons_of_mem _ hu)
    rw [← size, hsize]
    rcases mem_append.mp he with he | he
    · exact h e he
    · rw [mem_singleton] at he
      subst he
      exact ⟨hb, ht t mem_cons_self⟩

lemma same_reserve (kind : BlockKind) (h : b < s.size) :
    Graph.Same b s.graph (s.reserve kind).graph :=
  ⟨congrArg BasicBlock.nodes (Graph.block_addBlock s.graph kind h), rfl⟩

lemma same_placed (n : Node) (h : b ≠ s.current) : Graph.Same b s.graph (s.placed n).graph :=
  ⟨congrArg BasicBlock.nodes (Graph.block_addNode s.graph s.current n h), rfl⟩

lemma same_linked {c : Nat} (targets : List (Nat × EdgeKind)) (h : b ≠ c) :
    Graph.Same b s.graph (s.linked c targets).graph :=
  ⟨nodes_linked targets b, successors_linked_of_ne targets h⟩

lemma same_leaveTo (next : Nat) (h : b ≠ s.current) :
    Graph.Same b s.graph (s.leaveTo targets next).graph :=
  same_linked targets h

/-! ## Being ready for a statement -/

/-- **Ready for the next statement**: the current block exists, and no edge leaves it yet. -/
structure Ready (s : Lowering) : Prop where
  current_lt : s.current < s.size
  unended : s.graph.successors s.current = []
  joined : s.graph.Joined

lemma Ready.reserve (hs : s.Ready) (kind : BlockKind) : (s.reserve kind).Ready where
  current_lt := by
    have := hs.current_lt
    rw [size_reserve]
    exact Nat.lt_succ_of_lt this
  unended := hs.unended
  joined := joined_reserve hs.joined kind

lemma Ready.placed (hs : s.Ready) (n : Node) : (s.placed n).Ready where
  current_lt := by
    rw [size_placed]
    exact hs.current_lt
  unended := hs.unended
  joined e he := by
    have hsize : (s.placed n).graph.blocks.length = s.graph.blocks.length := size_placed n
    rw [hsize]
    exact hs.joined e he

/-- A lowering can go on at a block that no edge leaves. -/
lemma Ready.leaveTo {next : Nat} (hs : s.Ready) (ht : ∀ t ∈ targets, t.1 < s.size)
    (hnext : next < s.size) (hne : next ≠ s.current) (hnil : s.graph.successors next = []) :
    (s.leaveTo targets next).Ready where
  current_lt := by
    rw [size_leaveTo]
    exact hnext
  unended := (successors_linked_of_ne targets hne).trans hnil
  joined := joined_linked hs.joined hs.current_lt ht

/-! ## Growth -/

/-- **Growth.**  What a lowering does to the graph while it lowers a statement. -/
structure Grows (s s' : Lowering) : Prop where
  size_le : s.size ≤ s'.size
  same : ∀ b < s.size, b ≠ s.current → Graph.Same b s.graph s'.graph
  nodes : (s.graph.block s.current).nodes <+: (s'.graph.block s.current).nodes
  moved : s'.current = s.current ∨ s.size ≤ s'.current

lemma Grows.refl (s : Lowering) : s.Grows s :=
  ⟨le_refl _, fun _ _ _ => ⟨rfl, rfl⟩, prefix_refl _, Or.inl rfl⟩

lemma Grows.placed (hs : s.Ready) (n : Node) : s.Grows (s.placed n) where
  size_le := by rw [size_placed]
  same _ _ hne := same_placed n hne
  nodes := by
    refine ⟨[n], ?_⟩
    exact (Graph.nodes_addNode s.graph n hs.current_lt).symm
  moved := Or.inl rfl

lemma Grows.trans (hs : s.Ready) (h : s.Grows s') (h' : s'.Grows s'') : s.Grows s'' where
  size_le := h.size_le.trans h'.size_le
  same b hb hne := by
    have hsize := h.size_le
    have hmoved := h.moved
    exact (h.same b hb hne).trans (h'.same b (by omega) (by omega))
  nodes := by
    by_cases hm : s'.current = s.current
    · exact h.nodes.trans (hm ▸ h'.nodes)
    · have hlt := hs.current_lt
      have hsize := h.size_le
      rw [(h'.same s.current (by omega) (Ne.symm hm)).1]
      exact h.nodes
  moved := by
    have hsize := h.size_le
    rcases h.moved with hm | hm
    · rcases h'.moved with hm' | hm'
      · exact Or.inl (hm'.trans hm)
      · exact Or.inr (hsize.trans hm')
    · rcases h'.moved with hm' | hm'
      · exact Or.inr (hm'.symm ▸ hm)
      · exact Or.inr (hsize.trans hm')

/-! ## Building a compound statement -/

/-- A block that was reserved and not used yet. -/
structure Vacant (s : Lowering) (b : Nat) : Prop where
  lt : b < s.size
  ne : b ≠ s.current
  nodes : (s.graph.block b).nodes = []
  successors : s.graph.successors b = []

/-- **Building.**  The lowering of a compound statement that began at `s` has come to `s'`, where
the blocks in `pending` wait to be used. -/
structure Builds (s : Lowering) (pending : List Nat) (s' : Lowering) : Prop where
  start : s.Ready
  ready : s'.Ready
  grows : s.Grows s'
  vacant : ∀ b ∈ pending, s.size ≤ b ∧ s'.Vacant b

variable {pending pending' : List Nat}

lemma Ready.builds (hs : s.Ready) : s.Builds [] s :=
  ⟨hs, hs, .refl s, fun _ h => absurd h not_mem_nil⟩

lemma Builds.reserve (h : s.Builds pending s') (kind : BlockKind) :
    s.Builds (s'.size :: pending) (s'.reserve kind) where
  start := h.start
  ready := h.ready.reserve kind
  grows := by
    have hsize := h.grows.size_le
    refine ⟨?_, ?_, ?_, h.grows.moved⟩
    · rw [size_reserve]
      omega
    · intro b hb hne
      exact (h.grows.same b hb hne).trans (same_reserve kind (by omega))
    · have hlt := h.start.current_lt
      rw [(same_reserve kind (show s.current < s'.size by omega)).1]
      exact h.grows.nodes
  vacant := by
    intro b hb
    rcases mem_cons.mp hb with rfl | hb
    · refine ⟨h.grows.size_le, ?_, ?_, Graph.nodes_addBlock _ kind (Nat.le_refl _), ?_⟩
      · rw [size_reserve]
        exact Nat.lt_succ_self _
      · exact (Nat.ne_of_lt h.ready.current_lt).symm
      · exact h.ready.joined.successors_eq_nil (Nat.le_refl _)
    · obtain ⟨hle, hv⟩ := h.vacant b hb
      have hsame := same_reserve kind hv.lt
      refine ⟨hle, ?_, hv.ne, ?_, ?_⟩
      · rw [size_reserve]
        exact Nat.lt_succ_of_lt hv.lt
      · rw [hsame.1]
        exact hv.nodes
      · rw [hsame.2]
        exact hv.successors

/-- What grows in between does not touch the blocks that wait. -/
lemma Builds.run (h : s.Builds pending s') (hready : s''.Ready) (hgrows : s'.Grows s'') :
    s.Builds pending s'' where
  start := h.start
  ready := hready
  grows := h.grows.trans h.start hgrows
  vacant := by
    intro b hb
    obtain ⟨hle, hv⟩ := h.vacant b hb
    have hsame := hgrows.same b hv.lt hv.ne
    have hlt := hv.lt
    have hne := hv.ne
    have hsize := hgrows.size_le
    have hmoved := hgrows.moved
    refine ⟨hle, by omega, by omega, ?_, ?_⟩
    · rw [hsame.1]
      exact hv.nodes
    · rw [hsame.2]
      exact hv.successors

/-- The current block is left for one that waits. -/
lemma Builds.leaveTo (h : s.Builds pending s') (targets : List (Nat × EdgeKind)) (next : Nat)
    (ht : ∀ t ∈ targets, t.1 < s'.size) (hnext : next ∈ pending)
    (hsub : ∀ b ∈ pending', b ∈ pending ∧ b ≠ next) :
    s.Builds pending' (s'.leaveTo targets next) where
  start := h.start
  ready := by
    have hv := (h.vacant next hnext).2
    exact h.ready.leaveTo ht hv.lt hv.ne hv.successors
  grows := by
    have hmoved := h.grows.moved
    have hnew := h.vacant next hnext
    refine ⟨?_, ?_, ?_, Or.inr hnew.1⟩
    · rw [size_leaveTo]
      exact h.grows.size_le
    · intro b hb hne
      exact (h.grows.same b hb hne).trans (same_leaveTo next (by omega))
    · show _ <+: ((s'.linked s'.current targets).graph.block s.current).nodes
      rw [nodes_linked]
      exact h.grows.nodes
  vacant := by
    intro b hb
    obtain ⟨hmem, hne⟩ := hsub b hb
    obtain ⟨hle, hv⟩ := h.vacant b hmem
    have hsame : Graph.Same b s'.graph (s'.leaveTo targets next).graph := same_leaveTo next hv.ne
    refine ⟨hle, ?_, hne, ?_, ?_⟩
    · rw [size_leaveTo]
      exact hv.lt
    · rw [hsame.1]
      exact hv.nodes
    · rw [hsame.2]
      exact hv.successors

/-- A block that waited is entered at its start. -/
lemma Builds.position_leaveTo {next : Nat} (h : s.Builds pending s') (hnext : next ∈ pending) :
    (s'.leaveTo targets next).position = ⟨next, 0⟩ := by
  show (⟨next, ((s'.linked s'.current targets).graph.block next).nodes.length⟩ : Position) = _
  rw [nodes_linked, (h.vacant next hnext).2.nodes]
  rfl

/-! ## Keeping -/

/-- **Keeping.**  A graph keeps what was laid between two moments, apart from the blocks that
wait. -/
structure Kept (s : Lowering) (pending : List Nat) (s' : Lowering) (g : Graph) : Prop where
  same : ∀ b, b = s.current ∨ s.size ≤ b → b < s'.size → b ≠ s'.current → b ∉ pending →
    Graph.Same b s'.graph g
  nodes : (s'.graph.block s'.current).nodes <+: (g.block s'.current).nodes

variable {g : Graph}

/-- What is kept of the whole is kept of every part of it. -/
lemma Builds.kept_run (h : s.Builds pending s') (hgrows : s'.Grows s'')
    (hk : s.Kept pending s'' g) :
    s.Kept pending s' g ∧ s'.Kept [] s'' g := by
  have hsize := h.grows.size_le
  have hsize' := hgrows.size_le
  have hmoved := h.grows.moved
  have hmoved' := hgrows.moved
  have hlt := h.ready.current_lt
  have hcur : s'.current ∉ pending := fun hmem => (h.vacant _ hmem).2.ne rfl
  refine ⟨⟨?_, ?_⟩, ⟨?_, hk.nodes⟩⟩
  · -- what came first is not touched by what comes next
    intro b hb hbs hne hmem
    exact (hgrows.same b hbs hne).trans (hk.same b hb (by omega) (by omega) hmem)
  · by_cases hm : s''.current = s'.current
    · exact hgrows.nodes.trans (hm ▸ hk.nodes)
    · rw [(hk.same s'.current hmoved (by omega) (Ne.symm hm) hcur).1]
      exact hgrows.nodes
  · intro b hb hbs hne _
    refine hk.same b (by omega) hbs hne ?_
    intro hmem
    have hv := (h.vacant b hmem).2
    rcases hb with rfl | hb
    · exact hv.ne rfl
    · exact absurd hv.lt (Nat.not_lt.mpr hb)

/-- A block that is still as it was when it was left ends with the edges that were added then. -/
lemma Ready.endsAt {next : Nat} (hs : s.Ready)
    (hg : Graph.Same s.current (s.leaveTo targets next).graph g) :
    g.EndsAt s.position (targets.map Prod.fst) := by
  refine ⟨?_, ?_⟩
  · rw [position, hg.1.trans (nodes_linked targets _)]
  · show g.successors s.current = _
    rw [hg.2]
    show (s.linked s.current targets).graph.successors s.current = _
    rw [successors_linked, hs.unended, nil_append]

lemma Builds.kept_leaveTo {next : Nat} (h : s.Builds pending s') (hnext : next ∈ pending)
    (hsub : ∀ b ∈ pending', b ∈ pending ∧ b ≠ next)
    (hk : s.Kept pending' (s'.leaveTo targets next) g) :
    s.Kept pending s' g ∧ g.EndsAt s'.position (targets.map Prod.fst) := by
  have hcur : s'.current ∉ pending := fun hmem => (h.vacant _ hmem).2.ne rfl
  have hlast : Graph.Same s'.current (s'.leaveTo targets next).graph g := by
    refine hk.same _ h.grows.moved ?_ ?_ (fun hmem => hcur (hsub _ hmem).1)
    · rw [size_leaveTo]
      exact h.ready.current_lt
    · exact (h.vacant next hnext).2.ne.symm
  refine ⟨⟨?_, ?_⟩, h.ready.endsAt hlast⟩
  · intro b hb hlt hne hmem
    refine (same_leaveTo next hne).trans (hk.same b hb ?_ ?_ (fun hb' => hmem (hsub b hb').1))
    · rw [size_leaveTo]
      exact hlt
    · intro heq
      exact hmem (heq ▸ hnext)
  · rw [hlast.1]
    exact (nodes_linked targets _).symm ▸ prefix_refl _

lemma position_reserve (hs : s.Ready) (kind : BlockKind) :
    (s.reserve kind).position = s.position := by
  have hsame := same_reserve kind hs.current_lt
  show (⟨s.current, ((s.reserve kind).graph.block s.current).nodes.length⟩ : Position) = _
  rw [hsame.1]
  rfl

/-- A block can as well be reserved before a node is placed. -/
lemma reserve_placed (hs : s.Ready) (n : Node) (kind : BlockKind) :
    (s.placed n).reserve kind = (s.reserve kind).placed n :=
  congrArg (fun g => { s with graph := g }) (Graph.addBlock_addNode s.graph n kind hs.current_lt)

/-- The node that was placed is where it was placed. -/
lemma Kept.holds {n : Node} (hs : s.Ready) (hk : s.Kept [] (s.placed n) g) :
    g.Holds s.position n := by
  obtain ⟨rest, hrest⟩ := hk.nodes
  have hnodes : ((s.placed n).graph.block s.current).nodes =
      (s.graph.block s.current).nodes ++ [n] :=
    Graph.nodes_addNode s.graph n hs.current_lt
  have hg : (g.block s.current).nodes = (s.graph.block s.current).nodes ++ [n] ++ rest := by
    rw [← hnodes]
    exact hrest.symm
  rw [Graph.Holds, position, hg]
  simp

lemma position_placed (hs : s.Ready) (n : Node) : (s.placed n).position = s.position.next := by
  have hnodes : ((s.placed n).graph.block s.current).nodes =
      (s.graph.block s.current).nodes ++ [n] :=
    Graph.nodes_addNode s.graph n hs.current_lt
  show (⟨s.current, ((s.placed n).graph.block s.current).nodes.length⟩ : Position) = _
  rw [hnodes, length_append]
  rfl

end Lowering

end Recast.Flow
