import Recast.Proofs.Syntax.Preorder
import Recast.Proofs.Syntax.Shifting

/-!
# A unit around one body

The surroundings of a body are a unit with a gap in the place of the body of one function.  Filled
with two different bodies they give two units, whose nodes correspond: those before the body have
the same numbers, and those behind it numbers that differ by the sizes of the two bodies.

* `Surroundings.shift` — the number of a node outside the body in the other unit.
* `Surroundings.numbered_fill` — the numbered unit, part by part.
* `Surroundings.relabel_before`, `Surroundings.relabel_after` — the parts of the other unit are the
  same, but for the numbers behind the body.
* `Surroundings.filter_walk` — the visits outside the body.
-/

namespace Recast

open List

/-- A unit but for the body of one of its functions. -/
structure Surroundings where
  mark : Mark
  package : Ident
  imports : List Import
  /-- The declarations before the function. -/
  before : List Node
  declMark : Mark
  name : Ident
  type : FuncType
  /-- The declarations behind the function. -/
  after : List Node

/-- The body of a function as a list of nodes: none or one. -/
def blockOfBody (body : Option Block) : List Node := body.toList.map .block

/-- How many nodes a body has. -/
def bodySize (body : Option Block) : Nat := (preorderAll (blockOfBody body)).length

namespace Surroundings

variable (S : Surroundings) (body body' : Option Block)

/-- The unit with a body in the gap. -/
def fill : File :=
  ⟨S.mark, S.package, S.imports, S.before ++ .funcDecl S.declMark S.name S.type body :: S.after⟩

/-- What comes between the unit itself and the function. -/
def front : List Node := .ident S.package :: S.imports.map .importSpec ++ S.before

/-- What comes between the function itself and its body. -/
def head : List Node := [.ident S.name, .funcType S.type]

/-- The number of the function. -/
def declNumber : Nat := 1 + (preorderAll S.front).length

/-- The number of the first node of the body: that many nodes come before it in the walk. -/
def start : Nat := S.declNumber + 1 + (preorderAll S.head).length

/-- A number that no node of the body has. -/
def Outside (k : Nat) : Prop := k < S.start ∨ S.start + bodySize body ≤ k

instance (k : Nat) : Decidable (S.Outside body k) := inferInstanceAs (Decidable (_ ∨ _))

/-- The number in the unit with the other body: behind the body it changes by the difference in
size. -/
def shift (k : Nat) : Nat := if k < S.start then k else k - bodySize body + bodySize body'

lemma shift_of_lt {k : Nat} (h : k < S.start) : S.shift body body' k = k := if_pos h

lemma shift_of_le {k : Nat} (h : S.start + bodySize body ≤ k) :
    S.shift body body' k = S.start + bodySize body' + (k - (S.start + bodySize body)) := by
  rw [shift, if_neg (by omega)]
  omega

/-- What is outside one body comes to be outside the other. -/
lemma outside_shift {k : Nat} (h : S.Outside body k) : S.Outside body' (S.shift body body' k) := by
  rcases h with h | h
  · rw [shift_of_lt _ _ _ h]
    exact Or.inl h
  · rw [shift_of_le _ _ _ h]
    exact Or.inr (Nat.le_add_right _ _)

/-- No two numbers outside become one. -/
lemma shift_inj {k l : Nat} (hk : S.Outside body k) (hl : S.Outside body l)
    (h : S.shift body body' k = S.shift body body' l) : k = l := by
  rcases hk with hk | hk <;> rcases hl with hl | hl
  · rwa [shift_of_lt _ _ _ hk, shift_of_lt _ _ _ hl] at h
  · rw [shift_of_lt _ _ _ hk, shift_of_le _ _ _ hl] at h
    omega
  · rw [shift_of_le _ _ _ hk, shift_of_lt _ _ _ hl] at h
    omega
  · rw [shift_of_le _ _ _ hk, shift_of_le _ _ _ hl] at h
    omega

end Surroundings

/-! ## Counting -/

/-- Numbering takes one number for each node. -/
lemma numberNodes_snd (ns : List Node) (k : Nat) :
    (numberNodes ns k).2 = k + (preorderAll ns).length := by
  induction ns using preorderAll.induct generalizing k with
  | case1 =>
    rw [numberNodes, preorderAll]
    rfl
  | case2 n ns ih =>
    obtain ⟨-, hchildren⟩ := n.numbered_eq k
    have hnext : numberNodes (n.children ++ ns) (k + 1) =
        ((n.numbered k).1.children ++ (numberNodes ns (n.numbered k).2).1,
            (numberNodes ns (n.numbered k).2).2) := by
      rw [numberNodes_append, ← hchildren]
    have h := ih (k + 1)
    rw [hnext] at h
    rw [preorderAll, length_cons]
    show (numberNodes ns (n.numbered k).2).2 = _
    rw [h]
    omega

namespace Surroundings

variable (S : Surroundings) (body body' : Option Block)

/-- The number of the first declaration. -/
def firstDecl : Nat := (Import.numberAll S.imports 2).2

/-- The numbered surroundings; what comes behind the body is left as it is. -/
def numbered : Surroundings where
  mark := { S.mark with id := 0 }
  package := { S.package with mark := { S.package.mark with id := 1 } }
  imports := (Import.numberAll S.imports 2).1
  before := (numberNodes S.before S.firstDecl).1
  declMark := { S.declMark with id := S.declNumber }
  name := { S.name with mark := { S.name.mark with id := S.declNumber + 1 } }
  type := (S.type.numbered (S.declNumber + 2)).1
  after := S.after

lemma declNumber_eq : (numberNodes S.before S.firstDecl).2 = S.declNumber := by
  have himports : S.firstDecl = 2 + (preorderAll (S.imports.map .importSpec)).length := by
    rw [← numberNodes_snd, numberNodes_imports]
    rfl
  rw [numberNodes_snd, himports, declNumber, front, cons_append, preorderAll,
    Node.children, nil_append, preorderAll_append, length_cons, length_append]
  omega

lemma start_eq : (S.type.numbered (S.declNumber + 2)).2 = S.start := by
  have h := numberNodes_snd [.funcType S.type] (S.declNumber + 2)
  have hhead : (preorderAll S.head).length = 1 + (preorderAll [.funcType S.type]).length := by
    rw [head, preorderAll, Node.children, nil_append, length_cons]
    omega
  rw [start, hhead]
  refine Eq.trans ?_ (h.trans ?_)
  · rfl
  · omega

lemma behind_eq : (numberBody body S.start).2 = S.start + bodySize body := by
  have h := numberNodes_snd (blockOfBody body) S.start
  rw [blockOfBody, numberNodes_body] at h
  exact h

/-- **The numbered unit**: the numbered surroundings, the body with its numbers, and what comes
behind with the next ones. -/
lemma numbered_fill : (S.fill body).numbered =
    { S.numbered with after := (numberNodes S.after (S.start + bodySize body)).1 }.fill
      (numberBody body S.start).1 := by
  have hsplit : (S.fill body).numbered = ⟨S.numbered.mark, S.numbered.package, S.numbered.imports,
      (numberNodes (S.before ++ .funcDecl S.declMark S.name S.type body :: S.after)
        S.firstDecl).1⟩ := rfl
  rw [hsplit, numberNodes_append, S.declNumber_eq]
  have hcons : numberNodes (.funcDecl S.declMark S.name S.type body :: S.after) S.declNumber =
      (.funcDecl S.numbered.declMark S.numbered.name S.numbered.type
          (numberBody body (S.type.numbered (S.declNumber + 2)).2).1 ::
        (numberNodes S.after (numberBody body (S.type.numbered (S.declNumber + 2)).2).2).1,
        (numberNodes S.after (numberBody body (S.type.numbered (S.declNumber + 2)).2).2).2) := rfl
  rw [hcons, S.start_eq, behind_eq]
  rfl

/-! ## Numbers of parts -/

end Surroundings

/-- The numbers that nodes get lie in a row. -/
lemma id_of_mem_numberNodes {ns : List Node} {k : Nat} {n : Node}
    (h : n ∈ preorderAll (numberNodes ns k).1) :
    k ≤ n.id ∧ n.id < k + (preorderAll ns).length := by
  have hid := mem_map_of_mem (f := Node.id) h
  rw [map_id_preorderAll_numberNodes] at hid
  exact mem_range'_1.mp hid

/-- The visits of some trees are those of their nodes. -/
lemma map_node_visitsAll (above ns : List Node) :
    (visitsAll above ns).map Visit.node = preorderAll ns := by
  have hvisits : visitsAll above ns = Visit.unfold (fun _ => true) (ns.map (⟨·, above⟩)) := by
    rw [visitsAll_eq, Visit.unfold_eq, flatMap_map, filter_true]
  rw [hvisits, Visit.map_node_unfold, map_map, filter_true]
  exact congrArg preorderAll (map_id ns)

namespace Surroundings

variable (S : Surroundings) (body body' : Option Block)

lemma declNumber_lt_start : S.declNumber + 1 < S.start := by
  have hhead : 0 < (preorderAll S.head).length := by
    rw [head, preorderAll]
    exact Nat.succ_pos _
  rw [start]
  omega

variable {n : Node}

lemma id_before (h : n ∈ preorderAll S.numbered.before) : n.id < S.start := by
  have hlt := (id_of_mem_numberNodes h).2
  rw [← numberNodes_snd, declNumber_eq] at hlt
  have := S.declNumber_lt_start
  omega

lemma id_type (h : n ∈ preorderAll [.funcType S.numbered.type]) : n.id < S.start := by
  have hmem : n ∈ preorderAll (numberNodes [.funcType S.type] (S.declNumber + 2)).1 := h
  have hlt := (id_of_mem_numberNodes hmem).2
  rw [← numberNodes_snd] at hlt
  exact Nat.lt_of_lt_of_eq hlt S.start_eq

lemma id_body (h : n ∈ preorderAll (blockOfBody (numberBody body S.start).1)) :
    ¬S.Outside body n.id := by
  have hbody : blockOfBody (numberBody body S.start).1 =
      (numberNodes (blockOfBody body) S.start).1 := by
    rw [blockOfBody, blockOfBody, numberNodes_body]
  rw [hbody] at h
  obtain ⟨hle, hlt⟩ := id_of_mem_numberNodes h
  rintro (hlt' | hle')
  · omega
  · rw [bodySize] at hle'
    omega

lemma id_after (h : n ∈ preorderAll (numberNodes S.after (S.start + bodySize body)).1) :
    S.Outside body n.id :=
  Or.inr (id_of_mem_numberNodes h).1

/-! ## The other unit -/

open Relabeling (renumber)

/-- Before the body nothing changes. -/
lemma relabel_mark {m : Mark} (h : m.id < S.start) :
    m.relabel (renumber (S.shift body body')) = m := by
  show (⟨S.shift body body' m.id, m.loc⟩ : Mark) = m
  rw [shift_of_lt _ _ _ h]

/-- What is numbered before the body keeps its numbers. -/
lemma relabel_shifts {α : Type} {x : StateM Nat α} {f : α → α}
    (hx : Shifts (S.shift body body') x x f) {a : Nat}
    (ha : (x a).2 ≤ S.start) : f (x a).1 = (x a).1 := by
  refine ((hx.shift a a fun k hk hk' => ?_).1).symm
  rw [shift_of_lt _ _ _ (Nat.lt_of_lt_of_le hk' ha)]
  omega

lemma relabel_before :
    S.numbered.before.map (Node.relabel (renumber (S.shift body body'))) = S.numbered.before := by
  rw [← relabelAll_eq]
  refine S.relabel_shifts body body' (shiftsAll S.before) ?_
  rw [declNumber_eq]
  exact Nat.le_of_lt (Nat.lt_of_succ_lt S.declNumber_lt_start)

lemma relabel_type : S.numbered.type.relabel (renumber (S.shift body body')) = S.numbered.type := by
  refine S.relabel_shifts body body' S.type.shifts ?_
  exact Nat.le_of_eq S.start_eq

lemma relabel_imports :
    S.numbered.imports.map (Import.relabel (renumber (S.shift body body'))) =
      S.numbered.imports := by
  refine S.relabel_shifts body body' (Import.shiftsAll S.imports) ?_
  have hle : S.firstDecl ≤ S.declNumber := by
    rw [← declNumber_eq, numberNodes_snd]
    exact Nat.le_add_right _ _
  exact Nat.le_trans hle (Nat.le_of_lt (Nat.lt_of_succ_lt S.declNumber_lt_start))

/-- **Behind the body** the numbers change as `shift` says. -/
lemma relabel_after :
    (numberNodes S.after (S.start + bodySize body)).1.map
      (Node.relabel (renumber (S.shift body body'))) =
      (numberNodes S.after (S.start + bodySize body')).1 := by
  rw [← relabelAll_eq]
  exact ((shiftsAll S.after).shift _ _ fun k hk _ => S.shift_of_le body body' hk).1.symm

/-! ## The walk -/

/-- The numbered unit as a node. -/
def root : Node := (S.fill body).numbered.node

/-- The numbered function as a node. -/
def decl : Node :=
  .funcDecl S.numbered.declMark S.numbered.name S.numbered.type (numberBody body S.start).1

/-- What comes behind the function, with its numbers. -/
def rear : List Node := (numberNodes S.after (S.start + bodySize body)).1

lemma numberNodes_front : numberNodes S.front 1 = (S.numbered.front, S.declNumber) := by
  have hcons : numberNodes S.front 1 = (.ident S.numbered.package ::
      (numberNodes (S.imports.map .importSpec ++ S.before) 2).1,
      (numberNodes (S.imports.map .importSpec ++ S.before) 2).2) :=
    rfl
  rw [hcons, numberNodes_append, numberNodes_imports, ← S.declNumber_eq]
  rfl

lemma numberNodes_head : numberNodes S.head (S.declNumber + 1) = (S.numbered.head, S.start) := by
  rw [← S.start_eq]
  rfl

lemma outside_front (h : n ∈ preorderAll S.numbered.front) : S.Outside body n.id := by
  have hfront : S.numbered.front = (numberNodes S.front 1).1 := by rw [numberNodes_front]
  rw [hfront] at h
  have hlt := (id_of_mem_numberNodes h).2
  rw [← numberNodes_snd, numberNodes_front] at hlt
  exact Or.inl (Nat.lt_trans hlt (Nat.lt_of_succ_lt S.declNumber_lt_start))

lemma outside_head (h : n ∈ preorderAll S.numbered.head) : S.Outside body n.id := by
  have hhead : S.numbered.head =
    (numberNodes S.head (S.declNumber + 1)).1 := by rw [numberNodes_head]
  rw [hhead] at h
  have hlt := (id_of_mem_numberNodes h).2
  rw [← numberNodes_snd, numberNodes_head] at hlt
  exact Or.inl hlt

lemma outside_rear (h : n ∈ preorderAll (S.rear body)) : S.Outside body n.id := S.id_after body h

lemma outside_decl : S.Outside body (S.decl body).id :=
  Or.inl (Nat.lt_of_succ_lt S.declNumber_lt_start)

lemma outside_root : S.Outside body (S.root body).id :=
  Or.inl (Nat.lt_trans (Nat.succ_pos _) S.declNumber_lt_start)

lemma relabel_front : S.numbered.front.map (Node.relabel (renumber (S.shift body body'))) =
    S.numbered.front := by
  have h := S.relabel_shifts body body' (a := 1) (shiftsAll S.front)
  rw [numberNodes_front, relabelAll_eq] at h
  exact h (Nat.le_of_lt (Nat.lt_of_succ_lt S.declNumber_lt_start))

lemma relabel_head :
    S.numbered.head.map (Node.relabel (renumber (S.shift body body'))) = S.numbered.head := by
  have h := S.relabel_shifts body body' (a := S.declNumber + 1) (shiftsAll S.head)
  rw [numberNodes_head, relabelAll_eq] at h
  exact h (Nat.le_refl _)

/-- **The walk through the unit**: what comes before the function, the function with its body, and
what comes behind it. -/
lemma walk_root :
    (S.root body).walk = ⟨S.root body, []⟩ :: (visitsAll [S.root body] S.numbered.front ++
    (⟨S.decl body, [S.root body]⟩ :: (visitsAll [S.decl body, S.root body] S.numbered.head ++
      visitsAll [S.decl body, S.root body] (blockOfBody (numberBody body S.start).1)) ++
        visitsAll [S.root body] (S.rear body))) := by
  have hchildren : (S.root body).children = S.numbered.front ++ (S.decl body :: S.rear body) := by
    rw [root, numbered_fill]
    exact (append_assoc
      (Node.ident S.numbered.package :: S.numbered.imports.map Node.importSpec) _ _).symm
  have hdecl : (S.decl body).children = S.numbered.head ++
    blockOfBody (numberBody body S.start).1 := rfl
  rw [Node.walk_eq, Node.visits_eq, hchildren, flatMap_append, flatMap_cons, Node.visits_eq, hdecl,
    flatMap_append]
  simp only [visitsAll_eq]

/-- The visits outside the body. -/
def visitsAround : List Visit :=
  ⟨S.root body, []⟩ :: (visitsAll [S.root body] S.numbered.front ++
    (⟨S.decl body, [S.root body]⟩ :: visitsAll [S.decl body, S.root body] S.numbered.head ++
      visitsAll [S.root body] (S.rear body)))

lemma filter_walk : (S.root body).walk.filter (fun v => S.Outside body v.node.id) =
    S.visitsAround body := by
  have hkeep : ∀ (above ns : List Node), (∀ n ∈ preorderAll ns, S.Outside body n.id) →
      (visitsAll above ns).filter (fun v => S.Outside body v.node.id) = visitsAll above ns := by
    intro above ns hns
    refine filter_eq_self.mpr fun v hv => decide_eq_true (hns v.node ?_)
    rw [← map_node_visitsAll above]
    exact mem_map_of_mem hv
  have hdrop :
    (visitsAll [S.decl body, S.root body] (blockOfBody (numberBody body S.start).1)).filter
      (fun v => S.Outside body v.node.id) = [] := by
    refine filter_eq_nil_iff.mpr fun v hv => ?_
    rw [decide_eq_true_eq]
    refine S.id_body body ?_
    rw [← map_node_visitsAll [S.decl body, S.root body]]
    exact mem_map_of_mem hv
  rw [walk_root, visitsAround, filter_cons, if_pos (decide_eq_true (S.outside_root body)),
    filter_append,
    filter_append, filter_cons, if_pos (decide_eq_true (S.outside_decl body)), filter_append, hdrop,
    append_nil, hkeep _ _ fun n => S.outside_front body, hkeep _ _ fun n => S.outside_head body,
    hkeep _ _ fun n => S.outside_rear body]

/-- The nodes outside the body, in the order of the walk. -/
def nodesAround : List Node :=
  S.root body :: (preorderAll S.numbered.front ++
    (S.decl body :: preorderAll S.numbered.head ++ preorderAll (S.rear body)))

lemma filter_preorder : (S.root body).preorder.filter (fun n => S.Outside body n.id) =
    S.nodesAround body := by
  have hnodes : (S.visitsAround body).map Visit.node = S.nodesAround body := by
    simp only [visitsAround, nodesAround, map_cons, map_append, map_node_visitsAll]
  rw [Node.preorder_eq_map_walk, filter_map, ← hnodes, ← filter_walk]
  rfl

end Surroundings

end Recast
