import Recast.Proofs.Syntax.Grammar

/-!
# Where nodes stand

Places are given out one after another: the columns of a line, and then the next line.

**Rows.**  A statement of a block, a clause of a switch, a statement of a clause and an `if` behind
an `else` have a line of their own; everything else stands where the node above it has come to.
`Node.rows` lists the children of a node with this difference, and `unroll` all nodes below.

**Laying out.**  `Laid file p q rows` says that the nodes of some rows have been given their places
between the spots `p` and `q`.  A node takes the next place and its children come after it.  There
are two exceptions.  The parentheses that a conversion puts around its type take their place after
the type, and the parts of a name with points stand all at one place.

* `Laid.sorted` — literals, calls and assignments stand one behind the other, in pre-order.
* `Laid.lined` — the line of a node is found by counting the rows in front of it.
* `Laid.numbered` — places do not depend on numbers.
-/

namespace Recast

open List

/-! ## Spots -/

/-- A place comes before another one: on an earlier line, or in an earlier column of the same
line. -/
def Loc.Before (a b : Loc) : Prop := a.line < b.line ∨ a.line = b.line ∧ a.column < b.column

instance (a b : Loc) : Decidable (a.Before b) := inferInstanceAs (Decidable (_ ∨ _))

lemma Loc.Before.ne {a b : Loc} (h : a.Before b) : a ≠ b := by
  rintro rfl
  simp only [Before] at h
  omega

/-- How far places have been given out: the line, and the last column of it. -/
structure Spot where
  line : Nat
  column : Nat

namespace Spot

def loc (file : String) (p : Spot) : Loc := ⟨file, p.line, p.column⟩

/-- The next place on the line. -/
def next (p : Spot) : Spot := ⟨p.line, p.column + 1⟩

/-- The begin of the next line. -/
def newLine (p : Spot) : Spot := ⟨p.line + 1, 0⟩

def UpTo (p q : Spot) : Prop := p.line < q.line ∨ p.line = q.line ∧ p.column ≤ q.column

lemma UpTo.refl (p : Spot) : p.UpTo p := Or.inr ⟨rfl, Nat.le_refl _⟩

lemma UpTo.trans {p q r : Spot} (h : p.UpTo q) (h' : q.UpTo r) : p.UpTo r := by
  simp only [UpTo] at *
  omega

/-- A place that was given out between two spots. -/
def Spans (p q : Spot) (l : Loc) : Prop :=
  ((p.line : Int) < l.line ∨ (p.line : Int) = l.line ∧ (p.column : Int) < l.column) ∧
  (l.line < (q.line : Int) ∨ l.line = (q.line : Int) ∧ l.column ≤ (q.column : Int))

lemma Spans.widen {p p' q q' : Spot} {l : Loc} (h : p.Spans q l) (hp : p'.UpTo p) (hq : q.UpTo q') :
    p'.Spans q' l := by
  simp only [Spans, UpTo] at *
  omega

lemma Spans.before {p q r : Spot} {l l' : Loc} (h : p.Spans q l) (h' : q.Spans r l') :
    l.Before l' := by
  simp only [Spans, Loc.Before] at *
  omega

lemma spans_next {p q : Spot} (file : String) (h : p.next.UpTo q) :
    p.Spans q (p.next.loc file) := by
  simp only [Spans, UpTo, next, loc, true_and] at h ⊢
  omega

lemma upTo_next (p : Spot) : p.UpTo p.next := Or.inr ⟨rfl, Nat.le_succ _⟩

lemma upTo_newLine (p : Spot) : p.UpTo p.newLine := Or.inl (Nat.lt_succ_self _)

end Spot

/-! ## Rows -/

/-- A node, and whether it has a line of its own. -/
structure Row where
  own : Bool
  node : Node

/-- Nodes that stay on the line. -/
def inline (ns : List Node) : List Row := ns.map (⟨false, ·⟩)

/-- Nodes that have a line each. -/
def separate (ns : List Node) : List Row := ns.map (⟨true, ·⟩)

lemma inline_append (ns ms : List Node) : inline (ns ++ ms) = inline ns ++ inline ms := map_append

lemma map_node_inline (ns : List Node) : (inline ns).map Row.node = ns := by
  simp [inline, Function.comp_def]

lemma map_node_separate (ns : List Node) : (separate ns).map Row.node = ns := by
  simp [separate, Function.comp_def]

lemma row_ext {rows rows' : List Row} (hown : rows.map Row.own = rows'.map Row.own)
    (hnode : rows.map Row.node = rows'.map Row.node) : rows = rows' := by
  induction rows generalizing rows' with
  | nil =>
    rw [map_nil, eq_comm, map_eq_nil_iff] at hown
    exact hown.symm
  | cons r rows ih =>
    cases rows' with
    | nil => cases hown
    | cons r' rows' =>
      obtain ⟨own, node⟩ := r
      obtain ⟨own', node'⟩ := r'
      simp only [map_cons, List.cons.injEq] at hown hnode
      rw [hown.1, hnode.1, ih hown.2 hnode.2]

namespace Node

def isIf : Node → Bool
  | .ifStmt .. => true
  | _ => false

def isParen : Node → Bool
  | .paren .. => true
  | _ => false

/-- The children of a node, with the lines they are on. -/
def rows : Node → List Row
  | .block (.mk _ stmts) => separate stmts
  | .ifStmt _ init cond body orElse =>
    inline (init.toList ++ [cond, .block body]) ++ orElse.toList.map fun n => ⟨n.isIf, n⟩
  | .clause (.mk _ guards body) => inline (guards.getD []) ++ separate body
  | .switch _ init tag clauses =>
    inline (init.toList ++ tag.toList) ++ separate (clauses.map .clause)
  | n => inline n.children

lemma map_node_rows (n : Node) : n.rows.map Row.node = n.children := by
  cases n with
  | block b =>
    obtain ⟨m, stmts⟩ := b
    exact map_node_separate stmts
  | ifStmt m init cond body orElse =>
    rw [rows, map_append, map_node_inline, map_map, children]
    exact congrArg _ (map_id _)
  | clause c =>
    obtain ⟨m, guards, body⟩ := c
    rw [rows, map_append, map_node_inline, map_node_separate, children]
  | switch m init tag clauses => rw [rows, map_append, map_node_inline, map_node_separate, children]
  | _ => exact map_node_inline _

end Node

/-- The rows of nodes, from left to right, each followed by the rows below it. -/
def unroll : List Row → List Row
  | [] => []
  | r :: rows => r :: unroll (r.node.rows ++ rows)
termination_by rows => totalSize (rows.map Row.node)
decreasing_by
  have := r.node.totalSize_children
  rw [map_append, Node.map_node_rows, totalSize_append, map_cons, totalSize]
  omega

lemma unroll_nil : unroll [] = [] := by rw [unroll]

/-- Unrolled rows are the nodes in pre-order. -/
lemma map_node_unroll (rows : List Row) :
    (unroll rows).map Row.node = preorderAll (rows.map Row.node) := by
  induction rows using unroll.induct with
  | case1 => rw [unroll, map_nil, preorderAll]
  | case2 r rows ih =>
    rw [unroll, map_cons, ih, map_append, Node.map_node_rows, map_cons, preorderAll]

lemma unroll_append (rows rows' : List Row) :
    unroll (rows ++ rows') = unroll rows ++ unroll rows' := by
  induction rows using unroll.induct with
  | case1 =>
    rw [unroll]
    rfl
  | case2 r rows ih => rw [cons_append, unroll, unroll, cons_append, ← ih, append_assoc]

lemma unroll_singleton (r : Row) :
    unroll [r] = r :: unroll r.node.rows := by rw [unroll, append_nil]

/-- How many rows have a line of their own. -/
def lineCount (rows : List Row) : Nat := rows.countP Row.own

lemma lineCount_append (rows rows' : List Row) :
    lineCount (rows ++ rows') = lineCount rows + lineCount rows' :=
  countP_append

lemma lineCount_cons (r : Row) (rows : List Row) :
    lineCount (r :: rows) = (if r.own then 1 else 0) + lineCount rows := by
  rw [lineCount, countP_cons, Nat.add_comm]
  rfl

/-! ## Laying out -/

/-- **The nodes of some rows have been given their places** between two spots of a file. -/
inductive Laid (file : String) : Spot → Spot → List Row → Prop
  | nil (p : Spot) : Laid file p p []
  | append {p q r : Spot} {rows rows' : List Row} :
      Laid file p q rows → Laid file q r rows' → Laid file p r (rows ++ rows')
  /-- A node takes the next place, and then its children are laid out. -/
  | node {p q : Spot} {n : Node} : n.loc = p.next.loc file → Laid file p.next q n.rows →
      Laid file p q [⟨false, n⟩]
  /-- Parentheses may take their place after what they enclose. -/
  | late {p q : Spot} {m : Mark} {x : Node} :
      Laid file p q [⟨false, x⟩] → m.loc = q.next.loc file →
        Laid file p q.next [⟨false, .paren m x⟩]
  /-- The parts of a name with points stand at one place. -/
  | dotted {p : Spot} {m : Mark} {base : Node} {name : Ident} :
      Laid file p p.next [⟨false, base⟩] → m.loc = p.next.loc file →
        name.mark.loc = p.next.loc file →
        Laid file p p.next [⟨false, .select m base name⟩]
  /-- A row of its own begins a line. -/
  | line {p q : Spot} {n : Node} : Laid file p.newLine q [⟨false, n⟩] → Laid file p q [⟨true, n⟩]

section

variable {file : String} {p q : Spot} {rows : List Row}

lemma Laid.upTo (h : Laid file p q rows) : p.UpTo q := by
  induction h with
  | nil p => exact .refl p
  | append _ _ ih ih' => exact ih.trans ih'
  | node _ _ ih => exact (Spot.upTo_next _).trans ih
  | late _ _ ih => exact ih.trans (Spot.upTo_next _)
  | dotted => exact Spot.upTo_next _
  | line _ ih => exact (Spot.upTo_newLine _).trans ih

/-! ## Order -/

/-- The kinds of nodes that something may be found at. -/
def Node.isLandmark : Node → Bool
  | .composite .. => true
  | .call .. => true
  | .assign .. => true
  | _ => false

/-- The places of the landmarks below some nodes, in pre-order. -/
def landmarks (ns : List Node) : List Loc := ((preorderAll ns).filter Node.isLandmark).map Node.loc

lemma landmarks_append (ns ms : List Node) :
    landmarks (ns ++ ms) = landmarks ns ++ landmarks ms := by
  rw [landmarks, preorderAll_append, filter_append, map_append]
  rfl

lemma landmarks_landmark {n : Node} (h : n.isLandmark = true) :
    landmarks [n] = n.loc :: landmarks n.children := by
  rw [landmarks, preorderAll, append_nil, filter_cons_of_pos h, map_cons]
  rfl

lemma landmarks_plain {n : Node} (h : n.isLandmark = false) :
    landmarks [n] = landmarks n.children := by
  rw [landmarks, preorderAll, append_nil, filter_cons_of_neg (by simp [h])]
  rfl

/-- Places that come one after another between two spots. -/
def Sorted (p q : Spot) (locs : List Loc) : Prop :=
  locs.Pairwise Loc.Before ∧ ∀ l ∈ locs, p.Spans q l

lemma Sorted.widen {p' q' : Spot} {locs : List Loc} (h : Sorted p q locs)
    (hp : p'.UpTo p) (hq : q.UpTo q') :
    Sorted p' q' locs := ⟨h.1, fun l hl => (h.2 l hl).widen hp hq⟩

lemma Sorted.append {r : Spot} {locs locs' : List Loc} (h : Sorted p q locs)
    (h' : Sorted q r locs') (hp : p.UpTo q) (hq : q.UpTo r) : Sorted p r (locs ++ locs') := by
  refine ⟨pairwise_append.mpr ⟨h.1, h'.1, fun l hl l' hl' => (h.2 l hl).before (h'.2 l' hl')⟩, ?_⟩
  intro l hl
  rcases mem_append.mp hl with hl | hl
  · exact (h.2 l hl).widen (.refl p) hq
  · exact (h'.2 l hl).widen hp (.refl r)

lemma sorted_nil (p q : Spot) : Sorted p q [] := ⟨List.Pairwise.nil, nofun⟩

lemma sorted_next (p : Spot) (file : String) : Sorted p p.next [p.next.loc file] :=
  ⟨pairwise_singleton _ _, by simpa using Spot.spans_next file (.refl p.next)⟩

/-- **Landmarks stand one behind the other**, in pre-order. -/
theorem Laid.sorted (h : Laid file p q rows) : Sorted p q (landmarks (rows.map Row.node)) := by
  induction h with
  | nil p =>
    rw [map_nil, landmarks, preorderAll]
    exact sorted_nil p p
  | append h h' ih ih' =>
    rw [map_append, landmarks_append]
    exact ih.append ih' h.upTo h'.upTo
  | @node p q n hloc h ih =>
    rw [Node.map_node_rows] at ih
    have hq : p.next.UpTo q := h.upTo
    show Sorted p q (landmarks [n])
    cases hn : n.isLandmark with
    | true =>
      rw [landmarks_landmark hn, hloc]
      exact (sorted_next p file).append ih (Spot.upTo_next p) hq
    | false =>
      rw [landmarks_plain hn]
      exact ih.widen (Spot.upTo_next p) (.refl q)
  | @late p q m x h hm ih =>
    show Sorted p q.next (landmarks [.paren m x])
    rw [landmarks_plain rfl]
    exact ih.widen (.refl p) (Spot.upTo_next q)
  | @dotted p m base name h hm hname ih =>
    have hname : landmarks [.ident name] =
      [] := by simp [landmarks, preorderAll, Node.children, Node.isLandmark]
    have hselect : landmarks (Node.select m base name).children = landmarks [base] := by
      rw [Node.children, ← singleton_append, landmarks_append, hname, append_nil]
    show Sorted p p.next (landmarks [.select m base name])
    rw [landmarks_plain rfl, hselect]
    exact ih
  | @line p q n h ih => exact ih.widen (Spot.upTo_newLine p) (.refl q)

/-! ## Lines -/

/-- A row has been put on a line.  Only parentheses may be further down, and not behind what they
enclose. -/
def Row.On (r : Row) (line : Nat) : Prop :=
  (line : Int) ≤ r.node.loc.line ∧ r.node.loc.line ≤ line + lineCount (unroll r.node.rows) ∧
  (r.node.isParen = false → r.node.loc.line = line)

/-- Each row is on the line that the rows in front of it lead to. -/
def Lined (line : Nat) : List Row → Prop
  | [] => True
  | r :: rows => r.On (line + if r.own then 1 else 0) ∧ Lined (line + if r.own then 1 else 0) rows

lemma lined_append {line : Nat} {rows rows' : List Row} :
    Lined line (rows ++ rows') ↔ Lined line rows ∧ Lined (line + lineCount rows) rows' := by
  induction rows generalizing line with
  | nil => simp [Lined, lineCount]
  | cons r rows ih => rw [cons_append, Lined, Lined, ih, lineCount_cons, and_assoc, Nat.add_assoc]

lemma on_of_loc {n : Node} {own : Bool} {line : Nat} (h : n.loc.line = line) :
    Row.On ⟨own, n⟩ line :=
  ⟨Int.le_of_eq h.symm, by dsimp only; omega, fun _ => h⟩

/-- **The line of a node is found by counting the rows in front of it.** -/
theorem Laid.lined (h : Laid file p q rows) : Lined p.line (unroll rows) ∧
    q.line = p.line + lineCount (unroll rows) := by
  induction h with
  | nil p =>
    rw [unroll]
    exact ⟨trivial, rfl⟩
  | @append p q r rows rows' _ _ ih ih' =>
    rw [unroll_append, lined_append, lineCount_append, ← ih.2]
    exact ⟨⟨ih.1, ih'.1⟩, by omega⟩
  | @node p q n hloc _ ih =>
    rw [unroll_singleton, Lined, lineCount_cons]
    refine ⟨⟨on_of_loc (by rw [hloc]; rfl), ih.1⟩, ?_⟩
    simpa [Spot.next] using ih.2
  | @late p q m x _ hm ih =>
    rw [unroll_singleton, Lined, lineCount_cons]
    have hrows : (Node.paren m x).rows = [⟨false, x⟩] := rfl
    have hline : (Node.paren m x).loc.line = q.line := by
      show m.loc.line = q.line
      rw [hm]
      rfl
    have hq := ih.2
    refine ⟨⟨⟨?_, ?_, nofun⟩, ih.1⟩, ?_⟩
    · rw [hline]
      simp
      omega
    · rw [hline, hrows]
      simp
      omega
    · rw [hrows]
      simpa [Spot.next] using hq
  | @dotted p m base name _ hm hname ih =>
    have hnone : lineCount (unroll [⟨false, base⟩]) = 0 := by
      have := ih.2
      simp only [Spot.next] at this
      omega
    have hident : unroll [(⟨false, .ident name⟩ : Row)] = [⟨false, .ident name⟩] := by
      rw [unroll_singleton]
      exact congrArg _ unroll_nil
    have hrows : unroll (Node.select m base name).rows = unroll [⟨false, base⟩] ++
        [⟨false, .ident name⟩] := by
      rw [← hident, ← unroll_append]
      rfl
    rw [unroll_singleton, Lined, lineCount_cons, hrows, lineCount_append, lined_append, hnone]
    refine ⟨⟨on_of_loc ?_, ih.1, on_of_loc ?_, trivial⟩, rfl⟩
    · show m.loc.line = _
      rw [hm]
      rfl
    · show name.mark.loc.line = _
      rw [hname]
      rfl
  | @line p q n _ ih =>
    rw [unroll_singleton, Lined, lineCount_cons] at ih ⊢
    refine ⟨ih.1, ?_⟩
    have := ih.2
    simp only [Spot.newLine] at this
    simp at this ⊢
    omega

end

/-! ## Numbering -/

/-- Rows whose nodes are numbered from left to right. -/
def numberRows : List Row → Nat → List Row
  | [], _ => []
  | r :: rows, k => ⟨r.own, (r.node.numbered k).1⟩ :: numberRows rows (r.node.numbered k).2

lemma numberRows_append (rows rows' : List Row) (k : Nat) :
    numberRows (rows ++ rows') k = numberRows rows k ++
      numberRows rows' (numberNodes (rows.map Row.node) k).2 := by
  induction rows generalizing k with
  | nil => rfl
  | cons r rows ih => exact congrArg (_ :: ·) (ih _)

lemma map_own_numberRows (rows : List Row) (k : Nat) :
    (numberRows rows k).map Row.own = rows.map Row.own := by
  induction rows generalizing k with
  | nil => rfl
  | cons r rows ih => exact congrArg (_ :: ·) (ih _)

lemma map_node_numberRows (rows : List Row) (k : Nat) :
    (numberRows rows k).map Row.node = (numberNodes (rows.map Row.node) k).1 := by
  induction rows generalizing k with
  | nil => rfl
  | cons r rows ih => exact congrArg (_ :: ·) (ih _)

lemma length_numberNodes (ns : List Node) (k : Nat) : (numberNodes ns k).1.length = ns.length := by
  induction ns generalizing k with
  | nil => rfl
  | cons n ns ih => exact congrArg (· + 1) (ih _)

lemma map_own_inline (ns : List Node) : (inline ns).map Row.own = replicate ns.length false := by
  simp [inline, Function.comp_def, map_const']

lemma map_own_separate (ns : List Node) : (separate ns).map Row.own = replicate ns.length true := by
  simp [separate, Function.comp_def, map_const']

namespace Node

lemma children_numbered (n : Node) (k : Nat) :
    (n.numbered k).1.children = (numberNodes n.children (k + 1)).1 :=
  congrArg Prod.fst (n.numbered_eq k).2

lemma loc_numbered (n : Node) (k : Nat) : (n.numbered k).1.loc = n.loc := by
  cases n with
  | funcType t | block t =>
    cases t
    rfl
  | field t | clause t =>
    cases t
    rfl
  | _ => rfl

lemma isIf_numbered (n : Node) (k : Nat) : (n.numbered k).1.isIf = n.isIf := by
  cases n with
  | _ => rfl

lemma length_numberOption (o : Option Node) (k : Nat) :
    (numberOption o k).1.toList.length = o.toList.length := by
  cases o with
  | _ => rfl

lemma length_numberClauses (cs : List Clause) (k : Nat) :
    (numberClauses cs k).1.length = cs.length := by
  induction cs generalizing k with
  | nil => rfl
  | cons c cs ih => exact congrArg (· + 1) (ih _)

lemma map_own_rows_numbered (n : Node) (k : Nat) :
    (n.numbered k).1.rows.map Row.own = n.rows.map Row.own := by
  -- Which children have a line of their own depends on how many there are, and on the kind of the
  -- last part of an `if`.
  have hinline : ∀ (n : Node) k, (inline (n.numbered k).1.children).map Row.own =
      (inline n.children).map Row.own := by
    intro n k
    rw [map_own_inline, map_own_inline, children_numbered, length_numberNodes]
  cases n with
  | block b =>
    obtain ⟨m, stmts⟩ := b
    show (separate (numberNodes stmts (k + 1)).1).map Row.own = (separate stmts).map Row.own
    rw [map_own_separate, map_own_separate, length_numberNodes]
  | ifStmt m init cond body orElse =>
    have hlast : ∀ k,
      ((numberOption orElse k).1.toList.map fun n => (⟨n.isIf, n⟩ : Row)).map Row.own =
        (orElse.toList.map fun n => (⟨n.isIf, n⟩ : Row)).map Row.own := by
      intro k
      cases orElse with
      | none => rfl
      | some n => exact congrArg ([·]) (isIf_numbered n k)
    show (inline ((numberOption init _).1.toList ++ [_, .block _]) ++
      (numberOption orElse _).1.toList.map fun n => (⟨n.isIf, n⟩ : Row)).map Row.own = _
    rw [rows, map_append, hlast, map_own_inline, length_append, length_numberOption, map_append,
      map_own_inline, length_append]
    rfl
  | clause c =>
    obtain ⟨m, guards, body⟩ := c
    cases guards with
    | none =>
      show (separate (numberNodes body _).1).map Row.own = (separate body).map Row.own
      rw [map_own_separate, map_own_separate, length_numberNodes]
    | some ns =>
      show (inline (numberNodes ns _).1 ++ separate (numberNodes body _).1).map Row.own =
        (inline ns ++ separate body).map Row.own
      simp only [map_append, map_own_inline, map_own_separate, length_numberNodes]
  | switch m init tag clauses =>
    show (inline ((numberOption init _).1.toList ++ (numberOption tag _).1.toList) ++
      separate ((numberClauses clauses _).1.map .clause)).map Row.own =
        (inline (init.toList ++ tag.toList) ++ separate (clauses.map .clause)).map Row.own
    simp only [map_append, map_own_inline, map_own_separate, length_append,
      length_map, length_numberOption, length_numberClauses]
  | _ => exact hinline _ k

/-- Numbering a node numbers its rows. -/
lemma rows_numbered (n : Node) (k : Nat) : (n.numbered k).1.rows = numberRows n.rows (k + 1) := by
  refine row_ext ?_ ?_
  · rw [map_own_rows_numbered, map_own_numberRows]
  · rw [map_node_rows, map_node_numberRows, map_node_rows, children_numbered]

end Node

/-- **Places do not depend on numbers.** -/
theorem Laid.numbered {file : String} {p q : Spot} {rows : List Row}
    (h : Laid file p q rows) (k : Nat) :
    Laid file p q (numberRows rows k) := by
  induction h generalizing k with
  | nil p => exact .nil p
  | append _ _ ih ih' =>
    rw [numberRows_append]
    exact .append (ih k) (ih' _)
  | @node p q n hloc _ ih =>
    refine .node ((n.loc_numbered k).trans hloc) ?_
    rw [Node.rows_numbered]
    exact ih (k + 1)
  | late _ hm ih => exact .late (ih (k + 1)) hm
  | dotted _ hm hname ih => exact .dotted (ih (k + 1)) hm hname
  | line _ ih => exact .line (ih k)

end Recast
