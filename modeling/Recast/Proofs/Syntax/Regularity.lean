import Recast.Decimal.Numeral
import Recast.Proofs.Syntax.Grammar

/-!
# Regular trees

A tree is *regular* if it obeys the grammar and two things more: a type of a function is written as
part of a function only, never where an expression or another type stands, and what is a whole
literal is a numeral.

**Parts.**  A node is regular if its parts are of the categories that the grammar has for them and
regular themselves.  An `Operand` may stand where an expression stands and a `Statement` where a
statement stands; which parts stand where is a table (`operandParts`, `statementParts`).

**Numbering.**  Categories do not depend on numbers, so that numbering leaves a tree regular
(`File.Regular.numbered`).
-/

namespace Recast

open List

/-! ## Regular trees -/

namespace Node

def isFuncType : Node → Bool
  | .funcType _ => true
  | _ => false

/-- An expression or a type, other than a bare type of a function. -/
def isOperand (n : Node) : Bool := n.isExpression && !n.isFuncType

/-- Whether a whole literal is a numeral. -/
def isLegible : Node → Bool
  | .literal _ .int value => (Numeral.integer? value).isSome
  | _ => true

/-- Whether the parts of a node are of the right categories, and none is a type of a function that
belongs to no function. -/
def isRegular (n : Node) : Bool :=
  n.isProper && n.isLegible && (n.isFunction || n.children.all fun c => !c.isFuncType)

/-- **Regular trees.** -/
def Regular (n : Node) : Prop := ∀ m ∈ n.preorder, m.isRegular = true

variable {n c : Node}

lemma mem_preorderAll_iff {m : Node} {ns : List Node} :
    m ∈ preorderAll ns ↔ ∃ n ∈ ns, m ∈ n.preorder := by
  induction ns with
  | nil => simp [preorderAll]
  | cons n ns ih =>
    have hcons : preorderAll (n :: ns) = preorderAll [n] ++ preorderAll ns :=
      preorderAll_append [n] ns
    rw [hcons, mem_append, ih, exists_mem_cons_iff, preorder_eq]

lemma mem_preorder_iff {m : Node} : m ∈ n.preorder ↔ m = n ∨ ∃ c ∈ n.children, m ∈ c.preorder := by
  rw [preorder_eq, preorderAll, append_nil, mem_cons, mem_preorderAll_iff]

lemma regular_iff : n.Regular ↔ n.isRegular = true ∧ ∀ c ∈ n.children, c.Regular := by
  constructor
  · exact fun h => ⟨h n (mem_preorder_iff.mpr (Or.inl rfl)),
      fun c hc m hm => h m (mem_preorder_iff.mpr (Or.inr ⟨c, hc, hm⟩))⟩
  · rintro ⟨hn, hchildren⟩ m hm
    rcases mem_preorder_iff.mp hm with rfl | ⟨c, hc, hm⟩
    · exact hn
    · exact hchildren c hc m hm

lemma Regular.child (h : n.Regular) (hc : c ∈ n.children) : c.Regular := (regular_iff.mp h).2 c hc

lemma isRegular_iff : n.isRegular = true ↔
    (n.isProper = true ∧ n.isLegible = true) ∧
    (n.isFunction = true ∨ ∀ c ∈ n.children, c.isFuncType = false) := by
  simp [isRegular]

lemma Regular.proper (h : n.Regular) : n.isProper = true :=
  (isRegular_iff.mp (regular_iff.mp h).1).1.1

lemma Regular.legible (h : n.Regular) : n.isLegible = true :=
  (isRegular_iff.mp (regular_iff.mp h).1).1.2

/-- In a regular tree an expression that is part of something else than a function is no type of a
function. -/
lemma Regular.operand (h : n.Regular) (hfun : n.isFunction = false) (hc : c ∈ n.children)
    (hexpr : c.isExpression = true) :
    c.isOperand = true := by
  have hparts := (isRegular_iff.mp (regular_iff.mp h).1).2.resolve_left (Bool.eq_false_iff.mp hfun)
  rw [isOperand, hexpr, hparts c hc]
  rfl

end Node

def File.Regular (f : File) : Prop := f.node.Regular

namespace Regular

/-- A regular tree that may stand where an expression stands. -/
def Operand (n : Node) : Prop := n.isOperand = true ∧ n.Regular

/-- A regular tree that may stand where a statement stands. -/
def Statement (n : Node) : Prop := n.isStatement = true ∧ n.Regular

end Regular

/-! ## The parts of a regular tree -/

namespace Node

variable {n c : Node}

/-- The other children are names, fields, blocks, clauses and imports, and the types of
functions. -/
lemma children_cases (hc : c ∈ n.children) : c ∈ n.operandParts ∨ c ∈ n.statementParts ∨
    c ∈ n.declarationParts ∨
    c.isFuncType = false ∨ n.isFunction = true := by
  cases n with
  | field f =>
    obtain ⟨m, names, type⟩ := f
    grind [operandParts, children, isFuncType]
  | funcType t =>
    obtain ⟨m, params, results⟩ := t
    grind [children, isFuncType]
  | block b =>
    obtain ⟨m, stmts⟩ := b
    grind [statementParts, children]
  | clause c =>
    obtain ⟨m, guards, body⟩ := c
    grind [operandParts, statementParts, children]
  | _ => grind [operandParts, statementParts, declarationParts, children, isFuncType, isFunction]

lemma mem_children_of_operand (hc : c ∈ n.operandParts) :
    c ∈ n.children ∧ n.isFunction = false := by
  cases n with
  | field f =>
    obtain ⟨m, names, type⟩ := f
    grind [operandParts, children, isFunction]
  | clause c =>
    obtain ⟨m, guards, body⟩ := c
    grind [operandParts, children, isFunction]
  | _ => grind [operandParts, children, isFunction]

lemma mem_children_of_statement (hc : c ∈ n.statementParts) : c ∈ n.children := by
  cases n with
  | block b =>
    obtain ⟨m, stmts⟩ := b
    exact hc
  | clause c =>
    obtain ⟨m, guards, body⟩ := c
    exact mem_append_right _ hc
  | _ => grind [statementParts, children]

lemma isFuncType_eq_false (h : n.isOperand = true ∨ n.isStatement = true ∨ n.isDeclaration = true) :
    n.isFuncType = false := by
  cases n with
  | funcType => simp [isOperand, isFuncType, isStatement, isDeclaration] at h
  | _ => rfl

/-- Nodes of one category. -/
def AllOf (category : Node → Bool) (ns : List Node) : Prop := ∀ n ∈ ns, category n = true

lemma allOf_nil {p : Node → Bool} : AllOf p [] := forall_mem_nil _

lemma AllOf.one {p : Node → Bool} (h : p n = true) : AllOf p [n] := forall_mem_singleton.mpr h

lemma AllOf.append {p : Node → Bool} {ns ms : List Node} (h : AllOf p ns) (h' : AllOf p ms) :
    AllOf p (ns ++ ms) :=
  forall_mem_append.mpr ⟨h, h'⟩

/-- **A node whose parts are of the right categories.** -/
structure Fits (n : Node) : Prop where
  operands : AllOf isOperand n.operandParts
  statements : AllOf isStatement n.statementParts
  declarations : AllOf isDeclaration n.declarationParts

/-- A node is regular if its parts are of the right categories and regular themselves. -/
lemma Fits.regular (h : n.Fits) (hlegible : n.isLegible = true)
    (hparts : ∀ c ∈ n.children, c.Regular) : n.Regular := by
  refine regular_iff.mpr
    ⟨isRegular_iff.mpr
      ⟨⟨isProper_iff.mpr ⟨fun c hc => ?_, h.statements, h.declarations⟩, hlegible⟩, ?_⟩, hparts⟩
  · exact ((Bool.and_eq_true _ _).mp (h.operands c hc)).1
  · refine or_iff_not_imp_left.mpr fun hfun c hc => ?_
    rcases children_cases hc with hc | hc | hc | hc | hfun'
    · exact isFuncType_eq_false (.inl (h.operands c hc))
    · exact isFuncType_eq_false (.inr (.inl (h.statements c hc)))
    · exact isFuncType_eq_false (.inr (.inr (h.declarations c hc)))
    · exact hc
    · exact absurd hfun' hfun

open Recast.Regular (Operand Statement)

lemma Regular.operandParts (h : n.Regular) (hc : c ∈ n.operandParts) : Operand c := by
  obtain ⟨hchild, hfun⟩ := mem_children_of_operand hc
  exact ⟨h.operand hfun hchild ((isProper_iff.mp h.proper).1 c hc), h.child hchild⟩

lemma Regular.statementParts (h : n.Regular) (hc : c ∈ n.statementParts) : Statement c :=
  ⟨(isProper_iff.mp h.proper).2.1 c hc, h.child (mem_children_of_statement hc)⟩

end Node

/-! ## Numbering -/

section Numbering

variable {p : Node → Bool} (hp : ∀ n k, p (n.numbered k).1 = p n)

include hp

lemma all_numberNodes (ns : List Node) (k : Nat) : (numberNodes ns k).1.all p = ns.all p := by
  induction ns generalizing k with
  | nil => rfl
  | cons n ns ih =>
    show (p (n.numbered k).1 && (numberNodes ns (n.numbered k).2).1.all p) = _
    rw [hp, ih, all_cons]

lemma all_numberOption (o : Option Node) (k : Nat) : (numberOption o k).1.all p = o.all p := by
  cases o with
  | none => rfl
  | some n => exact hp n k

end Numbering

namespace Node

lemma isExpression_numbered (n : Node) (k : Nat) :
    (n.numbered k).1.isExpression = n.isExpression := by
  cases n with
  | _ => rfl

lemma isStatement_numbered (n : Node) (k : Nat) : (n.numbered k).1.isStatement = n.isStatement := by
  cases n with
  | _ => rfl

lemma isDeclaration_numbered (n : Node) (k : Nat) :
    (n.numbered k).1.isDeclaration = n.isDeclaration := by
  cases n with
  | _ => rfl

lemma isFuncType_numbered (n : Node) (k : Nat) : (n.numbered k).1.isFuncType = n.isFuncType := by
  cases n with
  | _ => rfl

lemma isFunction_numbered (n : Node) (k : Nat) : (n.numbered k).1.isFunction = n.isFunction := by
  cases n with
  | _ => rfl

lemma isLegible_numbered (n : Node) (k : Nat) : (n.numbered k).1.isLegible = n.isLegible := by
  cases n with
  | literal m kind value =>
    cases kind with
    | _ => rfl
  | _ => rfl

lemma isProper_numbered (n : Node) (k : Nat) : (n.numbered k).1.isProper = n.isProper := by
  have hexprs := all_numberNodes isExpression_numbered
  have hstmts := all_numberNodes isStatement_numbered
  have hdecls := all_numberNodes isDeclaration_numbered
  have hexpr? := all_numberOption isExpression_numbered
  have hstmt? := all_numberOption isStatement_numbered
  have hexpr := isExpression_numbered
  cases n with
  | composite => exact congrArg₂ and (hexpr? _ _) (hexprs _ _)
  | keyed | binary | index => exact congrArg₂ and (hexpr _ _) (hexpr _ _)
  | select | star | unary | paren | exprStmt | incDec | typeDecl => exact hexpr _ _
  | call => exact congrArg₂ and (hexpr _ _) (hexprs _ _)
  | arrayType => exact congrArg₂ and (hexpr? _ _) (hexpr _ _)
  | field f =>
    obtain ⟨m, names, type⟩ := f
    exact hexpr _ _
  | assign => exact congrArg₂ and (hexprs _ _) (hexprs _ _)
  | varSpec => exact congrArg₂ and (hexpr? _ _) (hexprs _ _)
  | ret => exact hexprs _ _
  | block b =>
    obtain ⟨m, stmts⟩ := b
    exact hstmts _ _
  | ifStmt => exact congrArg₂ and (congrArg₂ and (hstmt? _ _) (hexpr _ _)) (hstmt? _ _)
  | forStmt => exact congrArg₂ and (congrArg₂ and (hstmt? _ _) (hexpr? _ _)) (hstmt? _ _)
  | rangeStmt => exact congrArg₂ and (congrArg₂ and (hexpr? _ _) (hexpr? _ _)) (hexpr _ _)
  | clause c =>
    obtain ⟨m, guards, body⟩ := c
    cases guards with
    | none => exact hstmts _ _
    | some ns => exact congrArg₂ and (hexprs _ _) (hstmts _ _)
  | switch => exact congrArg₂ and (hstmt? _ _) (hexpr? _ _)
  | file => exact hdecls _ _
  | _ => rfl

lemma isRegular_numbered (n : Node) (k : Nat) : (n.numbered k).1.isRegular = n.isRegular := by
  have hchildren : (n.numbered k).1.children = (numberNodes n.children (k + 1)).1 :=
    congrArg Prod.fst (n.numbered_eq k).2
  have hparts : ∀ (n : Node) (k : Nat), (!(n.numbered k).1.isFuncType) = !n.isFuncType :=
    fun n k => by
    rw [isFuncType_numbered]
  rw [isRegular, isRegular, isProper_numbered, isLegible_numbered, isFunction_numbered, hchildren,
    all_numberNodes hparts]

lemma regular_numberNodes {ns : List Node} {k : Nat}
    (h : ∀ n ∈ preorderAll ns, n.isRegular = true) :
    ∀ n ∈ preorderAll (numberNodes ns k).1, n.isRegular = true := by
  induction ns using preorderAll.induct generalizing k with
  | case1 => exact h
  | case2 n ns ih =>
    rw [preorderAll, forall_mem_cons] at h
    have hcons : (numberNodes (n :: ns) k).1 = (n.numbered k).1 ::
      (numberNodes ns (n.numbered k).2).1 := rfl
    have hrest : (n.numbered k).1.children ++ (numberNodes ns (n.numbered k).2).1 =
        (numberNodes (n.children ++ ns) (k + 1)).1 := by
      rw [numberNodes_append, ← (n.numbered_eq k).2]
    rw [hcons, preorderAll, forall_mem_cons, isRegular_numbered, hrest]
    exact ⟨h.1, ih h.2⟩

end Node

/-- Numbering leaves a tree regular. -/
lemma File.Regular.numbered {f : File} (h : f.Regular) : f.numbered.Regular := by
  rw [File.Regular, Node.Regular, Node.preorder_eq] at h ⊢
  exact (Node.regular_numberNodes h : ∀ n ∈ preorderAll (numberNodes [f.node] 0).1, _)

end Recast
