import Recast.Proofs.Syntax.Numbering

/-!
# The grammar of syntax trees

All kinds of nodes are constructors of one type, and which of them may stand where is the grammar.
It has three categories, expressions (types included), statements and declarations, and says for
every kind of node which category each of its parts is of.

**Terms and actions.**  Fields go with the expressions and the clauses of a switch with the
statements: `isTerm`, `isAction`.  Below a term there are terms only, up to the next function
(`isTerm_of_child`).
-/

namespace Recast

namespace Node

/-! ## Categories -/

def isExpression : Node → Bool
  | .ident _ | .literal .. | .composite .. | .keyed .. | .select .. | .star .. | .unary ..
  | .binary .. | .paren ..
  | .call .. | .index .. | .funcLit .. | .arrayType .. | .structType .. | .funcType _ => true
  | _ => false

def isStatement : Node → Bool
  | .assign .. | .varSpec .. | .exprStmt .. | .incDec .. | .ret .. | .branch .. | .block _
  | .ifStmt .. | .forStmt ..
  | .rangeStmt .. | .switch .. => true
  | _ => false

def isDeclaration : Node → Bool
  | .typeDecl .. | .funcDecl .. | .varSpec .. => true
  | _ => false

/-- Whether the parts of a node are of the categories that the grammar has for them. -/
def isProper : Node → Bool
  | .composite _ type elements => type.all isExpression && elements.all isExpression
  | .keyed _ key value => key.isExpression && value.isExpression
  | .select _ base _ => base.isExpression
  | .star _ x => x.isExpression
  | .unary _ _ x => x.isExpression
  | .binary _ x _ y => x.isExpression && y.isExpression
  | .paren _ x => x.isExpression
  | .call _ fn args => fn.isExpression && args.all isExpression
  | .index _ x i => x.isExpression && i.isExpression
  | .arrayType _ length elem => length.all isExpression && elem.isExpression
  | .field (.mk _ _ type) => type.isExpression
  | .assign _ targets _ values => targets.all isExpression && values.all isExpression
  | .varSpec _ _ type values => type.all isExpression && values.all isExpression
  | .exprStmt _ x => x.isExpression
  | .incDec _ x _ => x.isExpression
  | .ret _ results => results.all isExpression
  | .block (.mk _ stmts) => stmts.all isStatement
  | .ifStmt _ init cond _ orElse =>
    init.all isStatement && cond.isExpression && orElse.all isStatement
  | .forStmt _ init cond post _ =>
    init.all isStatement && cond.all isExpression && post.all isStatement
  | .rangeStmt _ key value _ x _ => key.all isExpression && value.all isExpression && x.isExpression
  | .clause (.mk _ guards body) => guards.all (·.all isExpression) && body.all isStatement
  | .switch _ init tag _ => init.all isStatement && tag.all isExpression
  | .typeDecl _ _ type _ => type.isExpression
  | .file _ _ _ decls => decls.all isDeclaration
  | _ => true

end Node

/-- **The grammar.**  Every node of the tree has parts of the right categories. -/
def File.Grammatical (f : File) : Prop := ∀ n ∈ f.node.preorder, n.isProper = true

namespace Node

/-! ## Parts -/

/-- The parts of a node where expressions stand. -/
def operandParts : Node → List Node
  | .composite _ type elements => type.toList ++ elements
  | .keyed _ key value => [key, value]
  | .select _ base _ => [base]
  | .star _ x => [x]
  | .unary _ _ x => [x]
  | .binary _ x _ y => [x, y]
  | .paren _ x => [x]
  | .call _ fn args => fn :: args
  | .index _ x i => [x, i]
  | .arrayType _ length elem => length.toList ++ [elem]
  | .field (.mk _ _ type) => [type]
  | .assign _ targets _ values => targets ++ values
  | .varSpec _ _ type values => type.toList ++ values
  | .exprStmt _ x => [x]
  | .incDec _ x _ => [x]
  | .ret _ results => results
  | .ifStmt _ _ cond _ _ => [cond]
  | .forStmt _ _ cond _ _ => cond.toList
  | .rangeStmt _ key value _ x _ => key.toList ++ value.toList ++ [x]
  | .clause (.mk _ guards _) => guards.getD []
  | .switch _ _ tag _ => tag.toList
  | .typeDecl _ _ type _ => [type]
  | _ => []

/-- The parts of a node where statements stand. -/
def statementParts : Node → List Node
  | .block (.mk _ stmts) => stmts
  | .ifStmt _ init _ _ orElse => init.toList ++ orElse.toList
  | .forStmt _ init _ post _ => init.toList ++ post.toList
  | .clause (.mk _ _ body) => body
  | .switch _ init _ _ => init.toList
  | _ => []

/-- The parts of a node where declarations stand. -/
def declarationParts : Node → List Node
  | .file _ _ _ decls => decls
  | _ => []

variable {n c : Node}

/-- The grammar, part by part. -/
lemma isProper_iff : n.isProper = true ↔ (∀ c ∈ n.operandParts, c.isExpression = true) ∧
    (∀ c ∈ n.statementParts, c.isStatement = true) ∧
    ∀ c ∈ n.declarationParts, c.isDeclaration = true := by
  cases n with
  | field f =>
    obtain ⟨m, names, type⟩ := f
    simp [isProper, operandParts, statementParts, declarationParts]
  | block b =>
    obtain ⟨m, stmts⟩ := b
    simp [isProper, operandParts, statementParts, declarationParts]
  | clause c =>
    obtain ⟨m, guards, body⟩ := c
    cases guards with
    | _ => simp [isProper, operandParts, statementParts, declarationParts]
  | _ => grind [isProper, operandParts, statementParts, declarationParts, Option.all_eq_true]

/-! ## Terms and actions -/

/-- An expression, or a field of one. -/
def isTerm : Node → Bool
  | .field _ => true
  | n => n.isExpression

/-- A statement, or a clause of one. -/
def isAction : Node → Bool
  | .clause _ => true
  | n => n.isStatement

lemma isTerm_of_isExpression (h : n.isExpression = true) : n.isTerm = true := by
  cases n with
  | field => rfl
  | _ => exact h

lemma isAction_of_isStatement (h : n.isStatement = true) : n.isAction = true := by
  cases n with
  | clause => rfl
  | _ => exact h

/-- Parts of a term are terms, unless a function begins. -/
lemma isTerm_of_child (hn : n.isTerm = true) (hproper : n.isProper = true)
    (hfun : n.isFunction = false) (hc : c ∈ n.children) : c.isTerm = true := by
  have hoperand : ∀ c ∈ n.operandParts, c.isTerm = true :=
    fun c hc => isTerm_of_isExpression ((isProper_iff.mp hproper).1 c hc)
  cases n with
  | field f =>
    obtain ⟨m, names, type⟩ := f
    grind [operandParts, children, isTerm, isExpression]
  | funcType t =>
    obtain ⟨m, params, results⟩ := t
    grind [children, isTerm]
  | _ => grind [operandParts, children, isTerm, isExpression, isFunction]

end Node

end Recast
