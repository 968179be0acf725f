/-!
# Syntax trees

The tree of one compilation unit.  Every node carries a `Mark`: the place in the source it stands
for, and a number that tells it from every other node of its tree.  Two nodes that are spelled alike
are still two nodes, and it is the number that the analyses go by.

**One type for all kinds.**  Expressions, type expressions, statements and declarations are
constructors of the one type `Node`.  A tree built from a description has each kind only where it
belongs, but a tree made by hand may have, say, an expression in the place of a statement, and every
analysis has an answer for it.  Only parts that are never looked at by kind have a type of their
own: identifiers, imports, fields, function types, blocks and the clauses of a switch.

* `Node.children` — the direct subnodes in source order.
* `Node.kind` — the name of a node's kind in messages.
* `Node.shown` — a node as messages show it.
-/

namespace Recast

/-- A place in a source. -/
structure Loc where
  file : String := "<unknown>"
  line : Int := 0
  column : Int := 0
  deriving Repr, DecidableEq, Inhabited

/-- A place with its line and column. -/
def Loc.shown (loc : Loc) : String := s!"{loc.file}:{loc.line}:{loc.column}"

/-- What every node carries: the number that is its own, and its place. -/
structure Mark where
  id : Nat := 0
  loc : Loc := {}
  deriving Repr, DecidableEq, Inhabited

/-- An identifier. -/
structure Ident where
  mark : Mark
  name : String
  deriving Repr, DecidableEq, Inhabited

/-- An import of one package. -/
structure Import where
  mark : Mark
  path : String
  deriving Repr, DecidableEq, Inhabited

/-- The kinds of literal. -/
inductive LiteralKind where
  | int
  | float
  | string
  | other (name : String)
  deriving Repr, DecidableEq, Inhabited

/-- The name of a kind of literal. -/
def LiteralKind.name : LiteralKind → String
  | .int => "INT"
  | .float => "FLOAT"
  | .string => "STRING"
  | .other name => name

/-- The kind of literal with this name. -/
def LiteralKind.ofName (name : String) : LiteralKind :=
  if name == "INT" then .int
  else if name == "FLOAT" then .float
  else if name == "STRING" then .string
  else .other name

mutual

/-- A node of a syntax tree. -/
inductive Node where
  | ident (ident : Ident)
  /-- A literal constant. -/
  | literal (mark : Mark) (kind : LiteralKind) (value : String)
  /-- `T{elements}`; inside another literal the type may be left out. -/
  | composite (mark : Mark) (type : Option Node) (elements : List Node)
  /-- `key: value` inside a composite literal. -/
  | keyed (mark : Mark) (key : Node) (value : Node)
  /-- `base.name`: a field, or a name of a package. -/
  | select (mark : Mark) (base : Node) (name : Ident)
  /-- `*x`: a dereference, or a pointer type when `x` denotes a type. -/
  | star (mark : Mark) (x : Node)
  | unary (mark : Mark) (op : String) (x : Node)
  | binary (mark : Mark) (x : Node) (op : String) (y : Node)
  | paren (mark : Mark) (x : Node)
  /-- `fn(args)`: a call, or a conversion when `fn` denotes a type. -/
  | call (mark : Mark) (fn : Node) (args : List Node)
  | index (mark : Mark) (x : Node) (i : Node)
  | funcLit (mark : Mark) (type : FuncType) (body : Block)
  /-- `[length]elem`; without a length, a slice type. -/
  | arrayType (mark : Mark) (length : Option Node) (elem : Node)
  | structType (mark : Mark) (fields : List Field)
  | funcType (type : FuncType)
  | field (field : Field)
  /-- `targets op values`, where `op` is `=` or, for a definition, `:=`. -/
  | assign (mark : Mark) (targets : List Node) (op : String) (values : List Node)
  /-- `var names type = values`, as a statement or a declaration. -/
  | varSpec (mark : Mark) (names : List Ident) (type : Option Node) (values : List Node)
  | exprStmt (mark : Mark) (x : Node)
  /-- `x++` or `x--`. -/
  | incDec (mark : Mark) (x : Node) (op : String)
  | ret (mark : Mark) (results : List Node)
  /-- `break` or `continue`. -/
  | branch (mark : Mark) (word : String)
  | block (block : Block)
  | ifStmt (mark : Mark) (init : Option Node) (cond : Node) (body : Block) (orElse : Option Node)
  | forStmt (mark : Mark) (init : Option Node) (cond : Option Node)
      (post : Option Node) (body : Block)
  | rangeStmt (mark : Mark) (key : Option Node) (value : Option Node) (op : String)
      (x : Node) (body : Block)
  | clause (clause : Clause)
  | switch (mark : Mark) (init : Option Node) (tag : Option Node) (clauses : List Clause)
  | importSpec (spec : Import)
  /-- `type name T` or, as an alias, `type name = T`. -/
  | typeDecl (mark : Mark) (name : Ident) (type : Node) (isAlias : Bool)
  | funcDecl (mark : Mark) (name : Ident) (type : FuncType) (body : Option Block)
  | file (mark : Mark) (package : Ident) (imports : List Import) (decls : List Node)

/-- A struct field, a parameter or a result; `names` may be empty. -/
inductive Field where
  | mk (mark : Mark) (names : List Ident) (type : Node)

/-- The parameters and results of a function. -/
inductive FuncType where
  | mk (mark : Mark) (params : List Field) (results : List Field)

/-- A sequence of statements with a scope of its own. -/
inductive Block where
  | mk (mark : Mark) (stmts : List Node)

/-- One case of a switch.  The default case has no guards at all, which is not the same as an empty
list. -/
inductive Clause where
  | mk (mark : Mark) (guards : Option (List Node)) (body : List Node)

end

/-- The tree of one compilation unit. -/
structure File where
  mark : Mark
  package : Ident
  imports : List Import
  decls : List Node

instance : Inhabited Node := ⟨.ident default⟩

instance : Inhabited Field := ⟨.mk {} [] default⟩

instance : Inhabited FuncType := ⟨.mk {} [] []⟩

instance : Inhabited Block := ⟨.mk {} []⟩

instance : Inhabited Clause := ⟨.mk {} none []⟩

instance : Inhabited File := ⟨⟨{}, default, [], []⟩⟩

/-- The root node of a unit. -/
def File.node (f : File) : Node := .file f.mark f.package f.imports f.decls

/-! ## Parts -/

def Field.mark : Field → Mark
  | .mk m _ _ => m

def Field.names : Field → List Ident
  | .mk _ names _ => names

def Field.type : Field → Node
  | .mk _ _ type => type

def FuncType.mark : FuncType → Mark
  | .mk m _ _ => m

def FuncType.params : FuncType → List Field
  | .mk _ params _ => params

def FuncType.results : FuncType → List Field
  | .mk _ _ results => results

def Block.mark : Block → Mark
  | .mk m _ => m

def Block.stmts : Block → List Node
  | .mk _ stmts => stmts

def Clause.mark : Clause → Mark
  | .mk m _ _ => m

def Clause.guards : Clause → Option (List Node)
  | .mk _ guards _ => guards

def Clause.body : Clause → List Node
  | .mk _ _ body => body

/-- The case that runs when no other does. -/
def Clause.isDefault (c : Clause) : Bool := c.guards.isNone

namespace Node

/-- What a node carries. -/
def mark : Node → Mark
  | .ident i => i.mark
  | .literal m _ _ => m
  | .composite m _ _ => m
  | .keyed m _ _ => m
  | .select m _ _ => m
  | .star m _ => m
  | .unary m _ _ => m
  | .binary m _ _ _ => m
  | .paren m _ => m
  | .call m _ _ => m
  | .index m _ _ => m
  | .funcLit m _ _ => m
  | .arrayType m _ _ => m
  | .structType m _ => m
  | .funcType t => t.mark
  | .field f => f.mark
  | .assign m _ _ _ => m
  | .varSpec m _ _ _ => m
  | .exprStmt m _ => m
  | .incDec m _ _ => m
  | .ret m _ => m
  | .branch m _ => m
  | .block b => b.mark
  | .ifStmt m _ _ _ _ => m
  | .forStmt m _ _ _ _ => m
  | .rangeStmt m _ _ _ _ _ => m
  | .clause c => c.mark
  | .switch m _ _ _ => m
  | .importSpec s => s.mark
  | .typeDecl m _ _ _ => m
  | .funcDecl m _ _ _ => m
  | .file m _ _ _ => m

/-- The number of a node. -/
def id (n : Node) : Nat := n.mark.id

/-- The place of a node. -/
def loc (n : Node) : Loc := n.mark.loc

/-- The name of a node's kind in messages. -/
def kind : Node → String
  | .ident _ => "Ident"
  | .literal .. => "BasicLit"
  | .composite .. => "CompositeLit"
  | .keyed .. => "KeyValueExpr"
  | .select .. => "SelectorExpr"
  | .star .. => "StarExpr"
  | .unary .. => "UnaryExpr"
  | .binary .. => "BinaryExpr"
  | .paren .. => "ParenExpr"
  | .call .. => "CallExpr"
  | .index .. => "IndexExpr"
  | .funcLit .. => "FuncLit"
  | .arrayType .. => "ArrayType"
  | .structType .. => "StructType"
  | .funcType _ => "FuncType"
  | .field _ => "Field"
  | .assign .. => "AssignStmt"
  | .varSpec .. => "VarSpec"
  | .exprStmt .. => "ExprStmt"
  | .incDec .. => "IncDecStmt"
  | .ret .. => "ReturnStmt"
  | .branch .. => "BranchStmt"
  | .block _ => "BlockStmt"
  | .ifStmt .. => "IfStmt"
  | .forStmt .. => "ForStmt"
  | .rangeStmt .. => "RangeStmt"
  | .clause _ => "CaseClause"
  | .switch .. => "SwitchStmt"
  | .importSpec _ => "ImportSpec"
  | .typeDecl .. => "TypeDecl"
  | .funcDecl .. => "FuncDecl"
  | .file .. => "File"

/-- The direct subnodes, in source order. -/
def children : Node → List Node
  | .ident _ => []
  | .literal _ _ _ => []
  | .composite _ type elements => type.toList ++ elements
  | .keyed _ key value => [key, value]
  | .select _ base name => [base, .ident name]
  | .star _ x => [x]
  | .unary _ _ x => [x]
  | .binary _ x _ y => [x, y]
  | .paren _ x => [x]
  | .call _ fn args => fn :: args
  | .index _ x i => [x, i]
  | .funcLit _ type body => [.funcType type, .block body]
  | .arrayType _ length elem => length.toList ++ [elem]
  | .structType _ fields => fields.map .field
  | .funcType (.mk _ params results) => params.map .field ++ results.map .field
  | .field (.mk _ names type) => names.map .ident ++ [type]
  | .assign _ targets _ values => targets ++ values
  | .varSpec _ names type values => names.map .ident ++ type.toList ++ values
  | .exprStmt _ x => [x]
  | .incDec _ x _ => [x]
  | .ret _ results => results
  | .branch _ _ => []
  | .block (.mk _ stmts) => stmts
  | .ifStmt _ init cond body orElse => init.toList ++ [cond, .block body] ++ orElse.toList
  | .forStmt _ init cond post body => init.toList ++ cond.toList ++ post.toList ++ [.block body]
  | .rangeStmt _ key value _ x body => key.toList ++ value.toList ++ [x, .block body]
  | .clause (.mk _ guards body) => guards.getD [] ++ body
  | .switch _ init tag clauses => init.toList ++ tag.toList ++ clauses.map .clause
  | .importSpec _ => []
  | .typeDecl _ name type _ => [.ident name, type]
  | .funcDecl _ name type body => [.ident name, .funcType type] ++ body.toList.map .block
  | .file _ package imports decls => .ident package :: imports.map .importSpec ++ decls

/-- A function declaration or a function literal. -/
def isFunction : Node → Bool
  | .funcLit .. => true
  | .funcDecl .. => true
  | _ => false

/-- The body of a function; a declaration may have none, and no other node has one. -/
def functionBody : Node → Option Block
  | .funcLit _ _ body => some body
  | .funcDecl _ _ _ body => body
  | _ => none

end Node

end Recast
