import Recast.Syntax.Malformed
import Recast.Syntax.Node

/-!
# From forms to syntax trees

**Lines.**  Every top-level form, every statement and every case clause gets the next line number.
Expressions have the line of their statement and are told apart by column.  The statements that
initialise or step an `if`, a `for` or a `switch` stay on its line.

**Annotations.**  A form that gets a line may end with `(want "message" ...)`.  The messages are
recorded with that line, and the form is read as if the annotation were not there.

**Positions.**  What a form means depends on where it stands: as an expression, as a statement, as a
block, as a parameter, and so on.  A `Reading` holds its meaning at every position at once, each as
a computation that has not run yet.  The reading of a list is made from the readings of its items
(`Reading.ofItems`), so the recursion over a description is the one in `Form.reading`, and the rules
of the surface language below it are plain functions on lists of readings.

* `File.ofForms` — the tree of a description with its annotations, or why it is refused.
-/

namespace Recast

/-- A message that a description says must be reported on a line. -/
structure Expectation where
  file : String
  line : Nat
  message : String
  deriving Repr, DecidableEq

/-- How far building has come: the current line, the last column given out on it, and the
annotations met. -/
structure Cursor where
  file : String
  line : Nat := 0
  column : Nat := 0
  expectations : List Expectation := []

/-- A step of building a tree. -/
abbrev Build := StateT Cursor (Except Refusal)

namespace Build

/-- Refuses the description at the current line. -/
def refuse {α : Type} (cause : Malformed) : Build α := fun c => .error ⟨cause, c.line, c.file⟩

/-- Goes on to the next line. -/
def nextLine : Build Unit := modify fun c => { c with line := c.line + 1, column := 0 }

/-- Takes the next place on the current line. -/
def place : Build Mark := fun c =>
  .ok ({ loc := ⟨c.file, c.line, (c.column + 1 : Nat)⟩ }, { c with column := c.column + 1 })

/-- Records a message expected on the current line. -/
def expect (message : String) : Build Unit := modify fun c =>
  { c with expectations := c.expectations ++ [⟨c.file, c.line, message⟩] }

end Build

open Build

/-! ## Names -/

/-- The operators that join two operands. -/
def binaryOps : List String :=
  ["+", "-", "*", "/", "%", "&", "|", "^", "<<", ">>", "==", "!=", "<", "<=", ">", ">=", "&&", "||"]

/-- The name of a symbol. -/
def symbolName : Form → Build String
  | .symbol name => return name
  | got => refuse (.expectedSymbol got)

/-- A plain identifier. -/
def plainIdent (form : Form) : Build Ident := do
  let name ← symbolName form
  if name.toList.contains '.' then refuse (.dotted name)
  else return ⟨← place, name⟩

/-- A name whose points select fields or names of packages.  All its parts stand at one place. -/
def dottedName (name : String) : Build Node := do
  let mark ← place
  match (name.toList.splitOn '.').map String.ofList with
  | [] => refuse (.incomplete name)
  | first :: rest =>
    if (first :: rest).any String.isEmpty then refuse (.incomplete name)
    else return rest.foldl (fun x part => .select mark x ⟨mark, part⟩) (.ident ⟨mark, first⟩)

/-! ## Readings -/

/-- What a form means at each position in which a form can stand. -/
structure Reading where
  form : Form
  /-- As an expression or a type. -/
  expr : Build Node
  /-- As an element of a composite literal, which may have a key. -/
  element : Build Node
  /-- As a list of expressions, at least so many. -/
  exprs : (least : Nat) → Build (List Node)
  /-- As a parameter: names and a type. -/
  param : Build Field
  /-- As a list of parameters. -/
  params : Build (List Field)
  /-- As a member of a struct, which may be embedded. -/
  member : Build Field
  /-- As a statement with a line of its own. -/
  stmt : Build Node
  /-- As a statement on the line of the statement it belongs to. -/
  inlineStmt : Build Node
  /-- As a block. -/
  block : Build Block
  /-- As the last part of an `if`: a block or another `if`. -/
  alternative : Build Node
  /-- As a case of a switch. -/
  clause : Build Clause
  /-- As `(init statement)`, if it is one. -/
  init? : Option (Build Node)

/-- The forms behind some readings. -/
def formsOf (items : List Reading) : List Form := items.map Reading.form

/-- Detaches an annotation at the end of a form and records its messages. -/
def stripWant (items : List Reading) : Build (List Reading) := do
  match items.getLast?.map Reading.form with
  | some (.list (head :: messages)) =>
    if items.length < 2 || !head.isSymbol "want" then return items
    else
      messages.forM fun
        | .text message => expect message
        | got => refuse (.wantText got)
      return items.dropLast
  | _ => return items

/-- The symbol at the head of a list, and the items behind it. -/
def headed (items : List Reading) : Build (String × List Reading) := do
  match items with
  | [] => refuse (.tooShort 1 [])
  | head :: args => return (← symbolName head.form, args)

/-- Names in front, and a type at the end. -/
def namesAndType (mark : Mark) (items : List Reading) : Build Field := do
  match items.getLast? with
  | none => refuse (.tooShort 1 [])
  | some type =>
    let names ← (formsOf items.dropLast).mapM plainIdent
    return .mk mark names (← type.expr)

/-- A part for which `_` may stand. -/
def optional (r : Reading) (read : Build Node) : Build (Option Node) :=
  if r.form.isBlank then return none else some <$> read

/-- The parameters and results of a function. -/
def funcTypeOf (params results : Reading) : Build FuncType := do
  return .mk (← place) (← params.params) (← results.params)

/-- Statements, with a place for the block they make. -/
def bodyOf (stmts : List Reading) : Build Block := do
  return .mk (← place) (← stmts.mapM Reading.stmt)

/-- `var`: a name or a list of names, a type or `_`, and values. -/
def varOf (mark : Mark) (items : List Reading) : Build Node := do
  match items with
  | _ :: names :: type :: values =>
    let names ← match names.form with
      | .list forms => forms.mapM plainIdent
      | form => List.singleton <$> plainIdent form
    let type ← optional type type.expr
    let values ← values.mapM Reading.expr
    if type.isNone && values.isEmpty then refuse .bareVar
    else return .varSpec mark names type values
  | _ => refuse (.tooShort 3 (formsOf items))

/-! ## Expressions and types -/

/-- An expression with a head, given its place and all its items. -/
def headExpr (tag : String) (mark : Mark) (items : List Reading) : Build Node := do
  match tag with
  | "sel" =>
    match items with
    | _ :: x :: name :: _ => return .select mark (← x.expr) (← plainIdent name.form)
    | _ => refuse (.tooShort 3 (formsOf items))
  | "addr" => unaryOf "&"
  | "not" => unaryOf "!"
  | "neg" => unaryOf "-"
  | "star" => starOf
  | "ptr" => starOf
  | "paren" =>
    match items with
    | _ :: x :: _ => return .paren mark (← x.expr)
    | _ => refuse (.tooShort 2 (formsOf items))
  | "call" =>
    match items with
    | _ :: fn :: args => return .call mark (← fn.expr) (← args.mapM Reading.expr)
    | _ => refuse (.tooShort 2 (formsOf items))
  | "conv" =>
    match items with
    | _ :: type :: x :: _ =>
      let type ← type.expr
      let outer ← place
      return .call mark (.paren outer type) [← x.expr]
    | _ => refuse (.tooShort 3 (formsOf items))
  | "index" =>
    match items with
    | _ :: x :: i :: _ => return .index mark (← x.expr) (← i.expr)
    | _ => refuse (.tooShort 3 (formsOf items))
  | "lit" =>
    match items with
    | _ :: type :: elements =>
      return .composite mark (← optional type type.expr) (← elements.mapM Reading.element)
    | _ => refuse (.tooShort 2 (formsOf items))
  | "func-lit" =>
    match items with
    | _ :: params :: results :: stmts =>
      return .funcLit mark (← funcTypeOf params results) (← bodyOf stmts)
    | _ => refuse (.tooShort 3 (formsOf items))
  | "slice" =>
    match items with
    | _ :: elem :: _ => return .arrayType mark none (← elem.expr)
    | _ => refuse (.tooShort 2 (formsOf items))
  | "array" =>
    match items with
    | _ :: length :: elem :: _ =>
      let length ← length.expr
      return .arrayType mark (some length) (← elem.expr)
    | _ => refuse (.tooShort 3 (formsOf items))
  | "struct" => return .structType mark (← items.tail.mapM Reading.member)
  | _ => refuse (.unknownExpression tag)
where
  unaryOf (op : String) : Build Node := do
    match items with
    | _ :: x :: _ => return .unary mark op (← x.expr)
    | _ => refuse (.tooShort 2 (formsOf items))
  starOf : Build Node := do
    match items with
    | _ :: x :: _ => return .star mark (← x.expr)
    | _ => refuse (.tooShort 2 (formsOf items))

/-- A list as an expression. -/
def exprOf (items : List Reading) : Build Node := do
  let (tag, args) ← headed items
  match binaryOps.contains tag, args with
  | true, [x, y] =>
    let mark ← place
    let x ← x.expr
    return .binary mark x tag (← y.expr)
  | _, _ => headExpr tag (← place) items

/-- A list as an element of a composite literal. -/
def elementOf (items : List Reading) : Build Node := do
  if (items.head?.map Reading.form).any (·.isSymbol "kv") then
    match items with
    | _ :: key :: value :: _ =>
      let mark ← place
      let key ← key.expr
      return .keyed mark key (← value.expr)
    | _ => refuse (.tooShort 3 (formsOf items))
  else exprOf items

/-- A list as a parameter. -/
def paramOf (items : List Reading) : Build Field := do
  if items.isEmpty then refuse (.tooShort 1 [])
  else namesAndType (← place) items

/-- A list as a member of a struct. -/
def memberOf (items : List Reading) : Build Field := do
  if items.isEmpty then refuse (.tooShort 1 [])
  else
    let mark ← place
    match items with
    | head :: type :: rest =>
      if head.form.isSymbol "embed" then return .mk mark [] (← type.expr)
      else namesAndType mark (head :: type :: rest)
    | _ => refuse (.tooShort 2 (formsOf items))

/-! ## Statements -/

/-- The statement in front of the others, if the arguments start with `(init statement)`. -/
def splitInit (args : List Reading) : Build (Option Node × List Reading) := do
  match args with
  | first :: rest =>
    match first.init? with
    | some init => return (some (← init), rest)
    | none => return (none, args)
  | [] => return (none, [])

/-- A block: a list with the head `block`. -/
def blockOf (items : List Reading) : Build Block := do
  match items with
  | head :: stmts =>
    if head.form.isSymbol "block" then bodyOf stmts
      else refuse (.expectedTag "block" (formsOf items))
  | [] => refuse (.expectedTag "block" [])

/-- `if`: perhaps an initial statement, a condition, a block, and perhaps an alternative. -/
def ifOf (mark : Mark) (args : List Reading) : Build Node := do
  let (init, args) ← splitInit args
  match args with
  | [cond, body] => return .ifStmt mark init (← cond.expr) (← body.block) none
  | [cond, body, alternative] =>
    let cond ← cond.expr
    let body ← body.block
    return .ifStmt mark init cond body (some (← alternative.alternative))
  | _ => refuse .ifShape

/-- `for`: a body alone, behind a condition, or behind three parts that may each be `_`. -/
def forOf (mark : Mark) (args : List Reading) : Build Node := do
  match args with
  | [init, cond, post, body] =>
    let init ← optional init init.inlineStmt
    let cond ← optional cond cond.expr
    let post ← optional post post.inlineStmt
    return .forStmt mark init cond post (← body.block)
  | [cond, body] => return .forStmt mark none (← optional cond cond.expr) none (← body.block)
  | [body] => return .forStmt mark none none none (← body.block)
  | _ => refuse .forShape

/-- A statement with a head, given its place and all its items. -/
def headStmt (tag : String) (mark : Mark) (items : List Reading) : Build Node := do
  match tag with
  | "define" => assignOf ":="
  | "assign" => assignOf "="
  | "define-multi" => assignAllOf ":="
  | "assign-multi" => assignAllOf "="
  | "var" => varOf mark items
  | "expr" =>
    match items with
    | _ :: x :: _ => return .exprStmt mark (← x.expr)
    | _ => refuse (.tooShort 2 (formsOf items))
  | "call" => return .exprStmt mark (← exprOf items)
  | "return" => return .ret mark (← items.tail.mapM Reading.expr)
  | "break" => return .branch mark "break"
  | "continue" => return .branch mark "continue"
  | "inc" => incDecOf "++"
  | "dec" => incDecOf "--"
  | "block" => return .block (.mk mark (← items.tail.mapM Reading.stmt))
  | "if" => ifOf mark items.tail
  | "for" => forOf mark items.tail
  | "range" =>
    match items with
    | _ :: key :: value :: x :: body :: _ =>
      let key ← optional key key.expr
      let value ← optional value value.expr
      let op := if key.isSome || value.isSome then ":=" else ""
      let x ← x.expr
      return .rangeStmt mark key value op x (← body.block)
    | _ => refuse (.tooShort 5 (formsOf items))
  | "switch" =>
    let (init, args) ← splitInit items.tail
    match args with
    | [] => refuse .switchShape
    | tag :: clauses =>
      let tag ← optional tag tag.expr
      return .switch mark init tag (← clauses.mapM Reading.clause)
  | _ => refuse (.unknownStatement tag)
where
  assignOf (op : String) : Build Node := do
    match items with
    | _ :: target :: value :: _ =>
      let target ← target.expr
      return .assign mark [target] op [← value.expr]
    | _ => refuse (.tooShort 3 (formsOf items))
  assignAllOf (op : String) : Build Node := do
    match items with
    | _ :: targets :: value :: values =>
      let targets ← targets.exprs 1
      return .assign mark targets op (← (value :: values).mapM Reading.expr)
    | _ => refuse (.tooShort 3 (formsOf items))
  incDecOf (op : String) : Build Node := do
    match items with
    | _ :: x :: _ => return .incDec mark (← x.expr) op
    | _ => refuse (.tooShort 2 (formsOf items))

/-- A list as a statement on the current line. -/
def inlineStmtOf (items : List Reading) : Build Node := do
  let (tag, _) ← headed items
  headStmt tag (← place) items

/-- A list as a statement on the next line. -/
def stmtOf (items : List Reading) : Build Node := do
  if items.isEmpty then refuse (.tooShort 1 [])
  else
    nextLine
    inlineStmtOf (← stripWant items)

/-- A list as the last part of an `if`. -/
def alternativeOf (items : List Reading) : Build Node := do
  match items with
  | [] => refuse (.tooShort 1 [])
  | head :: _ => if head.form.isSymbol "if" then stmtOf items else return .block (← blockOf items)

/-- A list as a case of a switch. -/
def clauseOf (items : List Reading) : Build Clause := do
  if items.isEmpty then refuse (.tooShort 1 [])
  else
    nextLine
    let items ← stripWant items
    let mark ← place
    match items with
    | [] => refuse (.tooShort 1 [])
    | head :: rest =>
      if head.form.isSymbol "default" then return .mk mark none (← rest.mapM Reading.stmt)
      else
        match rest with
        | [] => refuse (.tooShort 2 (formsOf items))
        | guards :: stmts =>
          if head.form.isSymbol "case" then
            let guards ← guards.exprs 0
            return .mk mark (some guards) (← stmts.mapM Reading.stmt)
          else refuse (.expectedTag "case" (formsOf items))

/-- The initial statement in `(init statement)`. -/
def initOf (items : List Reading) : Option (Build Node) :=
  if (items.head?.map Reading.form).any (·.isSymbol "init") then
    some <| match items with
      | _ :: stmt :: _ => stmt.inlineStmt
      | _ => refuse (.tooShort 2 (formsOf items))
  else none

/-! ## The recursion -/

/-- The reading of a list, from the readings of its items. -/
def Reading.ofItems (items : List Reading) : Reading where
  form := .list (formsOf items)
  expr := if items.isEmpty then refuse (.tooShort 1 []) else exprOf items
  element := if items.isEmpty then refuse (.tooShort 1 []) else elementOf items
  exprs least :=
    if items.length < least then refuse (.tooShort least (formsOf items))
      else items.mapM Reading.expr
  param := paramOf items
  params := items.mapM Reading.param
  member := memberOf items
  stmt := stmtOf items
  inlineStmt := if items.isEmpty then refuse (.tooShort 1 []) else inlineStmtOf items
  block := blockOf items
  alternative := alternativeOf items
  clause := clauseOf items
  init? := initOf items

/-- The reading of a form that is not a list: an expression or nothing. -/
def Reading.ofAtom (form : Form) (expr : Build Node) : Reading where
  form := form
  expr := expr
  element := expr
  exprs _ := refuse (.expectedList none form)
  param := refuse (.expectedList none form)
  params := refuse (.expectedList none form)
  member := refuse (.expectedList none form)
  stmt := refuse (.expectedList none form)
  inlineStmt := refuse (.expectedList none form)
  block := refuse (.expectedList (some "block") form)
  alternative := refuse (.expectedList none form)
  clause := refuse (.expectedList none form)
  init? := none

mutual

/-- The reading of a form. -/
def Form.reading : Form → Reading
  | .symbol name => .ofAtom (.symbol name) (dottedName name)
  | .text value => .ofAtom (.text value) do return .literal (← place) .string value
  | .integer value => .ofAtom (.integer value) do return .literal (← place) .int (toString value)
  | .real value => .ofAtom (.real value) do return .literal (← place) .float value.text
  | .list items => .ofItems (Form.readings items)
  | .quoted form => .ofAtom (.quoted form) (refuse (.expectedList none (.quoted form)))
  | .brackets items => .ofAtom (.brackets items) (refuse (.expectedList none (.brackets items)))

/-- The readings of the items of a list. -/
def Form.readings : List Form → List Reading
  | [] => []
  | form :: forms => form.reading :: Form.readings forms

end

/-! ## Top level -/

/-- What a top-level form adds to a unit. -/
inductive Item where
  | package (name : Ident)
  | imports (specs : List Import)
  | decl (node : Node)

/-- An import path: a symbol or a text. -/
def importOf (form : Form) : Build Import := do
  match form with
  | .symbol path => return ⟨← place, path⟩
  | .text path => return ⟨← place, path⟩
  | got => refuse (.importPath got)

/-- A top-level form with a head, given all its items. -/
def headItem (tag : String) (items : List Reading) : Build Item := do
  match tag with
  | "package" =>
    match items with
    | _ :: name :: _ => return .package (← plainIdent name.form)
    | _ => refuse (.tooShort 2 (formsOf items))
  | "import" => return .imports (← (formsOf items.tail).mapM importOf)
  | "type" => typeOf false
  | "alias" => typeOf true
  | "var" => return .decl (← varOf (← place) items)
  | "func" =>
    match items with
    | _ :: name :: params :: results :: stmts =>
      let mark ← place
      let name ← plainIdent name.form
      let type ← funcTypeOf params results
      return .decl (.funcDecl mark name type (some (← bodyOf stmts)))
    | _ => refuse (.tooShort 4 (formsOf items))
  | _ => refuse (.unknownTop tag)
where
  typeOf (isAlias : Bool) : Build Item := do
    match items with
    | _ :: name :: type :: _ =>
      let mark ← place
      let name ← plainIdent name.form
      return .decl (.typeDecl mark name (← type.expr) isAlias)
    | _ => refuse (.tooShort 3 (formsOf items))

/-- A top-level form. -/
def itemOf (form : Form) : Build Item := do
  match form with
  | .list [] => refuse (.tooShort 1 [])
  | .list items =>
    nextLine
    let items ← stripWant (Form.readings items)
    let (tag, _) ← headed items
    headItem tag items
  | got => refuse (.expectedList none got)

/-- The package a unit belongs to: the last one named, and `main` if none is. -/
def packageOf (file : String) (items : List Item) : Ident :=
  let named := items.filterMap fun
    | .package name => some name
    | _ => none
  named.getLast?.getD ⟨{ loc := ⟨file, 0, 0⟩ }, "main"⟩

/-- The unit that top-level items make up. -/
def File.ofItems (file : String) (items : List Item) : File where
  mark := { loc := ⟨file, 1, 1⟩ }
  package := packageOf file items
  imports := items.flatMap fun
    | .imports specs => specs
    | _ => []
  decls := items.filterMap fun
    | .decl node => some node
    | _ => none

/-- The tree of a description, with its annotations. -/
def File.ofForms (file : String) (forms : List Form) :
    Except Refusal (File × List Expectation) := do
  let (items, cursor) ← (forms.mapM itemOf).run { file := file }
  return (File.ofItems file items, cursor.expectations)

/-- The tree of the text of a description, with its annotations. -/
def File.ofText (file text : String) : Except Refusal (File × List Expectation) :=
  match Form.read text with
  | .ok forms => File.ofForms file forms
  | .error fault => .error { cause := .unreadable text fault }

end Recast
