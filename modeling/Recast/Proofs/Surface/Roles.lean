import Recast.Syntax.OfForms

/-!
# The surface syntax

A unit description is made of forms, and what a form means depends on the position in which it
stands.  Here the positions have names, and the surface syntax is a table: for every position and
every head, the positions of the operands.

**Roles.**  A `Role` is a position in which a form can stand.  The roles of the items of a list are
known from its own role and from how its items look from outside (`Role.parts`).  Operands behind
the last one that is looked at are `ignored`.

**Scripts.**  A form that is accepted in its role takes some lines and records some messages, in an
order that is its script (`script`).  A form that is refused has none.
-/

namespace Recast.Surface

open List

/-! ## Roles -/

/-- What can be seen of a form from outside. -/
inductive Look where
  | symbol (name : String)
  /-- A list with a symbol at its head. -/
  | tagged (tag : String)
  | other
  deriving DecidableEq

def look : Form → Look
  | .symbol name => .symbol name
  | .list (.symbol tag :: _) => .tagged tag
  | _ => .other

/-- A position in which a form can stand. -/
inductive Role where
  | item
  | stmt
  | clause
  /-- The last part of an `if`. -/
  | alternative
  | block
  /-- A statement on the line of the statement to which it belongs. -/
  | inline
  /-- The same, or `_`. -/
  | optionalInline
  /-- `(init statement)`. -/
  | init
  | expr
  /-- An element of a composite literal. -/
  | element
  /-- A list of expressions, at least so many. -/
  | exprs (least : Nat)
  | param
  | params
  /-- A member of a struct. -/
  | member
  | name
  /-- A name, or a list of names. -/
  | names
  /-- The path of an import. -/
  | path
  /-- The annotation at the end of a form; whether the form would be accepted with anything else in
  its place. -/
  | trailer (spare : Bool)
  | message
  /-- The symbol at the head of a form, or of an annotation like that. -/
  | keyword (spare : Bool)
  /-- Behind the last operand that is looked at. -/
  | ignored
  deriving DecidableEq

/-- The roles of the operands of a form: at least these, and the role of all others if there may be
others. -/
structure Signature where
  operands : List Role
  rest : Option Role

/-- The roles of so many operands. -/
def rolesOf : List Role → Option Role → Nat → Option (List Role)
  | [], _, 0 => some []
  | [], rest, n + 1 => rest.bind fun ρ => (rolesOf [] rest n).map (ρ :: ·)
  | _ :: _, _, 0 => none
  | ρ :: ρs, rest, n + 1 => (rolesOf ρs rest n).map (ρ :: ·)

/-! ## The table -/

/-- Expressions and types, operators with two operands apart. -/
def exprTable : String → Option Signature
  | "sel" => some ⟨[.expr, .name], some .ignored⟩
  | "addr" | "not" | "neg" | "star" | "ptr" | "paren" | "slice" => some ⟨[.expr], some .ignored⟩
  | "call" => some ⟨[.expr], some .expr⟩
  | "conv" | "index" | "array" => some ⟨[.expr, .expr], some .ignored⟩
  | "lit" => some ⟨[.expr], some .element⟩
  | "func-lit" => some ⟨[.params, .params], some .stmt⟩
  | "struct" => some ⟨[], some .member⟩
  | _ => none

def exprSignature (tag : String) (args : List Look) : Option Signature :=
  if binaryOps.contains tag && args.length == 2 then some ⟨[.expr, .expr], none⟩ else exprTable tag

def elementSignature (tag : String) (args : List Look) : Option Signature :=
  if tag = "kv" then some ⟨[.expr, .expr], some .ignored⟩ else exprSignature tag args

/-- A variable has a type, or a value if `_` stands for its type. -/
def varSignature (args : List Look) : Signature :=
  if args[1]? = some (.symbol "_") then ⟨[.names, .expr, .expr], some .expr⟩
    else ⟨[.names, .expr], some .expr⟩

/-- The initial statement in front of other operands. -/
def initRoles (args : List Look) : List Role :=
  if args.head? = some (.tagged "init") then [.init] else []

/-- What comes behind the initial statement of an `if`, of so many operands. -/
def branchRoles (n : Nat) : List Role :=
  if n = 3 then [.expr, .block, .alternative] else [.expr, .block]

def forRoles (n : Nat) : List Role :=
  if n = 4 then [.optionalInline, .expr, .optionalInline, .block] else if n = 2 then [.expr, .block]
    else [.block]

def stmtSignature (tag : String) (args : List Look) : Option Signature :=
  match tag with
  | "define" | "assign" => some ⟨[.expr, .expr], some .ignored⟩
  | "define-multi" | "assign-multi" => some ⟨[.exprs 1, .expr], some .expr⟩
  | "var" => some (varSignature args)
  | "expr" | "inc" | "dec" => some ⟨[.expr], some .ignored⟩
  | "call" => some ⟨[.expr], some .expr⟩
  | "return" => some ⟨[], some .expr⟩
  | "break" | "continue" => some ⟨[], some .ignored⟩
  | "block" => some ⟨[], some .stmt⟩
  | "if" => some ⟨initRoles args ++ branchRoles (args.length - (initRoles args).length), none⟩
  | "for" => some ⟨forRoles args.length, none⟩
  | "range" => some ⟨[.expr, .expr, .expr, .block], some .ignored⟩
  | "switch" => some ⟨initRoles args ++ [.expr], some .clause⟩
  | _ => none

def blockSignature (tag : String) : Option Signature :=
  if tag = "block" then some ⟨[], some .stmt⟩ else none

def clauseSignature (tag : String) : Option Signature :=
  if tag = "default" then some ⟨[], some .stmt⟩
  else if tag = "case" then some ⟨[.exprs 0], some .stmt⟩
  else none

def itemSignature (tag : String) (args : List Look) : Option Signature :=
  match tag with
  | "package" => some ⟨[.name], some .ignored⟩
  | "import" => some ⟨[], some .path⟩
  | "type" | "alias" => some ⟨[.name, .expr], some .ignored⟩
  | "var" => some (varSignature args)
  | "func" => some ⟨[.name, .params, .params], some .stmt⟩
  | _ => none

/-- The operands of a form with this head in a role. -/
def Role.signature (ρ : Role) (tag : String) (args : List Look) : Option Signature :=
  match ρ with
  | .item => itemSignature tag args
  | .stmt | .inline | .optionalInline => stmtSignature tag args
  | .clause => clauseSignature tag
  | .alternative => if tag = "if" then stmtSignature tag args else blockSignature tag
  | .block => blockSignature tag
  | .init => if tag = "init" then some ⟨[.inline], some .ignored⟩ else none
  | .expr => exprSignature tag args
  | .element => elementSignature tag args
  | _ => none

/-- Whether a form gets a line of its own. -/
def Role.isLined (ρ : Role) (ls : List Look) : Bool :=
  match ρ with
  | .item | .stmt | .clause => true
  | .alternative => ls.head? == some (.symbol "if")
  | _ => false

/-- The roles of the items of a form with a head. -/
def headedRoles (signature : String → List Look → Option Signature) : List Look → Option (List Role)
  | .symbol tag :: args =>
    (signature tag args).bind fun σ =>
      (rolesOf σ.operands σ.rest args.length).map (.keyword false :: ·)
  | _ => none

/-- Whether a form ends with an annotation. -/
def isAnnotated (ls : List Look) : Bool := 2 ≤ ls.length && ls.getLast? == some (.tagged "want")

/-- Whether a form would be accepted with anything at all behind its items. -/
def isSpare (roles : List Look → Option (List Role)) (ls : List Look) : Bool :=
  (roles (ls ++ [.other])).bind getLast? == some .ignored

/-- The roles of the items of a form that may end with an annotation. -/
def annotatedRoles (roles : List Look → Option (List Role)) (ls : List Look) : Option (List Role) :=
  if isAnnotated ls then (roles ls.dropLast).map (· ++ [.trailer (isSpare roles ls.dropLast)])
    else roles ls

/-- Names in front, and a type at the end. -/
def namesThenType : List Look → Option (List Role)
  | [] => none
  | _ :: ls => some (replicate ls.length .name ++ [.expr])

/-- **The roles of the items of a list**, if the list can stand in its own role. -/
def Role.parts (ρ : Role) (ls : List Look) : Option (List Role) :=
  match ρ with
  | .exprs least => if ls.length < least then none else some (replicate ls.length .expr)
  | .param => namesThenType ls
  | .params => some (replicate ls.length .param)
  | .member =>
    if ls.head? = some (.symbol "embed") then headedRoles
      (fun _ _ => some ⟨[.expr], some .ignored⟩) ls
    else if ls.length < 2 then none
    else namesThenType ls
  | .names => some (replicate ls.length .name)
  | .trailer spare => some (.keyword spare :: replicate (ls.length - 1) .message)
  | .ignored => some (replicate ls.length .ignored)
  | _ =>
    if ρ.isLined ls then annotatedRoles (headedRoles ρ.signature) ls else headedRoles ρ.signature ls

/-! ## Scripts -/

/-- What building does besides making a tree: it goes on to the next line, or it records a message
on the current one. -/
inductive Sign where
  | line
  | want (message : String)
  deriving DecidableEq

/-- What is done for an accepted form, in order; nothing for one that is refused. -/
abbrev Script := Option (List Sign)

/-- One script after another. -/
def Script.join (s t : Script) : Script := s.bind fun es => t.map (es ++ ·)

/-- Several scripts, one after another. -/
def Script.all (ss : List Script) : Script := ss.foldr Script.join (some [])

/-- Whether a symbol is accepted in a role. -/
def Role.takesSymbol (ρ : Role) (name : String) : Bool :=
  match ρ with
  | .expr | .element => !((name.toList.splitOn '.').map String.ofList).any String.isEmpty
  | .name | .names => !name.toList.contains '.'
  | .optionalInline => name == "_"
  | .path | .keyword _ | .ignored => true
  | _ => false

/-- Whether a text is accepted in a role. -/
def Role.takesText (ρ : Role) : Bool :=
  match ρ with
  | .expr | .element | .path | .message | .ignored => true
  | _ => false

/-- Whether a number is accepted in a role. -/
def Role.takesNumber (ρ : Role) : Bool :=
  match ρ with
  | .expr | .element | .ignored => true
  | _ => false

/-- The script of an atom. -/
def accepted (b : Bool) : Script := if b then some [] else none

/-- The messages of an annotation. -/
def messages : Form → List String
  | .list (_ :: forms) => forms.filterMap fun
    | .text message => some message
    | _ => none
  | _ => []

/-- What is done before the items of a form are looked at. -/
def lead (ρ : Role) (forms : List Form) : List Sign :=
  if ρ.isLined (forms.map look) then
    .line :: if isAnnotated (forms.map look) then (forms.getLast?.map messages).getD
      [] |>.map .want else []
  else []

mutual

/-- **The script of a form in a role.** -/
def script : Form → Role → Script
  | .symbol name, ρ => accepted (ρ.takesSymbol name)
  | .text _, ρ => accepted ρ.takesText
  | .integer _, ρ | .real _, ρ => accepted ρ.takesNumber
  | .quoted _, ρ | .brackets _, ρ => accepted (ρ == .ignored)
  | .list forms, ρ =>
    Script.join (some (lead ρ forms)) ((ρ.parts (forms.map look)).bind (scriptAll forms))

/-- The script of some forms, each in its role. -/
def scriptAll : List Form → List Role → Script
  | [], [] => some []
  | form :: forms, ρ :: ρs => (script form ρ).join (scriptAll forms ρs)
  | _, _ => none

end

end Recast.Surface
