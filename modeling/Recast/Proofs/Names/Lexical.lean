import Mathlib.Tactic.Common
import Recast.Names.Resolve

/-!
# Lexical scoping

What the identifiers of a unit mean, told without the tables of a resolver.

**Words.**  A unit is read as a word of events, in the order in which names come into being and are
used: right-hand sides before the names that they define, the operand of a range before its key and
value, the first statement of an `if`, a `for` or a `switch` before the rest of it.  Scopes are
brackets in the word.  The package and each function are scopes, and so are each block, each `if`,
`for`, `range` and `switch`, and each body inside one of them.

**Environments.**  The levels of an environment are the open scopes, the innermost first.  Each has
what was declared in it so far, the most recent first, so that a name means what is found first
(`Env.lookup`).  A `:=` declares a name unless its own level has it already.

**Meaning.**  A name stands for what declared it, its `Origin`.  `Event.Holds` says of the bindings
that are known about a unit that they are right for an event: the same binding where the origin is
the same.

* `word` — the events of a unit.
* `Env.run` — the environment after some events.
* `Event.Holds` — the bindings are right for an event.
-/

namespace Recast.Lexical

/-- What declared a name. -/
inductive Origin where
  /-- The universe, which has a binding with this number. -/
  | predeclared (b : Nat)
  /-- An import, for which there is a binding with this number. -/
  | imported (b : Nat)
  /-- An identifier in the unit. -/
  | ident (i : Ident)
  deriving Repr, DecidableEq

/-- What happens to names while a unit is read. -/
inductive Event where
  /-- A scope opens. -/
  | enter
  /-- The innermost scope closes. -/
  | leave
  /-- A package is imported under a name, and has a binding with this number. -/
  | imported (name : String) (b : Nat)
  /-- An identifier declares its name. -/
  | declare (i : Ident)
  /-- An identifier stands on the left of `:=`. -/
  | define (i : Ident)
  /-- A parameter is visible again in the body of its function. -/
  | carry (i : Ident)
  /-- An identifier is used. -/
  | use (i : Ident)
  /-- The blank identifier stands before a dot. -/
  | qualifier (i : Ident)
  /-- An identifier is the key of an element of a literal, which has this number. -/
  | key (literal : Nat) (i : Ident)
  /-- An identifier is neither declared nor used, since it is blank. -/
  | blank (i : Ident)
  deriving Repr

/-- What was declared in one scope, the most recent first. -/
abbrev Level := List (String × Origin)

/-- The open scopes, the innermost first. -/
abbrev Env := List Level

namespace Env

/-- What a name means: the most recent declaration in the innermost scope that has one. -/
def lookup (name : String) : Env → Option Origin
  | [] => none
  | level :: outer =>
    match List.lookup name level with
    | some o => some o
    | none => lookup name outer

/-- What the innermost scope alone says about a name. -/
def here (name : String) : Env → Option Origin
  | [] => none
  | level :: _ => List.lookup name level

/-- Declares a name in the innermost scope. -/
def push (name : String) (o : Origin) : Env → Env
  | [] => [[(name, o)]]
  | level :: outer => ((name, o) :: level) :: outer

/-- The environment after an event. -/
def step (σ : Env) : Event → Env
  | .enter => [] :: σ
  | .leave => σ.tail
  | .imported name b => σ.push name (.imported b)
  | .declare i => σ.push i.name (.ident i)
  | .define i => if (σ.here i.name).isSome then σ else σ.push i.name (.ident i)
  | .carry i => σ.push i.name (.ident i)
  | _ => σ

/-- The environment after some events. -/
def run (σ : Env) (w : List Event) : Env := w.foldl step σ

end Env

/-! ## Words -/

/-- A word in a scope of its own. -/
def bracketed (w : List Event) : List Event := .enter :: (w ++ [.leave])

/-- An event of an identifier, if it is not blank. -/
def unlessBlank (event : Ident → Event) (i : Ident) : Event :=
  if i.name == "_" then .blank i else event i

/-- What stands before a dot is used, if it is not blank; if it is, it can only be the name of a
package. -/
def baseEvent (i : Ident) : Event := if i.name == "_" then .qualifier i else .use i

mutual

/-- The events of an expression. -/
def exprWord : Node → List Event
  | .ident i => [unlessBlank .use i]
  | .select _ (.ident i) _ => [baseEvent i]
  | .select _ base _ => exprWord base
  | .star _ x => exprWord x
  | .unary _ _ x => exprWord x
  | .binary _ x _ y => exprWord x ++ exprWord y
  | .paren _ x => exprWord x
  | .call _ fn args => exprWord fn ++ exprsWord args
  | .index _ x i => exprWord x ++ exprWord i
  | .composite m type elements => optionWord type ++ elementsWord m.id elements
  | .keyed _ key value => exprWord key ++ exprWord value
  | .funcLit _ type (.mk _ body) => bracketed (signatureWord type ++ stmtsWord body)
  | .arrayType _ length elem => exprWord elem ++ optionWord length
  | .structType _ fields => membersWord fields
  | .funcType type => bracketed (signatureWord type)
  | _ => []

/-- The events of expressions, from left to right. -/
def exprsWord : List Node → List Event
  | [] => []
  | n :: ns => exprWord n ++ exprsWord ns

/-- The events of an expression that may be missing. -/
def optionWord : Option Node → List Event
  | none => []
  | some n => exprWord n

/-- The events of the guards of a case. -/
def guardsWord : Option (List Node) → List Event
  | none => []
  | some ns => exprsWord ns

/-- The events of the elements of a literal. -/
def elementsWord (literal : Nat) : List Node → List Event
  | [] => []
  | .keyed _ (.ident key) value :: ns =>
    .key literal key :: (exprWord value ++ elementsWord literal ns)
  | n :: ns => exprWord n ++ elementsWord literal ns

/-- The events of the members of a struct type, whose names are not declared in any scope. -/
def membersWord : List Field → List Event
  | [] => []
  | .mk _ _ type :: fs => exprWord type ++ membersWord fs

/-- The events of a signature. -/
def signatureWord : FuncType → List Event
  | .mk _ params results => fieldsWord params ++ fieldsWord results

/-- The events of parameters or results. -/
def fieldsWord : List Field → List Event
  | [] => []
  | .mk _ names type :: fs => exprWord type ++ (names.map (unlessBlank .declare) ++ fieldsWord fs)

/-- The events of a statement. -/
def stmtWord : Node → List Event
  | .assign _ targets op values => exprsWord values ++ targetsWord (op == ":=") targets
  | .varSpec _ names type values =>
    optionWord type ++ (exprsWord values ++ names.map (unlessBlank .declare))
  | .exprStmt _ x => exprWord x
  | .incDec _ x _ => exprWord x
  | .ret _ results => exprsWord results
  | .block (.mk _ body) => bracketed (stmtsWord body)
  | .ifStmt _ init cond (.mk _ body) orElse =>
    bracketed
      (stmtOptionWord init ++
        (exprWord cond ++ (bracketed (stmtsWord body) ++ stmtOptionWord orElse)))
  | .forStmt _ init cond post (.mk _ body) =>
    bracketed
      (stmtOptionWord init ++
        (optionWord cond ++ (stmtOptionWord post ++ bracketed (stmtsWord body))))
  | .rangeStmt _ key value op x (.mk _ body) =>
    exprWord x ++ bracketed
      (rangeWord (op == ":=") key ++ (rangeWord (op == ":=") value ++ bracketed (stmtsWord body)))
  | .switch _ init tag clauses =>
    bracketed (stmtOptionWord init ++ (optionWord tag ++ clausesWord clauses))
  | _ => []

/-- The events of statements one after the other. -/
def stmtsWord : List Node → List Event
  | [] => []
  | n :: ns => stmtWord n ++ stmtsWord ns

/-- The events of a statement that may be missing. -/
def stmtOptionWord : Option Node → List Event
  | none => []
  | some n => stmtWord n

/-- The events of the targets of an assignment. -/
def targetsWord (isDefine : Bool) : List Node → List Event
  | [] => []
  | .ident i :: ns => unlessBlank (if isDefine then .define else .use) i :: targetsWord isDefine ns
  | n :: ns => exprWord n ++ targetsWord isDefine ns

/-- The events of the key or the value of a range. -/
def rangeWord (isDefine : Bool) : Option Node → List Event
  | none => []
  | some (.ident i) => [unlessBlank (if isDefine then .declare else .use) i]
  | some n => exprWord n

/-- The events of the cases of a switch, each body in a scope of its own. -/
def clausesWord : List Clause → List Event
  | [] => []
  | .mk _ guards body :: cs => guardsWord guards ++ (bracketed (stmtsWord body) ++ clausesWord cs)

end

/-! ## Units -/

/-- How many members of a package are known. -/
def memberCount (path : String) : Nat := ((Library.packages.find? path).getD []).length

/-- The events of imports, given the number of the next binding.  The members of a package have
bindings of their own, which come behind that of the package. -/
def importsWord : Nat → List Import → List Event
  | _, [] => []
  | b, spec :: specs =>
    .imported (Resolve.baseName spec.path) b :: importsWord (b + 1 + memberCount spec.path) specs

/-- The number of the next binding behind imports. -/
def behindImports : Nat → List Import → Nat
  | b, [] => b
  | b, spec :: specs => behindImports (b + 1 + memberCount spec.path) specs

/-- The number of the first binding behind those of the universe and the imports. -/
def firstOwn (imports : List Import) : Nat := behindImports Library.predeclared.length imports

/-- The names of types and functions, all of which are declared before anything else is looked
at. -/
def declaredName : Node → List Event
  | .typeDecl _ name _ _ => [.declare name]
  | .funcDecl _ name _ _ => [.declare name]
  | _ => []

/-- The events of the type of a type declaration. -/
def typeWord : Node → List Event
  | .typeDecl _ _ type _ => exprWord type
  | _ => []

/-- The events of the signature of a function declaration. -/
def headWord : Node → List Event
  | .funcDecl _ _ type _ => bracketed (signatureWord type)
  | _ => []

/-- The events of a package variable. -/
def varWord : Node → List Event
  | .varSpec m names type values => stmtWord (.varSpec m names type values)
  | _ => []

/-- The names of parameters or results. -/
def fieldNames (fs : List Field) : List Ident :=
  fs.flatMap fun f => f.names.filter fun i => !(i.name == "_")

/-- The parameters and results of a function, seen from its body. -/
def carriedWord : FuncType → List Event
  | .mk _ params results => (fieldNames params ++ fieldNames results).map .carry

/-- The events of the body of a function declaration, in the scope that has its parameters
already. -/
def bodyWord : Node → List Event
  | .funcDecl _ _ type (some (.mk _ body)) => bracketed (carriedWord type ++ stmtsWord body)
  | _ => []

/-- **The events of a unit.** -/
def word (f : File) : List Event :=
  importsWord Library.predeclared.length f.imports ++
    (f.decls.flatMap declaredName ++ (f.decls.flatMap typeWord ++
    (f.decls.flatMap headWord ++ (f.decls.flatMap varWord ++ f.decls.flatMap bodyWord))))

/-- The names of the universe. -/
def predeclaredLevel : Level :=
  (Library.predeclared.zipIdx.map fun (b, i) => (b.name, .predeclared i)).reverse

/-- The environment in which a unit is read: an empty package in the universe. -/
def start : Env := [[], predeclaredLevel]

attribute [local simp] exprWord elementsWord Env.step Env.run

/-! ## Meaning -/

/-- The number of the binding that belongs to what declared a name. -/
def Origin.number? (info : Info) : Origin → Option Nat
  | .predeclared b => some b
  | .imported b => some b
  | .ident i => info.defs.find? i.mark.id

/-- The binding of what a name means. -/
def Env.binding? (info : Info) (σ : Env) (name : String) : Option Nat :=
  (σ.lookup name).bind (Origin.number? info)

/-- The binding of what the blank identifier means before a dot, where it can mean a package
only. -/
def Env.package? (σ : Env) (name : String) : Option Nat :=
  match σ.lookup name with
  | some (.imported b) => some b
  | _ => none

/-- An identifier has a binding of its own. -/
def Declared (info : Info) (i : Ident) : Prop :=
  ∃ b, info.defs.find? i.mark.id = some b ∧ b < info.bindings.size ∧
    (info.binding b).name = i.name ∧
    (info.binding b).loc = i.mark.loc

/-- **The bindings are right for an event** that happens in an environment.  What a key means
depends on the literal: the keys of a struct are names of fields, and all others are expressions;
where it is not known whether a literal is a struct, either may be the case. -/
def Event.Holds (info : Info) (isStruct? : Nat → Option Bool) (σ : Env) : Event → Prop
  | .imported name b =>
    b < info.bindings.size ∧ (info.binding b).kind = .package ∧ (info.binding b).name = name
  | .declare i => Declared info i
  | .define i =>
    match σ.here i.name with
    | some o => info.defs.find? i.mark.id = none ∧ info.bindingOf? i = o.number? info
    | none => Declared info i
  | .use i => info.bindingOf? i = σ.binding? info i.name
  | .qualifier i => info.bindingOf? i = σ.package? i.name
  | .key literal i =>
    isStruct? literal ≠ some false ∧ info.bindingOf? i = none ∨
      isStruct? literal ≠ some true ∧ info.bindingOf? i = if i.name == "_" then none
        else σ.binding? info i.name
  | .blank i => info.bindingOf? i = none
  | _ => True

/-- The bindings are right for all events of a word that begins in an environment. -/
def HoldsAll (info : Info) (isStruct? : Nat → Option Bool) : Env → List Event → Prop
  | _, [] => True
  | σ, e :: w => e.Holds info isStruct? σ ∧ HoldsAll info isStruct? (σ.step e) w

/-! ## Words and scopes -/

variable {w w' : List Event} {σ : Env}

lemma Env.run_append (σ : Env) (w w' : List Event) : σ.run (w ++ w') = (σ.run w).run w' :=
  List.foldl_append

/-- A word after which every environment is as before. -/
def Keeps (w : List Event) : Prop := ∀ σ : Env, σ.run w = σ

/-- A word that concerns the innermost scope only. -/
def Stays (w : List Event) : Prop :=
  ∀ (level : Level) (σ : Env), ∃ level', Env.run (level :: σ) w = level' :: σ

lemma keeps_nil : Keeps [] := fun _ => rfl

lemma Keeps.append (h : Keeps w) (h' : Keeps w') : Keeps (w ++ w') := by
  intro σ
  rw [Env.run_append, h, h']

lemma Keeps.stays (h : Keeps w) : Stays w := fun level _ => ⟨level, h _⟩

lemma Stays.append (h : Stays w) (h' : Stays w') : Stays (w ++ w') := by
  intro level σ
  obtain ⟨level₁, h₁⟩ := h level σ
  rw [Env.run_append, h₁]
  exact h' level₁ σ

/-- What happens in a scope of its own is over when the scope closes. -/
lemma Stays.bracketed (h : Stays w) : Keeps (bracketed w) := by
  intro σ
  obtain ⟨level, hlevel⟩ := h [] σ
  show Env.run ([] :: σ) (w ++ [.leave]) = σ
  rw [Env.run_append, hlevel]
  rfl

/-- A use leaves the environment as it is. -/
lemma keeps_use (i : Ident) : Keeps [unlessBlank .use i] := by
  intro σ
  rw [unlessBlank]
  split
  · rfl
  · rfl

/-- A declaration concerns the innermost scope only. -/
lemma stays_declare (i : Ident) : Stays [unlessBlank .declare i] := by
  intro level σ
  rw [unlessBlank]
  split
  · exact ⟨_, rfl⟩
  · exact ⟨_, rfl⟩

lemma stays_define (i : Ident) : Stays [unlessBlank .define i] := by
  intro level σ
  rw [unlessBlank]
  split
  · exact ⟨_, rfl⟩
  · simp
    split
    · exact ⟨_, rfl⟩
    · exact ⟨_, rfl⟩

lemma stays_declareAll (is : List Ident) : Stays (is.map (unlessBlank .declare)) := by
  induction is with
  | nil => exact keeps_nil.stays
  | cons i is ih => exact (stays_declare i).append ih

lemma keeps_select {base : Node} (m : Mark) (name : Ident) (h : Keeps (exprWord base)) :
    Keeps (exprWord (.select m base name)) := by
  cases base with
  | ident i =>
    intro σ
    simp only [exprWord, baseEvent]
    split
    · rfl
    · rfl
  | _ => exact h

lemma keeps_elements {n : Node} {ns : List Node} {literal : Nat} (h : Keeps (exprWord n))
    (hs : Keeps (elementsWord literal ns)) : Keeps (elementsWord literal (n :: ns)) := by
  rw [elementsWord.eq_def]
  split
  · rename_i heq
    cases heq
  · rename_i m key value ns' heq
    cases heq
    have hvalue : Keeps (exprWord value) := by
      intro σ
      have hkeyed := h σ
      rw [exprWord, Env.run_append, exprWord, keeps_use] at hkeyed
      exact hkeyed
    have hkey : Keeps [.key literal key] := fun _ => rfl
    exact hkey.append (hvalue.append hs)
  · rename_i heq
    cases heq
    exact h.append hs

lemma stays_targets {n : Node} {ns : List Node} {isDefine : Bool} (h : Keeps (exprWord n))
    (hs : Stays (targetsWord isDefine ns)) : Stays (targetsWord isDefine (n :: ns)) := by
  cases n with
  | ident i =>
    cases isDefine with
    | true => exact (stays_define i).append hs
    | false => exact (keeps_use i).stays.append hs
  | _ => exact h.stays.append hs

lemma stays_range {n : Node} {isDefine : Bool} (h : Keeps (exprWord n)) :
    Stays (rangeWord isDefine (some n)) := by
  cases n with
  | ident i =>
    cases isDefine with
    | true => exact stays_declare i
    | false => exact (keeps_use i).stays
  | _ => exact h.stays

section Compound

variable {m bm : Mark} {init cond post tag key value orElse : Option Node}
  {x : Node} {body : List Node}
  {clauses : List Clause} {op : String} (hbody : Stays (stmtsWord body))

include hbody

lemma keeps_block : Keeps (stmtWord (.block (.mk bm body))) := hbody.bracketed

lemma keeps_ifStmt (hinit : Stays (stmtOptionWord init)) (hx : Keeps (exprWord x))
    (horElse : Stays (stmtOptionWord orElse)) :
    Keeps (stmtWord (.ifStmt m init x (.mk bm body) orElse)) :=
  (hinit.append (hx.stays.append (hbody.bracketed.stays.append horElse))).bracketed

lemma keeps_forStmt (hinit : Stays (stmtOptionWord init)) (hcond : Keeps (optionWord cond))
    (hpost : Stays (stmtOptionWord post)) :
    Keeps (stmtWord (.forStmt m init cond post (.mk bm body))) :=
  (hinit.append (hcond.stays.append (hpost.append hbody.bracketed.stays))).bracketed

lemma keeps_rangeStmt (hkey : Stays (rangeWord (op == ":=") key))
    (hvalue : Stays (rangeWord (op == ":=") value))
    (hx : Keeps (exprWord x)) : Keeps (stmtWord (.rangeStmt m key value op x (.mk bm body))) :=
  hx.append (hkey.append (hvalue.append hbody.bracketed.stays)).bracketed

omit hbody in
lemma keeps_switch (hinit : Stays (stmtOptionWord init)) (htag : Keeps (optionWord tag))
    (hclauses : Keeps (clausesWord clauses)) : Keeps (stmtWord (.switch m init tag clauses)) :=
  (hinit.append (htag.append hclauses).stays).bracketed

end Compound

mutual

/-- Expressions leave every environment as it was. -/
lemma keeps_exprWord : (n : Node) → Keeps (exprWord n)
  | .ident i => keeps_use i
  | .select m base name => keeps_select m name (keeps_exprWord base)
  | .star _ x => keeps_exprWord x
  | .unary _ _ x => keeps_exprWord x
  | .binary _ x _ y => (keeps_exprWord x).append (keeps_exprWord y)
  | .paren _ x => keeps_exprWord x
  | .call _ fn args => (keeps_exprWord fn).append (keeps_exprsWord args)
  | .index _ x i => (keeps_exprWord x).append (keeps_exprWord i)
  | .composite m type elements => (keeps_optionWord type).append (keeps_elementsWord m.id elements)
  | .keyed _ key value => (keeps_exprWord key).append (keeps_exprWord value)
  | .funcLit _ type (.mk _ body) =>
    ((stays_signatureWord type).append (stays_stmtsWord body)).bracketed
  | .arrayType _ length elem => (keeps_exprWord elem).append (keeps_optionWord length)
  | .structType _ fields => keeps_membersWord fields
  | .funcType type => (stays_signatureWord type).bracketed
  | .literal .. | .field _ | .assign .. | .varSpec .. | .exprStmt .. | .incDec .. | .ret ..
  | .branch .. | .block _
  | .ifStmt .. | .forStmt .. | .rangeStmt .. | .clause _ | .switch .. | .importSpec _
  | .typeDecl .. | .funcDecl ..
  | .file .. => keeps_nil

lemma keeps_exprsWord : (ns : List Node) → Keeps (exprsWord ns)
  | [] => keeps_nil
  | n :: ns => (keeps_exprWord n).append (keeps_exprsWord ns)

lemma keeps_optionWord : (o : Option Node) → Keeps (optionWord o)
  | none => keeps_nil
  | some n => keeps_exprWord n

lemma keeps_guardsWord : (o : Option (List Node)) → Keeps (guardsWord o)
  | none => keeps_nil
  | some ns => keeps_exprsWord ns

lemma keeps_elementsWord (literal : Nat) : (ns : List Node) → Keeps (elementsWord literal ns)
  | [] => keeps_nil
  | n :: ns => keeps_elements (keeps_exprWord n) (keeps_elementsWord literal ns)

lemma keeps_membersWord : (fs : List Field) → Keeps (membersWord fs)
  | [] => keeps_nil
  | .mk _ _ type :: fs => (keeps_exprWord type).append (keeps_membersWord fs)

lemma stays_signatureWord : (t : FuncType) → Stays (signatureWord t)
  | .mk _ params results => (stays_fieldsWord params).append (stays_fieldsWord results)

lemma stays_fieldsWord : (fs : List Field) → Stays (fieldsWord fs)
  | [] => keeps_nil.stays
  | .mk _ names type :: fs =>
    (keeps_exprWord type).stays.append ((stays_declareAll names).append (stays_fieldsWord fs))

/-- Statements concern the innermost scope only. -/
lemma stays_stmtWord : (n : Node) → Stays (stmtWord n)
  | .assign _ targets _ values =>
    (keeps_exprsWord values).stays.append (stays_targetsWord _ targets)
  | .varSpec _ names type values =>
    (keeps_optionWord type).stays.append
      ((keeps_exprsWord values).stays.append (stays_declareAll names))
  | .exprStmt _ x => (keeps_exprWord x).stays
  | .incDec _ x _ => (keeps_exprWord x).stays
  | .ret _ results => (keeps_exprsWord results).stays
  | .block (.mk _ body) => (keeps_block (stays_stmtsWord body)).stays
  | .ifStmt _ init cond (.mk _ body) orElse =>
    (keeps_ifStmt (stays_stmtsWord body) (stays_stmtOptionWord init) (keeps_exprWord cond)
      (stays_stmtOptionWord orElse)).stays
  | .forStmt _ init cond post (.mk _ body) =>
    (keeps_forStmt (stays_stmtsWord body) (stays_stmtOptionWord init) (keeps_optionWord cond)
      (stays_stmtOptionWord post)).stays
  | .rangeStmt _ key value _ x (.mk _ body) =>
    (keeps_rangeStmt (stays_stmtsWord body) (stays_rangeWord _ key) (stays_rangeWord _ value)
      (keeps_exprWord x)).stays
  | .switch _ init tag clauses =>
    (keeps_switch (stays_stmtOptionWord init) (keeps_optionWord tag)
      (keeps_clausesWord clauses)).stays
  | .ident _ | .literal .. | .composite .. | .keyed .. | .select .. | .star .. | .unary ..
  | .binary .. | .paren ..
  | .call .. | .index .. | .funcLit .. | .arrayType .. | .structType .. | .funcType _ | .field _
  | .branch .. | .clause _
  | .importSpec _ | .typeDecl .. | .funcDecl .. | .file .. => keeps_nil.stays

lemma stays_stmtsWord : (ns : List Node) → Stays (stmtsWord ns)
  | [] => keeps_nil.stays
  | n :: ns => (stays_stmtWord n).append (stays_stmtsWord ns)

lemma stays_stmtOptionWord : (o : Option Node) → Stays (stmtOptionWord o)
  | none => keeps_nil.stays
  | some n => stays_stmtWord n

lemma stays_targetsWord (isDefine : Bool) : (ns : List Node) → Stays (targetsWord isDefine ns)
  | [] => keeps_nil.stays
  | n :: ns => stays_targets (keeps_exprWord n) (stays_targetsWord isDefine ns)

lemma stays_rangeWord (isDefine : Bool) : (o : Option Node) → Stays (rangeWord isDefine o)
  | none => keeps_nil.stays
  | some n => stays_range (keeps_exprWord n)

lemma keeps_clausesWord : (cs : List Clause) → Keeps (clausesWord cs)
  | [] => keeps_nil
  | .mk _ guards body :: cs =>
    (keeps_guardsWord guards).append
      ((stays_stmtsWord body).bracketed.append (keeps_clausesWord cs))

end

/-- A statement with scopes of its own. -/
def isCompound : Node → Bool
  | .block _ | .ifStmt .. | .forStmt .. | .rangeStmt .. | .switch .. => true
  | _ => false

/-- **Compound statements leave every environment as it was**, so that behind one the visible names
are those before it, with the same meaning. -/
lemma keeps_compound {n : Node} (h : isCompound n = true) : Keeps (stmtWord n) := by
  cases n with
  | block b =>
    obtain ⟨bm, body⟩ := b
    exact keeps_block (stays_stmtsWord body)
  | ifStmt m init cond b orElse =>
    obtain ⟨bm, body⟩ := b
    exact keeps_ifStmt (stays_stmtsWord body) (stays_stmtOptionWord init) (keeps_exprWord cond)
      (stays_stmtOptionWord orElse)
  | forStmt m init cond post b =>
    obtain ⟨bm, body⟩ := b
    exact keeps_forStmt (stays_stmtsWord body) (stays_stmtOptionWord init) (keeps_optionWord cond)
      (stays_stmtOptionWord post)
  | rangeStmt m key value op x b =>
    obtain ⟨bm, body⟩ := b
    exact keeps_rangeStmt (stays_stmtsWord body) (stays_rangeWord _ key)
      (stays_rangeWord _ value) (keeps_exprWord x)
  | switch m init tag clauses =>
    exact keeps_switch (stays_stmtOptionWord init) (keeps_optionWord tag)
      (keeps_clausesWord clauses)
  | _ => cases h

end Recast.Lexical
