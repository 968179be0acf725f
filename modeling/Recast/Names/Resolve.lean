import Recast.Names.Resolver

/-!
# Resolution of names and types

Every identifier is bound and every expression typed, in one pass over the tree of a unit.  A name
that means nothing is reported and its expression left without a valid type, so that the analyses
still run on a unit that is only partly understood.

**Order.**  Imports come first, then the names of all types and functions; then the types are
completed, then the signatures of functions, then package variables in their order, and last the
bodies of functions.  Inside a body, right-hand sides come before the names they define, and a name
is visible from its definition to the end of its block.

**Completion on demand.**  The type of a type declaration is worked out when it is first needed,
wherever that is, so the order of declarations does not matter.  A declaration that needs itself
finds itself active and sees the type it has so far: a named type that stands for nothing yet, or an
invalid alias.  Expressions therefore take the way to complete a declaration as an argument,
`complete`; `completeWithin` supplies it, counting the declarations that may still be started.

* `Resolver.ofFile` — all there is to find out about a unit.
* `Info.ofFile` — what is known about a unit, and the log, unless the unit stops resolution.
-/

namespace Recast

namespace Resolve

variable (complete : Nat → Resolve Ty)

/-- The type of an identifier in a scope. -/
def identType (scope : Scope) (i : Ident) : Resolve Ty := do
  if i.name == "_" then return .invalid
  else
    match scope.lookup i.name with
    | none => unresolved ("name " ++ Text.quote i.name) i.mark.loc
    | some b =>
      refers i b
      let binding ← bindingAt b
      match binding.kind with
      | .type =>
        denotesType i.mark
        complete b
      | .package => return .invalid
      | _ => return binding.type

/-- The package that the base of a selector names, if it names one. -/
def packageOf? (scope : Scope) (base : Node) : Resolve (Option (Ident × Nat)) := do
  match base with
  | .ident i =>
    match scope.lookup i.name with
    | none => return none
    | some b => return if (← bindingAt b).kind == .package then some (i, b) else none
  | _ => return none

/-- The type of a name of a package. -/
def memberType (m : Mark) (package : Ident) (b : Nat) (name : Ident) : Resolve Ty := do
  refers package b
  let path := (← bindingAt b).package
  match ((← get).members.find? path).bind (·.find? name.name) with
  | none => unresolved ("name " ++ package.name ++ "." ++ name.name) m.loc
  | some member =>
    refers name member
    let binding ← bindingAt member
    if binding.kind == .type then denotesType m
    return binding.type

/-- The type of a field of a value. -/
def fieldType (m : Mark) (t : Ty) (name : Ident) : Resolve Ty := do
  match t.member? (← underlyings) name.name with
  | some f => typed name.mark (f.type.getD .invalid)
  | none =>
    if t.isInvalid then return .invalid
    else unresolved ("field " ++ Text.quote name.name ++ " of " ++ t.text) m.loc

/-- The type of a field that a literal sets by name. -/
def keyType (m : Mark) (u : Ty) (key : Ident) : Resolve Ty := do
  match u.member? (← underlyings) key.name with
  | some f => typed key.mark (f.type.getD .invalid)
  | none =>
    let _ ← unresolved ("field " ++ Text.quote key.name ++ " in literal") m.loc
    typed key.mark .invalid

/-- The type of a literal whose type is left out: the one expected there, or what it points to. -/
def elidedType (env : Underlying) (expected : Option Ty) : Ty :=
  let t := expected.getD .invalid
  (t.pointee? env).getD t

/-- The type of the element at position `i` of a literal, given what the type of the literal stands
for. -/
def elementType (u : Ty) (i : Nat) : Ty :=
  match u with
  | .struct _ fields => (fields[i]?.bind Member.type).getD .invalid
  | u => u.elem?.getD .invalid

/-- The length of an array type: that of a whole literal, and unknown otherwise. -/
def arrayLength : Node → Resolve Int
  | .literal _ .int value => do
    match Numeral.readInteger value with
    | .ok n => return n
    | .error fault =>
      stop fault
      return -1
  | _ => return -1

/-- The type of a call, given the type of the function and those of the arguments. -/
def callType (fn : Node) (t : Ty) (args : List Ty) : Resolve Ty := do
  match ← callee? fn with
  | some b =>
    let binding ← bindingAt b
    if binding.kind == .builtin then builtinResult binding.name args else resultOf
  | none => resultOf
where
  resultOf : Resolve Ty := do
    match t.underlying (← underlyings) with
    | .func _ _ [result] => return result.getD .invalid
    | _ => return .invalid

/-- The types that the targets of an assignment take, given those of its values: one each, or the
results of the one call on the right. -/
def valueTypes (targets : List Node) (values : List Node) (types : List Ty) :
    Resolve (List Ty) := do
  let apart :=
    if types.length == targets.length then types else List.replicate targets.length .invalid
  match values with
  | [.call _ fn _] =>
    if targets.length ≤ 1 then return apart
    else
      match ((← get).info.typeOf fn).underlying (← underlyings) with
      | .func _ _ results =>
        return if results.length == targets.length then results.map (·.getD .invalid) else apart
      | _ => return apart
  | _ => return apart

/-- Defines an identifier on the left of `:=`, or uses the one that the innermost frame already
has. -/
def defineOrReuse (i : Ident) (t : Ty) (scope : Scope) : Resolve Scope := do
  match scope.lookupHere i.name with
  | some b =>
    refers i b
    let _ ← typed i.mark (← bindingAt b).type
    return scope
  | none => define i t.defaulted scope

/-- Declares the names of a variable declaration, given its declared type and the types of its
values. -/
def declareNames (loc : Loc) (declared : Option Ty) (values : List Ty) :
    List (Ident × Ty) → Scope → Resolve Scope
  | [], scope => return scope
  | (i, v) :: rest, scope => do
    match declared with
    | some t =>
      if !values.isEmpty && !v.isInvalid then checkAssignable loc v t
      declareNames loc declared values rest (← define i t scope)
    | none => declareNames loc declared values rest (← define i v.defaulted scope)

mutual

/-- Types an expression in a scope.  A literal whose own type is left out takes the expected one. -/
def expr (scope : Scope) (expected : Option Ty) : Node → Resolve Ty
  | .ident i => do typed i.mark (← identType complete scope i)
  | .literal m .int _ => typed m (.basic .untypedInt)
  | .literal m .float _ => typed m (.basic .untypedFloat)
  | .literal m _ _ => typed m (.basic .untypedString)
  | .select m base name => do
    match ← packageOf? scope base with
    | some (package, b) => typed m (← memberType m package b name)
    | none =>
      let t ← expr scope none base
      typed m (← fieldType m t name)
  | .star m x => do
    let t ← expr scope none x
    if ← isType x then
      denotesType m
      typed m (← pointerTo t)
    else typed m ((t.pointee? (← underlyings)).getD .invalid)
  | .unary m op x => do
    let t ← expr scope none x
    if op == "&" then typed m (← pointerTo t)
    else if op == "!" then typed m (.basic (if t.isUntyped then .untypedBool else .bool))
    else typed m t
  | .binary m x op y => do
    let t ← expr scope none x
    let u ← expr scope none y
    if ["==", "!=", "<", "<=", ">", ">=", "&&", "||"].contains op then typed m (.basic .untypedBool)
    else typed m (if t.isUntyped then u else t)
  | .paren m x => do
    let t ← expr scope expected x
    if ← isType x then denotesType m
    typed m t
  | .call m fn args => do
    let t ← expr scope none fn
    if ← isType fn then
      let _ ← exprs scope (some t) args
      typed m t
    else
      let ts ← exprs scope none args
      typed m (← callType fn t ts)
  | .index m x i => do
    let t ← expr scope none x
    let u := t.underlying (← underlyings)
    let _ ← expr scope none i
    typed m (indexed (u.target (← underlyings)))
  | .composite m type elements => do
    let t ← literalType scope expected type
    elementTypes scope (t.underlying (← underlyings)) 0 elements
    typed m t
  | .keyed m key value => do
    let _ ← expr scope none key
    typed m (← expr scope expected value)
  | .funcLit m type body => do
    let (t, inner) ← signature scope.nested type
    blockStmts inner body
    typed m t
  | .arrayType m length elem => do
    denotesType m
    let t ← asType elem (← expr scope none elem)
    match length with
    | none => typed m (.slice (← serial) (some t))
    | some length =>
      let _ ← expr scope none length
      let n ← arrayLength length
      typed m (.array (← serial) (some t) n)
  | .structType m fields => do
    denotesType m
    let members ← structMembers scope fields
    typed m (.struct (← serial) members)
  | .funcType type => do
    let (t, _) ← signature scope.nested type
    typed type.mark t
  | n => do typed n.mark (← unresolved ("expression kind " ++ n.kind) n.loc)

/-- Types expressions from left to right. -/
def exprs (scope : Scope) (expected : Option Ty) : List Node → Resolve (List Ty)
  | [] => return []
  | n :: ns => do return (← expr scope expected n) :: (← exprs scope expected ns)

/-- Types an expression that may be missing. -/
def exprOption (scope : Scope) : Option Node → Resolve Unit
  | none => return ()
  | some n => do let _ ← expr scope none n

/-- Types the guards of a case; the default case has none. -/
def guardTypes (scope : Scope) : Option (List Node) → Resolve Unit
  | none => return ()
  | some ns => do let _ ← exprs scope none ns

/-- The declared type of a variable, if it has one. -/
def declaredType (scope : Scope) : Option Node → Resolve (Option Ty)
  | none => return none
  | some n => do return some (← asType n (← expr scope none n))

/-- The type of a composite literal: the written one, or else the expected one. -/
def literalType (scope : Scope) (expected : Option Ty) : Option Node → Resolve Ty
  | none => return elidedType (← underlyings) expected
  | some n => do asType n (← expr scope none n)

/-- Types the elements of a literal from position `i` on, given what the type of the literal stands
for. -/
def elementTypes (scope : Scope) (u : Ty) (i : Nat) : List Node → Resolve Unit
  | [] => return ()
  | .keyed m key value :: ns => do
    let t ← match u, key with
      | .struct .., .ident key => keyType m u key
      | u, key => do
        let _ ← expr scope none key
        pure (u.elem?.getD .invalid)
    let v ← expr scope (some t) value
    let _ ← typed m v
    elementTypes scope u (i + 1) ns
  | n :: ns => do
    let _ ← expr scope (some (elementType u i)) n
    elementTypes scope u (i + 1) ns

/-- The members of a struct type. -/
def structMembers (scope : Scope) : List Field → Resolve (List (Member Ty))
  | [] => return []
  | .mk _ names type :: fs => do
    let t ← asType type (← expr scope none type)
    let env ← underlyings
    let own :=
      if names.isEmpty then [{ name := embeddedName env t, type := some t, embedded := true }]
      else names.map fun i => { name := i.name, type := some t }
    return own ++ (← structMembers scope fs)

/-- The type of a function, with its named parameters and results declared in the scope. -/
def signature (scope : Scope) : FuncType → Resolve (Ty × Scope)
  | .mk m params results => do
    denotesType m
    let (ps, scope) ← fieldTypes scope params
    let (rs, scope) ← fieldTypes scope results
    let t ← typed m (.func (← serial) (ps.map some) (rs.map some))
    return (t, scope)

/-- The types of parameters, one for each name, with the names declared in the scope. -/
def fieldTypes (scope : Scope) : List Field → Resolve (List Ty × Scope)
  | [] => return ([], scope)
  | .mk _ names type :: fs => do
    let t ← asType type (← expr scope none type)
    let scope ← defineAll t names scope
    let (ts, scope) ← fieldTypes scope fs
    return (List.replicate (max 1 names.length) t ++ ts, scope)

/-- Resolves a statement; the result is the scope behind it. -/
def stmt (scope : Scope) : Node → Resolve Scope
  | .assign m targets op values => do
    let ts ← exprs scope none values
    let ts ← valueTypes targets values ts
    assignTargets scope (op == ":=") m.loc ts targets
  | .varSpec m names type values => do
    let declared ← declaredType scope type
    let vs ← exprs scope declared values
    let own := if vs.length == names.length then vs else List.replicate names.length .invalid
    declareNames m.loc declared vs (names.zip own) scope
  | .exprStmt _ x => do
    let _ ← expr scope none x
    return scope
  | .incDec _ x _ => do
    let _ ← expr scope none x
    return scope
  | .ret _ results => do
    let _ ← exprs scope none results
    return scope
  | .branch _ _ => return scope
  | .block body => do
    blockStmts scope.nested body
    return scope
  | .ifStmt _ init cond body orElse => do
    let inner ← stmtOption scope.nested init
    let _ ← expr inner none cond
    blockStmts inner.nested body
    let _ ← stmtOption inner orElse
    return scope
  | .forStmt _ init cond post body => do
    let inner ← stmtOption scope.nested init
    exprOption inner cond
    let inner ← stmtOption inner post
    blockStmts inner.nested body
    return scope
  | .rangeStmt _ key value op x body => do
    let t ← expr scope none x
    let (k, v) := rangeTypes (← underlyings) t
    let inner ← rangeTarget scope.nested (op == ":=") k key
    let inner ← rangeTarget inner (op == ":=") v value
    blockStmts inner.nested body
    return scope
  | .switch _ init tag clauses => do
    let inner ← stmtOption scope.nested init
    exprOption inner tag
    clauseStmts inner clauses
    return scope
  | n => do
    let _ ← unresolved ("statement kind " ++ n.kind) n.loc
    return scope

/-- Resolves statements one after the other. -/
def stmts (scope : Scope) : List Node → Resolve Scope
  | [] => return scope
  | n :: ns => do stmts (← stmt scope n) ns

/-- Resolves the statements of a block in the scope that belongs to it. -/
def blockStmts (scope : Scope) : Block → Resolve Unit
  | .mk _ ns => do let _ ← stmts scope ns

/-- Resolves a statement that may be missing. -/
def stmtOption (scope : Scope) : Option Node → Resolve Scope
  | none => return scope
  | some n => stmt scope n

/-- Resolves the targets of an assignment, given the types of the values. -/
def assignTargets (scope : Scope) (isDefine : Bool) (loc : Loc) (types : List Ty) :
    List Node → Resolve Scope
  | [] => return scope
  | .ident i :: ns => do
    let t := types.headD .invalid
    if isDefine then
      let scope ← if i.name == "_" then pure scope else defineOrReuse i t scope
      assignTargets scope isDefine loc types.tail ns
    else
      let target ← typed i.mark (← identType complete scope i)
      if !target.isInvalid && !t.isInvalid then checkAssignable loc t target
      assignTargets scope isDefine loc types.tail ns
  | n :: ns => do
    let t := types.headD .invalid
    let target ← expr scope none n
    if !target.isInvalid && !t.isInvalid then checkAssignable loc t target
    assignTargets scope isDefine loc types.tail ns

/-- Resolves the key or the value of a range statement. -/
def rangeTarget (scope : Scope) (isDefine : Bool) (t : Ty) : Option Node → Resolve Scope
  | none => return scope
  | some (.ident i) =>
    if isDefine then define i t scope
    else do
      let _ ← typed i.mark (← identType complete scope i)
      return scope
  | some n => do
    let _ ← expr scope none n
    return scope

/-- Resolves the cases of a switch, each body in a scope of its own. -/
def clauseStmts (scope : Scope) : List Clause → Resolve Unit
  | [] => return ()
  | .mk _ guards body :: cs => do
    guardTypes scope guards
    let _ ← stmts scope.nested body
    clauseStmts scope cs

end

/-! ## Declarations -/

/-- Completes a declaration, starting at most `n` declarations on the way.  One that is complete,
active or no type declaration at all has the type it has. -/
def completeWithin (package : Scope) : (n : Nat) → Nat → Resolve Ty
  | 0, b => return (← bindingAt b).type
  | n + 1, b => do
    let r ← get
    match r.pending.find? (·.binding == b) with
    | none => return (← bindingAt b).type
    | some decl =>
      if r.active.contains b then return (← bindingAt b).type
      else
        modify fun r => { r with active := b :: r.active }
        let t ← asType decl.type (← expr (completeWithin package n) package none decl.type)
        if decl.isAlias then setType b t
        else
          match (← bindingAt b).type with
          | .named d _ _ => modify fun r =>
            { r with info := { r.info with underlying := r.info.underlying.complete d t } }
          | _ => pure ()
        modify fun r =>
          { r with
            active := r.active.filter (· != b)
            pending := r.pending.filter (·.binding != b) }
        return (← bindingAt b).type

/-- The last part of an import path, by which the package is known in the unit. -/
def baseName (path : String) : String := (path.splitOn "/").getLastD ""

/-- Binds the members of a known package. -/
def bindMembers (path : String) : List Library.Entry → Frame → Resolve Frame
  | [], frame => return frame
  | e :: es, frame => do
    let b ← bind { name := e.name, kind := e.kind, type := e.type, package := path }
    bindMembers path es (frame.insert e.name b)

/-- Declares an imported package. -/
def importPackage (spec : Import) (package : Frame) : Resolve Frame := do
  let name := baseName spec.path
  let b ← bind { name := name, kind := .package, loc := spec.mark.loc, package := spec.path }
  let entries := Library.packages.find? spec.path
  let old := ((← get).members.find? spec.path).getD {}
  let frame ← bindMembers spec.path (entries.getD []) old
  modify fun r => { r with members := r.members.insert spec.path frame }
  if entries.isNone then
    note ((← get).file ++ ": no member table for package " ++ Text.quote spec.path)
  return package.insert name b

def importPackages : List Import → Frame → Resolve Frame
  | [], package => return package
  | spec :: specs, package => do importPackages specs (← importPackage spec package)

/-- A function declaration with its binding and its scope, in which its parameters are declared. -/
structure Signed where
  binding : Nat
  type : FuncType
  body : Option Block
  frame : Frame := {}

/-- Declares the names of types and functions; the functions come back for later. -/
def declareAll : List Node → Frame → Resolve (List Signed × Frame)
  | [], package => return ([], package)
  | .typeDecl _ name type isAlias :: ds, package => do
    let r ← get
    let t : Ty := if isAlias then .invalid else .named r.nextDecl name.name r.package
    let b ← bind
      { name := name.name, kind := .type, type := t, loc := name.mark.loc, package := r.package }
    if !isAlias then modify fun r => { r with nextDecl := r.nextDecl + 1 }
    defines name b
    modify fun r => { r with pending := r.pending ++ [⟨b, type, isAlias⟩] }
    declareAll ds (package.insert name.name b)
  | .funcDecl _ name type body :: ds, package => do
    let b ← bind
      { name := name.name, kind := .func, loc := name.mark.loc, package := (← get).package }
    defines name b
    let (fs, package) ← declareAll ds (package.insert name.name b)
    return (⟨b, type, body, {}⟩ :: fs, package)
  | _ :: ds, package => declareAll ds package

/-- Completes declarations in order. -/
def completeAll (complete : Nat → Resolve Ty) : List Nat → Resolve Unit
  | [] => return ()
  | b :: bs => do
    let _ ← complete b
    completeAll complete bs

/-- Gives functions their types. -/
def signAll (complete : Nat → Resolve Ty) (package : Scope) : List Signed → Resolve (List Signed)
  | [] => return []
  | f :: fs => do
    let (t, scope) ← signature complete package.nested f.type
    setType f.binding t
    return { f with frame := scope.headD {} } :: (← signAll complete package fs)

/-- Declares package variables in order. -/
def declareVars (complete : Nat → Resolve Ty) : List Node → Scope → Resolve Scope
  | [], package => return package
  | .varSpec m names type values :: ds, package => do
    declareVars complete ds (← stmt complete package (.varSpec m names type values))
  | _ :: ds, package => declareVars complete ds package

/-- Resolves the bodies of functions. -/
def resolveBodies (complete : Nat → Resolve Ty) (package : Scope) : List Signed → Resolve Unit
  | [] => return ()
  | f :: fs => do
    match f.body with
    | some body => blockStmts complete (f.frame :: package) body
    | none => pure ()
    resolveBodies complete package fs

/-- Resolves a whole unit. -/
def file (f : File) : Resolve Unit := do
  modify fun r => { r with package := f.package.name }
  let package ← importPackages f.imports {}
  let (funcs, package) ← declareAll f.decls package
  let scope : Scope := [package, Library.predeclaredFrame]
  let declared := (← get).pending.map Pending.binding
  let complete := completeWithin scope declared.length
  completeAll complete declared
  let funcs ← signAll complete scope funcs
  let scope ← declareVars complete f.decls scope
  resolveBodies complete scope funcs
  let r ← get
  note (r.file ++ ": resolved " ++ toString r.info.types.size ++ " types, " ++
    toString r.info.defs.size ++
    " defs, " ++ toString r.info.uses.size ++ " uses (" ++
      toString r.unresolved ++ " unresolved names)")

end Resolve

/-- All that resolving a unit finds out, read from a file of this name. -/
def Resolver.ofFile (name : String) (f : File) : Resolver :=
  let start : Resolver :=
    { file := name
      info := { bindings := Library.predeclared.toArray, underlying := Library.underlying } }
  ((Resolve.file f).run start).2

/-- What is known about a unit read from a file of this name, and the log. -/
def Info.ofFile (name : String) (f : File) : Except Stop (Info × Log) :=
  let r := Resolver.ofFile name f
  match r.stopped with
  | some stop => .error stop
  | none => .ok (r.info, r.log)

end Recast
