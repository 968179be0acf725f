import Recast.Decimal.Numeral
import Recast.Log
import Recast.Names.Info
import Recast.Names.Library
import Recast.Types.Identity

/-!
# The state of resolution

What resolving a unit has found out so far, and the single steps by which it goes on: recording a
type, declaring a name, building a type, reporting what it cannot resolve.

A **type node** is an expression that denotes a type.  Whether an expression does is not visible in
its shape, so the nodes that do are recorded as they are met.

A **pending** declaration is a type declaration whose type has not been worked out.  It stops being
pending when it is complete; while it is being completed it is **active**.

A unit **stops** resolution when the length of an array is a whole literal that is no numeral.  The
steps that follow have an answer all the same, as if the length were unknown; what counts is the
first stop, with the log up to it.
-/

namespace Recast

/-- A type declaration that is not complete. -/
structure Pending where
  binding : Nat
  type : Node
  isAlias : Bool

/-- Why a unit cannot be resolved, and the log up to there. -/
structure Stop where
  fault : Numeral.Fault
  log : Log

/-- What resolving a unit has found out so far. -/
structure Resolver where
  file : String
  package : String := ""
  info : Info := {}
  /-- The numbers of the nodes that denote types. -/
  typeNodes : List Nat := []
  /-- The numbers of the nodes whose types were recorded, the last one first; one that is recorded
  again comes again. -/
  recorded : List Nat := []
  /-- The members of imported packages, by path and name. -/
  members : Table String Frame := {}
  pending : List Pending := []
  active : List Nat := []
  unresolved : Nat := 0
  nextDecl : Nat := Library.firstDecl
  nextSerial : Nat := Library.firstSerial
  log : Log := []
  /-- The first thing that makes it impossible to resolve the unit. -/
  stopped : Option Stop := none

/-- A step of resolution. -/
abbrev Resolve := StateM Resolver

namespace Resolve

/-- Makes an entry in the log. -/
def note (text : String) : Resolve Unit :=
  modify fun r => { r with log := r.log ++ [{ channel := .resolving, text := text }] }

/-- Stops resolution, unless it is stopped already. -/
def stop (fault : Numeral.Fault) : Resolve Unit :=
  modify fun r => { r with stopped := r.stopped <|> some ⟨fault, r.log⟩ }

/-- What named types stand for at this moment. -/
def underlyings : Resolve Underlying := return (← get).info.underlying

/-- Records the type of a node. -/
def typed (m : Mark) (t : Ty) : Resolve Ty := do
  modify fun r =>
    { r with
      info := { r.info with types := r.info.types.insert m.id t }
      recorded := m.id :: r.recorded }
  return t

/-- Records that a node denotes a type. -/
def denotesType (m : Mark) : Resolve Unit :=
  modify fun r => { r with typeNodes := m.id :: r.typeNodes }

/-- Whether a node is known to denote a type. -/
def isType (n : Node) : Resolve Bool := return (← get).typeNodes.contains n.id

/-- Reports something that cannot be resolved. -/
def unresolved (what : String) (loc : Loc) : Resolve Ty := do
  modify fun r => { r with unresolved := r.unresolved + 1 }
  note (loc.shown ++ ": unresolved " ++ what)
  return .invalid

/-- The type that an expression denotes, given the type it has: invalid for one that denotes a
value. -/
def asType (n : Node) (t : Ty) : Resolve Ty := do
  if (← isType n) || t.isInvalid then return t
  else
    note (n.loc.shown ++ ": expected a type, got a value of type " ++ t.text)
    return .invalid

/-- Takes a new serial number. -/
def serial : Resolve Nat :=
  modifyGet fun r => (r.nextSerial, { r with nextSerial := r.nextSerial + 1 })

/-- A new pointer type. -/
def pointerTo (t : Ty) : Resolve Ty := return .pointer (← serial) (some t)

/-- Adds a binding and returns its number. -/
def bind (b : Binding) : Resolve Nat := modifyGet fun r =>
  (r.info.bindings.size, { r with info := { r.info with bindings := r.info.bindings.push b } })

/-- The binding with this number. -/
def bindingAt (b : Nat) : Resolve Binding := return (← get).info.binding b

/-- Gives a binding its type. -/
def setType (b : Nat) (t : Ty) : Resolve Unit := modify fun r =>
  { r with
    info := { r.info with bindings := r.info.bindings.modify b fun x => { x with type := t } } }

/-- Records the binding that an identifier declares. -/
def defines (i : Ident) (b : Nat) : Resolve Unit := modify fun r =>
  { r with info := { r.info with defs := r.info.defs.insert i.mark.id b } }

/-- Records the binding that an identifier refers to. -/
def refers (i : Ident) (b : Nat) : Resolve Unit := modify fun r =>
  { r with info := { r.info with uses := r.info.uses.insert i.mark.id b } }

/-- Declares a variable in the innermost frame of a scope; `_` declares nothing. -/
def define (i : Ident) (t : Ty) (scope : Scope) : Resolve Scope := do
  if i.name == "_" then return scope
  else
    let b ← bind
      { name := i.name, kind := .var, type := t, loc := i.mark.loc, package := (← get).package }
    defines i b
    let _ ← typed i.mark t
    return scope.declare i.name b

/-- Declares variables of one type, from left to right. -/
def defineAll (t : Ty) : List Ident → Scope → Resolve Scope
  | [], scope => return scope
  | i :: is, scope => do defineAll t is (← define i t scope)

/-- Notes a value that does not fit where it goes. -/
def checkAssignable (loc : Loc) (v t : Ty) : Resolve Unit := do
  if !v.assignable (← underlyings) t then
    note (loc.shown ++ ": " ++ v.text ++ " is not assignable to " ++ t.text)

/-- The type of a call to a function of the language. -/
def builtinResult (name : String) (args : List Ty) : Resolve Ty :=
  match name, args with
  | "len", _ | "cap", _ | "copy", _ => return .basic .int
  | "new", t :: _ => pointerTo t
  | "make", t :: _ | "append", t :: _ => return t
  | _, _ => return .invalid

/-- The binding that the function of a call refers to. -/
def callee? (fn : Node) : Resolve (Option Nat) := do
  let uses := (← get).info.uses
  match fn with
  | .ident i => return uses.find? i.mark.id
  | .select _ _ name => return uses.find? name.mark.id
  | _ => return none

/-- The name under which a struct has an embedded field: that of the named type, seen through one
pointer. -/
def embeddedName (env : Underlying) (t : Ty) : String :=
  let u := if t.isNamed then t else (t.pointee? env).getD t
  match u with
  | .named _ name _ => name
  | u => u.text

/-- The kinds of number that a range statement can count up to. -/
def countable : List Basic :=
  [.int, .int8, .int16, .int32, .int64, .uint, .uint8, .uint16, .uint32, .uint64,
    .uintptr, .untypedInt]

/-- The types of the key and the value of a range over an operand, given what its type stands
for. -/
def rangeTypes (env : Underlying) (t : Ty) : Ty × Ty :=
  match t.target env with
  | .slice _ elem => (.basic .int, elem.getD .invalid)
  | .array _ elem _ => (.basic .int, elem.getD .invalid)
  | u =>
    if u.isBasic [.string, .untypedString] then (.basic .int, .basic .int32)
    else if u.isBasic countable then (u.defaulted, .invalid)
    else (.invalid, .invalid)

/-- The type of an element, given what the type of the whole stands for. -/
def indexed (u : Ty) : Ty :=
  match u with
  | .slice _ (some elem) => elem
  | .array _ (some elem) _ => elem
  | u => if u.isBasic [.string, .untypedString] then .basic .uint8 else .invalid

end Resolve

end Recast
