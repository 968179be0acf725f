import Recast.Checker.Basic
import Recast.Idiom
import Recast.Names.Assigned

/-!
# Misuse of headers

A header is meant to be derived from a slice or a string that exists.  This checker finds

* **header literals** — every composite literal whose type is a header;
* **unsafe header writes** — every assignment to a field of a header variable whose last definition
  on the way to the assignment is not a derivation from a genuine slice or string.

Both are found in one walk and listed in pre-order.

**Which target counts.**  Of several targets of one assignment only the first that settles the
matter is judged: a target that is no field selection settles it as safe, a header field of anything
but a plain variable as unsafe, and a variable that is no header leaves it to the next target.

**Which way counts.**  The search for a way to the assignment gives one way, the first in
depth-first order; a variable whose last definition is safe on that way is taken to be safe.
Without a way the write is unsafe.
-/

namespace Recast.HeaderMisuse

/-- A suspicious node. -/
inductive Evidence where
  /-- A literal of a header type, with the spelling of that type. -/
  | literal (loc : Loc) (type : String)
  /-- A write to a field of a header. -/
  | write (loc : Loc)
  deriving Repr, DecidableEq

namespace Evidence

def isLiteral : Evidence → Bool
  | .literal .. => true
  | .write _ => false

/-- The finding that a piece of evidence leads to. -/
def draft : Evidence → Draft
  | .literal loc type =>
    { id := "headerLiteral", message := "header literal construction found",
      loc := loc, extra := type }
  | .write loc =>
    { id := "unsafeHeaderAssignment", message := "assignment to unsafely derived header object",
      loc := loc }

end Evidence

/-- Whether a value makes a header out of a genuine slice or string. -/
def isGenuineDerivation (info : Info) (value : Node) : Bool :=
  match value.headerDerivation? info with
  | some d => d.operandType.isGenuineReference info.underlying
  | none => false

/-- Whether the last definition of a variable among some nodes is a genuine derivation. -/
def endsSafely (info : Info) (b : Nat) (nodes : List Node) : Bool :=
  match nodes.reverse.findSome? (info.assigned? b) with
  | some (some value) => isGenuineDerivation info value
  | _ => false

/-- Whether a header variable holds a genuine header where an assignment uses it. -/
def isDerivedSafely (unit : CompilationUnit) (budget : Int) (stmt : Mark)
    (above : List Node) (b : Nat) :
    StateM Session Bool := do
  match Node.enclosingFunction above with
  | none =>
    Session.note .checking ("header write outside any function at " ++ stmt.loc.shown)
    return false
  | some fn =>
    match ← Session.pathTo? (← Session.graphOf fn) stmt budget with
    | none =>
      Session.note .checking ("no CFG path to " ++ stmt.loc.shown)
      return false
    | some path => return endsSafely unit.info b path.dropLast

/-- Whether an assignment to these targets writes to a header that is not known to be genuine. -/
def isUnsafeWrite (unit : CompilationUnit) (budget : Int) (stmt : Mark) (above : List Node) :
    List Node → StateM Session Bool
  | .select _ (.ident base) _ :: targets => do
    match unit.info.bindingOf? base with
    | none =>
      Session.note .checking
        ("unresolved assignment target " ++ base.name ++ " at " ++ stmt.loc.shown)
      return true
    | some b =>
      if (unit.info.binding b).type.isHeaderShaped unit.info.underlying then
        return !(← isDerivedSafely unit budget stmt above b)
      else isUnsafeWrite unit budget stmt above targets
  | .select _ base _ :: _ => return (unit.info.typeOf base).isHeaderShaped unit.info.underlying
  | _ => return false

/-- The kinds of nodes at which there may be evidence. -/
def isSite : Node → Bool
  | .composite .. => true
  | .assign .. => true
  | _ => false

/-- The evidence at one node. -/
def evidenceAt (unit : CompilationUnit) (budget : Int) (v : Visit) :
    StateM Session (Option Evidence) := do
  match v.node with
  | .composite m type elements =>
    if (unit.info.typeOf (.composite m type elements)).isHeaderShaped unit.info.underlying then
      return some (.literal m.loc (spelledOption type))
    else return none
  | .assign m targets _ _ =>
    if ← isUnsafeWrite unit budget m v.above targets then return some (.write m.loc)
    else return none
  | _ => return none

/-- The evidence at nodes, from left to right. -/
def evidence (unit : CompilationUnit) (budget : Int) : List Visit → StateM Session (List Evidence)
  | [] => return []
  | v :: vs => do
    let here ← evidenceAt unit budget v
    let rest ← evidence unit budget vs
    return here.toList ++ rest

/-- The name of the option for the search budget. -/
def budgetOption : String := "cfg_search_budget"

/-- The search budget that options ask for. -/
def budget (options : Options) : Except Failure Int :=
  match options.find? budgetOption with
  | none => .ok Flow.defaultBudget
  | some setting =>
    match setting.toInteger with
    | .ok n => .ok n
    | .error fault => .error (.option fault)

/-- The checker for the misuse of headers. -/
def checker : Checker where
  name := "header-misuse"
  description := "Slice/string header construction and mutation"
  ids := ["headerLiteral", "unsafeHeaderAssignment"]
  requires := [.syntaxTree, .typeInfo, .controlFlow]
  examine unit options := do
    let budget ← budget options
    let found ← evidence unit budget (unit.file.node.walk isSite)
    Session.count "header-misuse_literals" (found.countP Evidence.isLiteral)
    Session.count "header-misuse_assignments" (found.countP (!·.isLiteral))
    return found.map Evidence.draft

end Recast.HeaderMisuse
