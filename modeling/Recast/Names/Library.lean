import Recast.Names.Binding
import Recast.Names.Scope
import Recast.Types.Shape

/-!
# The universe and the known packages

The *universe* declares the names that every unit can use without an import.  Beyond it three
packages are known, each with the few members that matter here; the members of any other package are
unknown.

The two header types of package `reflect` are ordinary named types.  Their declarations have the
numbers 0 and 1, and the serial numbers below `Library.firstSerial` are taken by types of this
module.
-/

namespace Recast.Library

/-- A record with fields of these basic types. -/
def record (serial : Nat) (shape : Shape) : Ty :=
  .struct serial (shape.fields.map fun (name, kind) => { name := name, type := some (.basic kind) })

def sliceHeader : Ty := .named 0 "SliceHeader" "reflect"

def stringHeader : Ty := .named 1 "StringHeader" "reflect"

/-- What the header types stand for. -/
def underlying : Underlying :=
  Table.ofList [(0, record 0 Shape.sliceHeader), (1, record 1 Shape.stringHeader)]

/-- The first number for declarations of a unit. -/
def firstDecl : Nat := 2

/-- The first serial number for types of a unit. -/
def firstSerial : Nat := 3

/-- A member of a package: its name, what it is declared as, and its type. -/
structure Entry where
  name : String
  kind : BindingKind
  type : Ty

/-- The known packages with their members. -/
def packages : Table String (List Entry) :=
  Table.ofList [
    ("reflect", [⟨"SliceHeader", .type, sliceHeader⟩, ⟨"StringHeader", .type, stringHeader⟩]),
    ("unsafe", [⟨"Pointer", .type, .basic .unsafePointer⟩]),
    ("runtime", [⟨"KeepAlive", .func, .func 2 [some .invalid] []⟩])]

/-- The functions that the language itself provides. -/
def builtins : List String := ["len", "cap", "make", "new", "append", "copy", "panic"]

/-- The basic types that have a name of their own in the universe. -/
def namedBasics : List Basic := Basic.all.filter fun k => !k.isUntyped && k != .unsafePointer

/-- The names of the universe. -/
def predeclared : List Binding :=
  namedBasics.map (fun k => { name := k.name, kind := .type, type := .basic k }) ++
    [{ name := "byte", kind := .type, type := .basic .uint8 },
      { name := "rune", kind := .type, type := .basic .int32 },
      { name := "nil", kind := .nil, type := .basic .untypedNil },
      { name := "true", kind := .const, type := .basic .untypedBool },
      { name := "false", kind := .const, type := .basic .untypedBool }] ++
    builtins.map fun name => { name := name, kind := .builtin }

/-- The frame that declares the universe, whose bindings come first in every list of bindings. -/
def predeclaredFrame : Frame := Table.ofList (predeclared.zipIdx.map fun (b, i) => (b.name, i))

end Recast.Library
