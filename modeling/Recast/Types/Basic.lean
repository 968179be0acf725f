import Recast.Table

/-!
# Types

The types of the analysed language, as far as the analyses need them.

**Identity.**  A type that is built from others has a serial number, given when it is built.  Two
types with one serial number are one and the same; two that merely look alike have two numbers.
Basic types and the invalid type stand for themselves, and a named type is known by the number of
its declaration.

**Underlying types.**  What a named type stands for is not part of the type but is looked up in a
table of declarations, `Underlying`.  A declaration is missing from the table until it is complete,
so a type may refer to itself.  What is stored there is never itself a named type.

* `Ty` — the types.
* `Ty.underlying`, `Ty.pointee?`, `Ty.member?` — what a type stands for, points to and has as
  fields.
-/

namespace Recast

/-- The basic types. -/
inductive Basic where
  | bool
  | int
  | int8
  | int16
  | int32
  | int64
  | uint
  | uint8
  | uint16
  | uint32
  | uint64
  | uintptr
  | float32
  | float64
  | string
  | unsafePointer
  | untypedBool
  | untypedInt
  | untypedFloat
  | untypedString
  | untypedNil
  deriving Repr, DecidableEq, Inhabited

namespace Basic

/-- All basic types, in the order in which the universe declares them. -/
def all : List Basic :=
  [.bool, .int, .int8, .int16, .int32, .int64, .uint, .uint8, .uint16, .uint32,
    .uint64, .uintptr, .float32,
    .float64, .string, .unsafePointer, .untypedBool, .untypedInt, .untypedFloat,
    .untypedString, .untypedNil]

/-- The spelling of a basic type. -/
def name : Basic → String
  | .bool => "bool"
  | .int => "int"
  | .int8 => "int8"
  | .int16 => "int16"
  | .int32 => "int32"
  | .int64 => "int64"
  | .uint => "uint"
  | .uint8 => "uint8"
  | .uint16 => "uint16"
  | .uint32 => "uint32"
  | .uint64 => "uint64"
  | .uintptr => "uintptr"
  | .float32 => "float32"
  | .float64 => "float64"
  | .string => "string"
  | .unsafePointer => "unsafe.Pointer"
  | .untypedBool => "untyped bool"
  | .untypedInt => "untyped int"
  | .untypedFloat => "untyped float"
  | .untypedString => "untyped string"
  | .untypedNil => "untyped nil"

/-- The basic type with this spelling. -/
def ofName? (s : String) : Option Basic := all.find? (·.name == s)

/-- Integers of any width and sign. -/
def isInteger : Basic → Bool
  | .int | .int8 | .int16 | .int32 | .int64 => true
  | .uint | .uint8 | .uint16 | .uint32 | .uint64 | .uintptr => true
  | _ => false

def isFloat : Basic → Bool
  | .float32 | .float64 => true
  | _ => false

/-- Types of constants that have not met a declared type yet. -/
def isUntyped : Basic → Bool
  | .untypedBool | .untypedInt | .untypedFloat | .untypedString | .untypedNil => true
  | _ => false

/-- Integers whose width follows the address width of the machine. -/
def isPlatformDependent : Basic → Bool
  | .int | .uint | .uintptr => true
  | _ => false

end Basic

/-- One field of a struct type. -/
structure Member (τ : Type) where
  name : String
  type : Option τ
  embedded : Bool := false
  deriving Repr

/-- A type.  Wherever a type is built from another, that one may be lacking: an element, field,
parameter or result without a type is not the same as one with the invalid type. -/
inductive Ty where
  /-- What is not known to have a type. -/
  | invalid
  | basic (kind : Basic)
  | pointer (serial : Nat) (elem : Option Ty)
  | slice (serial : Nat) (elem : Option Ty)
  | array (serial : Nat) (elem : Option Ty) (length : Int)
  | struct (serial : Nat) (fields : List (Member Ty))
  | named (decl : Nat) (name : String) (package : String)
  | func (serial : Nat) (params : List (Option Ty)) (results : List (Option Ty))
  deriving Repr, Inhabited

/-- What complete declarations of named types stand for. -/
abbrev Underlying := Table Nat Ty

namespace Ty

/-- The name of a type's kind in messages. -/
def kind : Ty → String
  | .invalid => "INVALID"
  | .basic _ => "BASIC"
  | .pointer .. => "POINTER"
  | .slice .. => "SLICE"
  | .array .. => "ARRAY"
  | .struct .. => "STRUCT"
  | .named .. => "NAMED"
  | .func .. => "SIGNATURE"

/-- Whether two types are one and the same. -/
def same : Ty → Ty → Bool
  | .invalid, .invalid => true
  | .basic k, .basic l => k == l
  | .pointer s _, .pointer t _ => s == t
  | .slice s _, .slice t _ => s == t
  | .array s _ _, .array t _ _ => s == t
  | .struct s _, .struct t _ => s == t
  | .named d _ _, .named e _ _ => d == e
  | .func s _ _, .func t _ _ => s == t
  | _, _ => false

def isInvalid : Ty → Bool
  | .invalid => true
  | _ => false

def isNamed : Ty → Bool
  | .named .. => true
  | _ => false

/-- A basic type of one of some kinds; a named type is not one, whatever it stands for. -/
def isBasic (kinds : List Basic) : Ty → Bool
  | .basic k => kinds.contains k
  | _ => false

def isUntyped : Ty → Bool
  | .basic k => k.isUntyped
  | _ => false

/-- The element type of a pointer, slice or array. -/
def elem? : Ty → Option Ty
  | .pointer _ elem => elem
  | .slice _ elem => elem
  | .array _ elem _ => elem
  | _ => none

/-- The fields of a struct type. -/
def fields : Ty → List (Member Ty)
  | .struct _ fields => fields
  | _ => []

/-- What a type stands for: a named type for what its declaration says, or nothing valid while that
is incomplete; any other type for itself. -/
def underlying (env : Underlying) : Ty → Ty
  | .named decl _ _ => (env.find? decl).getD .invalid
  | t => t

/-- What a pointer points to. -/
def pointee? (env : Underlying) (t : Ty) : Option Ty :=
  match t.underlying env with
  | .pointer _ elem => elem
  | _ => none

/-- A type with one level of pointer taken away, each side of it down to the underlying type. -/
def target (env : Underlying) (t : Ty) : Ty :=
  match t.underlying env with
  | .pointer serial elem =>
    match elem with
    | some elem => elem.underlying env
    | none => .pointer serial none
  | u => u

/-- The field with this name of a struct, or of a pointer to a struct. -/
def member? (env : Underlying) (t : Ty) (name : String) : Option (Member Ty) :=
  (t.target env).fields.find? (·.name == name)

end Ty

/-- Completes a declaration: it stands for what the given type stands for. -/
def Underlying.complete (env : Underlying) (decl : Nat) (t : Ty) : Underlying :=
  env.insert decl (t.underlying env)

/-- Completes the declaration of a named type.  Other types have no declaration to complete. -/
def Underlying.complete? (env : Underlying) (t u : Ty) : Option Underlying :=
  match t with
  | .named decl _ _ => some (env.complete decl u)
  | _ => none

end Recast
