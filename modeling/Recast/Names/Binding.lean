import Recast.Syntax.Node
import Recast.Text.Quoted
import Recast.Types.Text

/-!
# Bindings

A binding is what a name stands for at some place: where it was declared, as what, and with which
type.  Two names denote the same thing exactly if they have the same binding; bindings are therefore
kept in one list and known by their position in it, never by their spelling.
-/

namespace Recast

/-- What a name is declared as. -/
inductive BindingKind where
  | var
  | const
  | type
  | func
  | package
  | builtin
  | nil
  deriving Repr, DecidableEq, Inhabited

/-- The name of a kind of binding. -/
def BindingKind.name : BindingKind → String
  | .var => "var"
  | .const => "const"
  | .type => "type"
  | .func => "func"
  | .package => "package"
  | .builtin => "builtin"
  | .nil => "nil"

/-- What a name stands for. -/
structure Binding where
  name : String
  kind : BindingKind
  type : Ty := .invalid
  loc : Loc := {}
  package : String := ""
  deriving Repr, Inhabited

/-- A binding as messages show it. -/
def Binding.shown (b : Binding) : String :=
  "Binding(" ++ b.kind.name ++ " " ++ Text.quote b.name ++ ": " ++ b.type.text ++
    " @ " ++ b.loc.shown ++ ")"

end Recast
