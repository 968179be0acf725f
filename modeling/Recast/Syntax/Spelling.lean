import Recast.Syntax.Node
import Recast.Text.Blank
import Recast.Text.Quoted

/-!
# Spelling of nodes

Two ways to show a node in a message.  `Node.spelled` writes an expression the way the source
language would; the result is meant for people and need not read back.  `Node.shown` names the kind
and the place.
-/

namespace Recast

/-- A node by its kind and place; an identifier also by its name. -/
def Node.shown : Node → String
  | .ident i => "<Ident " ++ Text.quote i.name ++ " at " ++ i.mark.loc.shown ++ ">"
  | n => "<" ++ n.kind ++ " at " ++ n.loc.shown ++ ">"

/-- Items between commas. -/
def commaSeparated (items : List String) : String := ", ".intercalate items

mutual

/-- An expression as source text. -/
def Node.spelled : Node → String
  | .ident i => i.name
  | .literal _ .string value => "\"" ++ value ++ "\""
  | .literal _ _ value => value
  | .select _ base name => base.spelled ++ "." ++ name.name
  | .star _ x => "*" ++ x.spelled
  | .unary _ op x => op ++ x.spelled
  | .binary _ x op y => x.spelled ++ " " ++ op ++ " " ++ y.spelled
  | .paren _ x => "(" ++ x.spelled ++ ")"
  | .call _ fn args => fn.spelled ++ "(" ++ commaSeparated (spelledAll args) ++ ")"
  | .index _ x i => x.spelled ++ "[" ++ i.spelled ++ "]"
  | .keyed _ key value => key.spelled ++ ": " ++ value.spelled
  | .composite _ type elements =>
    spelledOption type ++ "\x7b" ++ commaSeparated (spelledAll elements) ++ "\x7d"
  | .arrayType _ length elem => "[" ++ spelledOption length ++ "]" ++ elem.spelled
  | .structType _ fields => "struct\x7b" ++ "; ".intercalate (spelledFields fields) ++ "\x7d"
  | .funcLit .. => "func literal"
  | n => "<" ++ n.kind ++ ">"

def spelledAll : List Node → List String
  | [] => []
  | n :: ns => n.spelled :: spelledAll ns

/-- A part that may be missing; a missing one is spelled as nothing. -/
def spelledOption : Option Node → String
  | none => ""
  | some n => n.spelled

/-- The fields of a struct, each with its names before its type. -/
def spelledFields : List Field → List String
  | [] => []
  | .mk _ names type :: fs =>
    Text.trim (commaSeparated (names.map Ident.name) ++ " " ++ type.spelled) :: spelledFields fs

end

/-- A node as a line of a program: a simple statement by its parts, anything else as an
expression. -/
def Node.label : Node → String
  | .assign _ targets op values =>
    commaSeparated (targets.map Node.spelled) ++ " " ++ op ++ " " ++
      commaSeparated (values.map Node.spelled)
  | .varSpec _ names _ _ => "var " ++ commaSeparated (names.map Ident.name)
  | .exprStmt _ x => x.spelled
  | .rangeStmt _ _ _ _ x _ => "range " ++ x.spelled
  | .ret .. => "return"
  | n => n.spelled

/-- Whether an expression is spelled `package.name`. -/
def Node.isQualified (package name : String) : Node → Bool
  | .select _ (.ident base) sel => base.name == package && sel.name == name
  | _ => false

/-- Whether an expression takes an address. -/
def Node.isAddressOf : Node → Bool
  | .unary _ op _ => op == "&"
  | _ => false

end Recast
