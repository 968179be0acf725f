import Recast.Names.Info

/-!
# Assignments to a variable

Which nodes give a variable a value, and which value.  A node may assign a variable without there
being one expression for the value: when a call gives several values at once, or in each round of a
range statement.
-/

namespace Recast

/-- Whether an expression is an identifier with this binding. -/
def Info.isBoundTo (info : Info) (b : Nat) : Node → Bool
  | .ident i => info.bindingOf? i == some b
  | _ => false

/-- What a node assigns to a variable: nothing; or a value, with its expression if there is one.  Of
several targets for the variable the first counts.  A declaration without values assigns nothing. -/
def Info.assigned? (info : Info) (b : Nat) : Node → Option (Option Node)
  | .assign _ targets _ values =>
    match targets.findIdx? (info.isBoundTo b) with
    | none => none
    | some i => if values.length = targets.length then some values[i]? else some none
  | .varSpec _ names _ values =>
    match names.findIdx? (fun name => info.isBoundTo b (.ident name)) with
    | none => none
    | some i =>
      if values.length = names.length then some values[i]?
      else if values.isEmpty then none
      else some none
  | .rangeStmt _ key value _ _ _ =>
    if key.any (info.isBoundTo b) || value.any (info.isBoundTo b) then some none else none
  | _ => none

end Recast
