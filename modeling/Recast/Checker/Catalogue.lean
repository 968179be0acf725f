import Recast.Checker.HeaderMisuse
import Recast.Checker.StructCast

/-!
# The catalogue of checkers

All checkers of the library, in the order in which they run.
-/

namespace Recast.Checker

/-- All checkers. -/
def all : List Checker := [HeaderMisuse.checker, StructCast.checker]

/-- The checker with this name. -/
def ofName? (name : String) : Option Checker := all.find? (·.name == name)

end Recast.Checker
