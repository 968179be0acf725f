import Recast.Flow.Graph
import Recast.Names.Resolve
import Recast.Syntax.OfForms
import Recast.Syntax.Walk

/-!
# Compilation units

All that a run of the checkers works on: the numbered tree of a unit, what is known about its names
and types, and the graphs of its functions as far as they were supplied with it.

There is no unit for a description that is malformed, nor for a tree that cannot be resolved.
-/

namespace Recast

/-- A unit ready to be checked. -/
structure CompilationUnit where
  /-- The name of the file in messages. -/
  name : String
  file : File
  info : Info
  /-- Graphs that need not be made, by the number of the function. -/
  graphs : Table Nat Flow.Graph := {}
  deriving Inhabited

namespace CompilationUnit

/-- Why there is no unit. -/
inductive Failure where
  /-- The description is malformed. -/
  | refused (refusal : Refusal)
  /-- The tree cannot be resolved. -/
  | stopped (stop : Stop)

/-- The unit of a tree, and the log of resolving it. -/
def ofFile (name : String) (file : File) : Except Failure (CompilationUnit × Log) := do
  let file := file.numbered
  let (info, log) ← (Info.ofFile name file).mapError .stopped
  return ({ name := name, file := file, info := info }, log)

/-- The unit of a description, with its annotations and the log of resolving it. -/
def ofText (name text : String) : Except Failure (CompilationUnit × List Expectation × Log) := do
  let (file, expectations) ← (File.ofText name text).mapError .refused
  let (unit, log) ← ofFile name file
  return (unit, expectations, log)

end CompilationUnit

end Recast
