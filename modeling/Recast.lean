import Recast.Checker.Basic
import Recast.Checker.Catalogue
import Recast.Checker.HeaderMisuse
import Recast.Checker.Scripted
import Recast.Checker.StructCast
import Recast.CompilationUnit
import Recast.Finding
import Recast.Flow.Cache
import Recast.Flow.Fresh
import Recast.Flow.Graph
import Recast.Flow.Lower
import Recast.Flow.Search
import Recast.Flow.Text
import Recast.Form.Reader
import Recast.Idiom
import Recast.Log
import Recast.Names.Assigned
import Recast.Names.Binding
import Recast.Names.Info
import Recast.Names.Library
import Recast.Names.Resolve
import Recast.Names.Scope
import Recast.Proofs.Checker.Bodies
import Recast.Proofs.Checker.Budget
import Recast.Proofs.Checker.Located
import Recast.Proofs.Checker.Positions
import Recast.Proofs.Checker.Relabeling
import Recast.Proofs.Checker.Renaming
import Recast.Proofs.Checker.Runs
import Recast.Proofs.Checker.StructCasts
import Recast.Proofs.Checker.Supplying
import Recast.Proofs.Demand.Termination
import Recast.Proofs.Flow.DepthFirst
import Recast.Proofs.Flow.Drawing
import Recast.Proofs.Flow.Executions
import Recast.Proofs.Flow.Placement
import Recast.Proofs.Flow.Reducibility
import Recast.Proofs.Flow.Wiring
import Recast.Proofs.Form.Joining
import Recast.Proofs.Form.Printing
import Recast.Proofs.Lockstep.Bodies
import Recast.Proofs.Names.Coverage
import Recast.Proofs.Names.Scoping
import Recast.Proofs.Report.Grouping
import Recast.Proofs.Surface.Annotations
import Recast.Proofs.Surface.Replacing
import Recast.Proofs.Syntax.Lineage
import Recast.Proofs.Types.Identity
import Recast.Report
import Recast.Runner
import Recast.Setting
import Recast.Source
import Recast.Suppression
import Recast.Syntax.OfForms
import Recast.Syntax.Spelling
import Recast.Syntax.Walk
import Recast.Text.Glob
import Recast.Text.Json
import Recast.Types.Identity
import Recast.Types.Shape
import Recast.Types.Text
