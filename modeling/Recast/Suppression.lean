import Recast.Finding
import Recast.Text.Glob

/-!
# Suppressions

Findings that nobody wants to see are suppressed by their kind, everywhere or in some files.  The
kind `*` stands for all kinds.  A file is named by its path, by the end of its path, or by a glob
pattern.
-/

namespace Recast

/-- A kind that is not to be shown in the files of a pattern. -/
structure FileSuppression where
  id : String
  pattern : String
  deriving Repr, DecidableEq

/-- What is not to be shown. -/
structure Suppressions where
  /-- Kinds that are not to be shown anywhere. -/
  everywhere : List String := []
  inFiles : List FileSuppression := []
  deriving Repr, DecidableEq, Inhabited

/-- The kind that stands for all kinds. -/
def anyKind : String := "*"

/-- Whether a pattern names a file: as the end of its path, which may be the whole, or as a glob
pattern. -/
def namesFile (pattern path : String) : Bool :=
  pattern.toList.isSuffixOf path.toList || Text.glob pattern path

namespace Suppressions

/-- Suppresses a kind everywhere. -/
def addEverywhere (s : Suppressions) (id : String) : Suppressions :=
  { s with everywhere := s.everywhere ++ [id] }

/-- Suppresses a kind in the files of a pattern. -/
def addInFiles (s : Suppressions) (id pattern : String) : Suppressions :=
  { s with inFiles := s.inFiles ++ [⟨id, pattern⟩] }

/-- Whether a finding is suppressed. -/
def covers (s : Suppressions) (f : Finding) : Bool :=
  s.everywhere.any (fun id => id == f.id || id == anyKind)
    || s.inFiles.any fun r => (r.id == f.id || r.id == anyKind) && namesFile r.pattern f.loc.file

/-- The findings that are not suppressed. -/
def keep (s : Suppressions) (fs : List Finding) : List Finding := fs.filter fun f => !s.covers f

end Suppressions

end Recast
