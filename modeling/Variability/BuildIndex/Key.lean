-- Keys of a build index: which entries of the index concern a file.
import Variability.Data.Table
import Variability.Path

namespace Variability.BuildIndex

/-- The first two words of an index line: a tag and a path. -/
structure Key where
  tag : String
  path : String
deriving DecidableEq, Repr, Hashable

/-- The key of a compiled unit. -/
def Key.unit (p : Path) : Key := ⟨"unit_pc", p.text⟩

/-- The key of a directory that the build descends into. -/
def Key.directory (p : Path) : Key := ⟨"subdir_pc", p.text⟩

/-- C files are compiled to object files. -/
def defaultSuffixes : Table String String := Table.ofList [(".c", ".o")]

/-- The compiled unit of a file: the file with its suffix mapped. A file whose
suffix is not mapped stands for itself. -/
def objectIdentity (suffixes : Table String String) (file : Path) :
    Except Path.SuffixFault Path :=
  match suffixes.get? file.suffix with
  | some s => file.withSuffix s
  | none => .ok file

/-- The key of the unit, then those of the directories above it, innermost
first, up to where a relative path starts. -/
def lookupKeys (object : Path) : List Key :=
  Key.unit object :: (object.parents.takeWhile (·.text ≠ ".")).map Key.directory

end Variability.BuildIndex
