-- Workspaces: the files that an operation sees, where relative paths start,
-- and how deep the operation may go.
import Variability.FileSystem.Change
import Variability.FileSystem.Resolve

namespace Variability

/-- How deep an operation may go before it is given up. What is left to it
depends on what calls it, so that nothing here says how much that is. -/
structure Depths where
  /-- Arrays and objects that stand in each other in a settings file. -/
  json : Nat
  /-- Links that are resolved while others that lead to them are. -/
  links : Nat
  /-- Directories that are made in each other at once. -/
  directories : Nat
  /-- Values that stand in each other in a value that a message shows. -/
  values : Nat

/-- One depth for everything. -/
def Depths.all (n : Nat) : Depths := ⟨n, n, n, n⟩

/-- Files, the directory that relative paths start from, and how deep an
operation may go. The directory is there and stays there, and no link leads to
it. -/
structure Workspace where
  files : FileSystem
  directory : Location
  depths : Depths

namespace Workspace

def read (w : Workspace) (path : String) : Except FileFault (List UInt8) :=
  w.files.read w.directory path

/-- The bytes of the file at a path of code points. The names of files are
texts, so that a path with a surrogate leads to no file. -/
def readAt (w : Workspace) (path : List Nat) : Except FileFault (List UInt8) :=
  match Text.exactText? path with
  | some s => w.read (Path.ofString s).text
  | none => .error (if path.contains 0 then .nullCharacter else .missing)

def status? (w : Workspace) (path : String) : Except FileFault Status :=
  w.files.status? w.directory path

def resolve (w : Workspace) (p : Path) : Except FileFault Path :=
  w.files.resolve w.depths.links w.directory p

/-- The path from the root, without repeated slashes, `.` and `..`; links are
not followed. -/
def absolute (w : Workspace) (p : Path) : Path :=
  (Path.absoluteIn ⟨.root, w.directory.parts⟩ p).normalize

/-- What a change makes of the workspace, and its fault. -/
def change (w : Workspace) (apply : FileSystem → Location → FileSystem.Changed) :
    Workspace × Option FileSystem.ChangeFault :=
  let changed := apply w.files w.directory
  ({ w with files := changed.files }, changed.fault)

def write (w : Workspace) (p : Path) (content : List UInt8) (modified : Int) :
    Workspace × Option FileSystem.ChangeFault :=
  w.change fun files base => files.writeAt w.depths.directories base p content modified

def link (w : Workspace) (p : Path) (target : String) :
    Workspace × Option FileSystem.ChangeFault :=
  w.change fun files base => files.linkAt w.depths.directories base p target

def makeDirectory (w : Workspace) (p : Path) : Workspace × Option FileSystem.ChangeFault :=
  w.change fun files base => files.makeDirectoryAt w.depths.directories base p

def delete (w : Workspace) (p : Path) : Workspace × Option FileSystem.ChangeFault :=
  w.change fun files base => files.deleteAt base p

end Workspace

end Variability
