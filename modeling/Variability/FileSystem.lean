-- Files, directories and links: what a path leads to, and what reading it
-- gives.
import Std.Data.HashMap
import Variability.Path

namespace Variability

/-! ## Places -/

/-- A place in the tree of files: the names that lead up from it to the root,
its own first. -/
structure Location where
  names : List String
deriving Repr

namespace Location

def sameNames : List String → List String → Bool
  | [], [] => true
  | a :: as, b :: bs => a == b && sameNames as bs
  | _, _ => false

theorem sameNames_iff {as bs : List String} : sameNames as bs = true ↔ as = bs := by
  induction as generalizing bs with
  | nil => cases bs <;> simp [sameNames]
  | cons a as ih => cases bs <;> simp [sameNames, ih]

instance : DecidableEq Location := fun a b =>
  decidable_of_iff (sameNames a.names b.names = true) (by
    rw [sameNames_iff]
    cases a; cases b; simp)

/-- Two names and the depth tell most places apart. -/
instance : Hashable Location := ⟨fun here => hash (here.names.length, here.names.take 2)⟩

def root : Location := ⟨[]⟩

/-- The place that has a name in a directory. -/
def child (here : Location) (name : String) : Location := ⟨name :: here.names⟩

/-- The directory above. Above the root there is the root. -/
def parent (here : Location) : Location := ⟨here.names.tail⟩

/-- The names that lead down from the root. -/
def parts (here : Location) : List String := here.names.reverse

def ofParts (parts : List String) : Location := ⟨parts.reverse⟩

end Location

/-! ## Entries and faults -/

/-- What tells two states of a file apart. -/
structure Status where
  modified : Int
  size : Nat
deriving DecidableEq, Repr

inductive Entry
  | file (content : List UInt8) (modified : Int)
  | directory (status : Status)
  | link (target : String)
deriving DecidableEq, Repr

/-- Why something cannot be done at a path. There are no permissions: what is
there can be read, changed and deleted. Links that lead to each other are
resolved, and directories in each other made, up to a limit only. -/
inductive FileFault
  | missing
  | exists
  | notDirectory
  | isDirectory
  | linkLoop
  | nameTooLong
  | nullCharacter
  | deepLinks
  | deepDirectories
  | timeOutOfRange
deriving DecidableEq, Repr

/-- The number and the words of a fault that is found at a place. -/
def FileFault.words? : FileFault → Option (Nat × String)
  | .missing => some (2, "No such file or directory")
  | .exists => some (17, "File exists")
  | .notDirectory => some (20, "Not a directory")
  | .isDirectory => some (21, "Is a directory")
  | .linkLoop => some (40, "Too many levels of symbolic links")
  | .nameTooLong => some (36, "File name too long")
  | .nullCharacter | .deepLinks | .deepDirectories | .timeOutOfRange => none

/-- Whether a fault is found at a place. -/
def FileFault.isFound (fault : FileFault) : Bool := fault.words?.isSome

/-- What is said of a fault that is not found at a place: no file has a null
character in its path, what is too deep is given up, and times have a range. -/
def FileFault.phrase? : FileFault → Option String
  | .nullCharacter => some "embedded null byte"
  | .deepLinks => some "maximum recursion depth exceeded"
  | .deepDirectories => some "maximum recursion depth exceeded while calling a Python object"
  | .timeOutOfRange => some "timestamp out of range for platform time_t"
  | _ => none

/-- What is said of a fault at the places shown. -/
def FileFault.message (fault : FileFault) (shown : String) : String :=
  match fault.words? with
  | some (number, words) => s!"[Errno {number}] {words}: {shown}"
  | none => fault.phrase?.getD ""

/-- All entries below the root, each under its location. -/
structure FileSystem where
  entries : Std.HashMap Location Entry

namespace FileSystem

def empty : FileSystem := ⟨∅⟩

/-- The entry at a location; the root is a directory. -/
def find? (fs : FileSystem) (here : Location) : Option Entry :=
  if here = .root then some (.directory ⟨0, 0⟩) else fs.entries[here]?

/-! ## Changes -/

/-- Removes the entry at a location. -/
def remove (fs : FileSystem) (here : Location) : FileSystem := ⟨fs.entries.erase here⟩

/-- Puts an entry at a location, in place of what was there. -/
def put (fs : FileSystem) (here : Location) (entry : Entry) : FileSystem :=
  ⟨fs.entries.insert here entry⟩

theorem find?_remove (fs : FileSystem) {here : Location} (h : here ≠ .root) (there : Location) :
    (fs.remove here).find? there = if here = there then none else fs.find? there := by
  unfold find? remove
  by_cases ht : here = there
  · simp [← ht, h]
  · simp [ht, Std.HashMap.getElem?_erase]

theorem find?_empty {here : Location} (h : here ≠ .root) : empty.find? here = none := by
  unfold find? empty
  rw [if_neg h]
  exact Std.HashMap.getElem?_empty

theorem find?_put (fs : FileSystem) {here : Location} (h : here ≠ .root) (entry : Entry)
    (there : Location) :
    (fs.put here entry).find? there = if here = there then some entry else fs.find? there := by
  unfold find? put
  by_cases ht : here = there
  · simp [← ht, h]
  · simp [ht, Std.HashMap.getElem?_insert]

theorem find?_put_self (fs : FileSystem) {here : Location} (h : here ≠ .root) (entry : Entry) :
    (fs.put here entry).find? here = some entry :=
  (fs.find?_put h entry here).trans (if_pos rfl)

theorem find?_put_of_ne (fs : FileSystem) {here there : Location} (h : here ≠ .root)
    (hne : here ≠ there) (entry : Entry) :
    (fs.put here entry).find? there = fs.find? there :=
  (fs.find?_put h entry there).trans (if_neg hne)

/-- Makes the directories that are missing on the way to the place with these
names, itself included. -/
def makeDirectories (fs : FileSystem) (status : Status) : List String → FileSystem
  | [] => fs
  | name :: above =>
    let fs := makeDirectories fs status above
    if (fs.find? ⟨name :: above⟩).isSome then fs
    else fs.put ⟨name :: above⟩ (.directory status)

/-! ## Following a path -/

/-- The most links that one path may lead through. -/
def linkLimit : Nat := 40

/-- The most bytes of a name. -/
def nameLimit : Nat := 255

/-- The most bytes of a path. -/
def pathLimit : Nat := 4095

def hasNull (s : String) : Bool := s.toList.contains (Char.ofNat 0)

/-- Where the target of a link starts. -/
def linkBase (here : Location) (target : String) : Location :=
  if (Path.ofString target).isAbsolute then .root else here

/-- Where the parts of a path lead, and how many links more it may lead
through. -/
structure Arrival where
  links : Nat
  here : Location
  entry : Entry

/-- Follows the parts of a path from `here`, through at most `links` links. -/
def walk (fs : FileSystem) (links : Nat) (here : Location) (parts : List String) :
    Except FileFault Arrival :=
  match parts with
  | [] =>
    match fs.find? here with
    | some entry => .ok ⟨links, here, entry⟩
    | none => .error .missing
  | part :: rest =>
    if part = "" ∨ part = "." then walk fs links here rest
    else if part = ".." then walk fs links here.parent rest
    else if nameLimit < part.utf8ByteSize then .error .nameTooLong
    else
      match fs.find? (here.child part) with
      | none => .error .missing
      | some (.directory _) => walk fs links (here.child part) rest
      | some (.file content modified) =>
        if rest = [] then .ok ⟨links, here.child part, .file content modified⟩
        else .error .notDirectory
      | some (.link target) =>
        match links with
        | 0 => .error .linkLoop
        | links + 1 => walk fs links (linkBase here target) (slashParts target ++ rest)
termination_by (links, parts.length)

/-- Why nothing is looked up for a path as written. -/
def pathFault? (path : String) : Option FileFault :=
  if hasNull path then some .nullCharacter
  else if path = "" then some .missing
  else if pathLimit < path.utf8ByteSize then some .nameTooLong
  else none

/-- Where a written path starts, seen from the directory `base`. -/
def startOf (base : Location) (path : String) : Location :=
  if (Path.ofString path).isAbsolute then .root else base

/-- What a written path leads to, seen from the directory `base`. -/
def open? (fs : FileSystem) (base : Location) (path : String) : Except FileFault Entry :=
  match pathFault? path with
  | some fault => .error fault
  | none => (fs.walk linkLimit (startOf base path) (slashParts path)).map (·.entry)

def statusOf : Entry → Status
  | .file content modified => ⟨modified, content.length⟩
  | .directory status => status
  | .link target => ⟨0, target.length⟩

def status? (fs : FileSystem) (base : Location) (path : String) : Except FileFault Status :=
  (fs.open? base path).map statusOf

/-- The bytes of a file. -/
def read (fs : FileSystem) (base : Location) (path : String) : Except FileFault (List UInt8) :=
  match fs.open? base path with
  | .ok (.file content _) => .ok content
  | .ok _ => .error .isDirectory
  | .error fault => .error fault

end FileSystem

end Variability
