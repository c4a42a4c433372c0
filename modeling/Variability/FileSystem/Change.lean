-- Changes to files: writing and deleting, making directories and links.
import Variability.Data.Word
import Variability.FileSystem

namespace Variability.FileSystem

/-! ## The last part of a path -/

/-- The parts before the last one, the last one, and whether slashes follow
it. -/
structure Ending where
  before : List String
  last : String
  slashed : Bool

/-- Nothing but slashes has no last part. -/
def endingOf? (parts : List String) : Option Ending :=
  match parts.reverse.dropWhile (· = "") with
  | [] => none
  | last :: before => some ⟨before.reverse, last, parts.getLast? = some ""⟩

/-- Where the last part of a path is looked up: the links left, the directory
and the part. It is `none` for a path that ends in the root, in `.` or in
`..`. -/
structure Slot where
  links : Nat
  directory : Location
  name : Option String
  slashed : Bool

def slotOf (fs : FileSystem) (links : Nat) (start : Location) (parts : List String) :
    Except FileFault Slot :=
  match endingOf? parts with
  | none => .ok ⟨links, .root, none, false⟩
  | some ending =>
    match fs.walk links start ending.before with
    | .error fault => .error fault
    | .ok ⟨links, here, .directory _⟩ =>
      let name := if ending.last = "." ∨ ending.last = ".." then none else some ending.last
      .ok ⟨links, here, name, ending.slashed⟩
    | .ok _ => .error .notDirectory

/-- The slot of a path, seen from the directory `base`. -/
def slotAt (fs : FileSystem) (base : Location) (p : Path) : Except FileFault Slot :=
  match pathFault? p.text with
  | some fault => .error fault
  | none => fs.slotOf linkLimit (startOf base p.text) p.parts

/-- What a directory has under a name. -/
def entryOf (fs : FileSystem) (directory : Location) (name : String) :
    Except FileFault (Option Entry) :=
  if nameLimit < name.utf8ByteSize then .error .nameTooLong
  else .ok (fs.find? (directory.child name))

/-! ## Deleting -/

/-- Deletes a file, or a link itself. -/
def delete (fs : FileSystem) (base : Location) (p : Path) : Except FileFault FileSystem :=
  match fs.slotAt base p with
  | .error fault => .error fault
  | .ok ⟨_, _, none, _⟩ => .error .isDirectory
  | .ok ⟨_, directory, some name, _⟩ =>
    match fs.entryOf directory name with
    | .error fault => .error fault
    | .ok none => .error .missing
    | .ok (some (.directory _)) => .error .isDirectory
    | .ok (some _) => .ok (fs.remove (directory.child name))

/-! ## Making entries -/

/-- Makes an entry where there is none. -/
def create (fs : FileSystem) (base : Location) (p : Path) (entry : Entry) :
    Except FileFault FileSystem :=
  match fs.slotAt base p with
  | .error fault => .error fault
  | .ok ⟨_, _, none, _⟩ => .error .exists
  | .ok ⟨_, directory, some name, _⟩ =>
    match fs.entryOf directory name with
    | .error fault => .error fault
    | .ok (some _) => .error .exists
    | .ok none => .ok (fs.put (directory.child name) entry)

/-- Where the content of a path goes: through links that lead to it. A slash
behind the last part asks for a directory, whatever there is. -/
def targetOf (fs : FileSystem) (links : Nat) (start : Location) (parts : List String) :
    Except FileFault Location :=
  match fs.slotOf links start parts with
  | .error fault => .error fault
  | .ok ⟨_, _, none, _⟩ | .ok ⟨_, _, _, true⟩ => .error .isDirectory
  | .ok ⟨left, directory, some name, false⟩ =>
    match fs.entryOf directory name with
    | .error fault => .error fault
    | .ok (some (.directory _)) => .error .isDirectory
    | .ok (some (.link target)) =>
      match _h : min left links with
      | 0 => .error .linkLoop
      | rest + 1 => targetOf fs rest (linkBase directory target) (slashParts target)
    | .ok _ => .ok (directory.child name)
termination_by links
decreasing_by omega

/-- Writes a file in place of what it held. -/
def overwrite (fs : FileSystem) (base : Location) (p : Path) (content : List UInt8)
    (modified : Int) : Except FileFault FileSystem :=
  match pathFault? p.text with
  | some fault => .error fault
  | none =>
    (fs.targetOf linkLimit (startOf base p.text) p.parts).map fun here =>
      fs.put here (.file content modified)

/-! ## Outcomes -/

/-- A fault and where it is: at a path or, when a link is made, between its
target and a path. -/
structure ChangeFault where
  fault : FileFault
  path : Path
  target : Option String
deriving DecidableEq, Repr

def ChangeFault.message (e : ChangeFault) : String :=
  let shown := Text.quoted e.path.text
  e.fault.message (match e.target with
    | some target => Text.quoted target ++ " -> " ++ shown
    | none => shown)

/-- The files after a change. What was made before a fault stays. -/
structure Changed where
  files : FileSystem
  fault : Option ChangeFault

/-- What has become of files by one change at a path. -/
def changedAt (fs : FileSystem) (p : Path) (target : Option String) :
    Except FileFault FileSystem → Changed
  | .ok files => ⟨files, none⟩
  | .error fault => ⟨fs, some ⟨fault, p, target⟩⟩

/-- Goes on after a change without a fault. -/
def Changed.andThen (c : Changed) (next : FileSystem → Changed) : Changed :=
  match c.fault with
  | some _ => c
  | none => next c.files

/-! ## Making directories -/

/-- What a fault comes to where a directory should be made: nothing if there is
one. A name that is too long, at the end of a link, is found out only then. -/
def settle (fs : FileSystem) (base : Location) (p : Path) (fault : FileFault) :
    Except FileFault FileSystem :=
  if fault = .missing ∨ fault.phrase?.isSome then .error fault
  else
    match fs.open? base p.text with
    | .ok (.directory _) => .ok fs
    | .error .nameTooLong => .error .nameTooLong
    | _ => .error fault

/-- Makes a directory, unless there is one. -/
def makeDirectory (fs : FileSystem) (base : Location) (p : Path) : Changed :=
  fs.changedAt p none
    (match fs.create base p (.directory ⟨0, 0⟩) with
    | .ok files => .ok files
    | .error fault => fs.settle base p fault)

/-- Makes the directory with these parts, last part first, and those above it
that are missing, if they are at most `room`. -/
def makePath (base : Location) (anchor : Anchor) :
    Nat → List String → FileSystem → Changed
  | 0, parts, fs => fs.changedAt ⟨anchor, parts.reverse⟩ none (.error .deepDirectories)
  | _ + 1, [], fs => fs.makeDirectory base ⟨anchor, []⟩
  | room + 1, last :: above, fs =>
    let p : Path := ⟨anchor, (last :: above).reverse⟩
    match fs.create base p (.directory ⟨0, 0⟩) with
    | .error .missing => (makePath base anchor room above fs).andThen (·.makeDirectory base p)
    | _ => fs.makeDirectory base p

/-- Makes the directory that a path lies in, with those above it that are
missing, at most `room` of them. -/
def makeParent (fs : FileSystem) (room : Nat) (base : Location) (p : Path) : Changed :=
  makePath base p.anchor room p.parts.dropLast.reverse fs

/-! ## Changes at a path -/

/-- Makes a directory and those above it. -/
def makeDirectoryAt (fs : FileSystem) (room : Nat) (base : Location) (p : Path) : Changed :=
  (fs.makeParent room base p).andThen (·.makeDirectory base p)

/-- Whether a file can carry a time in nanoseconds: its seconds fit into a
word. -/
def isTime (modified : Int) : Bool := isWord (modified / 1000000000)

/-- Writes a file, in a directory that is made if it is missing, and sets its
time. -/
def writeAt (fs : FileSystem) (room : Nat) (base : Location) (p : Path) (content : List UInt8)
    (modified : Int) : Changed :=
  (fs.makeParent room base p).andThen fun fs =>
    (fs.changedAt p none (fs.overwrite base p content modified)).andThen fun fs =>
      fs.changedAt p none (if isTime modified then .ok fs else .error .timeOutOfRange)

/-- Makes a link, in a directory that is made if it is missing. -/
def linkAt (fs : FileSystem) (room : Nat) (base : Location) (p : Path) (target : String) :
    Changed :=
  (fs.makeParent room base p).andThen fun fs =>
    fs.changedAt p (some target)
      (if hasNull p.text then .error .nullCharacter
      else
        match pathFault? target with
        | some fault => .error fault
        | none => fs.create base p (.link target))

/-- Deletes a file or a link. -/
def deleteAt (fs : FileSystem) (base : Location) (p : Path) : Changed :=
  fs.changedAt p none (fs.delete base p)

end Variability.FileSystem
