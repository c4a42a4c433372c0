-- Following a path part by part: through directories, to a file, and to the
-- model in it.
import Variability.FeatureModel.Cache

namespace Variability

namespace FileSystem

/-! ## Names -/

/-- A part of a path that names an entry of a directory. -/
structure IsName (part : String) : Prop where
  visible : ¬ (part = "" ∨ part = ".")
  down : part ≠ ".."
  short : ¬ nameLimit < part.utf8ByteSize
  noNull : hasNull part = false

section Walk

variable {fs : FileSystem} {links : Nat} {here : Location} {part : String} {rest : List String}

theorem walk_slash : fs.walk links here ("" :: rest) = fs.walk links here rest := by
  rw [walk, if_pos (Or.inl rfl)]

theorem walk_directory {status : Status} (hname : IsName part)
    (h : fs.find? (here.child part) = some (.directory status)) :
    fs.walk links here (part :: rest) = fs.walk links (here.child part) rest := by
  rw [walk, if_neg hname.visible, if_neg hname.down, if_neg hname.short]
  simp only [h]

theorem walk_file {content : List UInt8} {modified : Int} (hname : IsName part)
    (h : fs.find? (here.child part) = some (.file content modified)) :
    fs.walk links here [part] = .ok ⟨links, here.child part, .file content modified⟩ := by
  rw [walk, if_neg hname.visible, if_neg hname.down, if_neg hname.short]
  simp only [h, if_true]

theorem walk_missing (hname : IsName part) (h : fs.find? (here.child part) = none) :
    fs.walk links here (part :: rest) = .error .missing := by
  rw [walk, if_neg hname.visible, if_neg hname.down, if_neg hname.short]
  simp only [h]

/-- A name with too many bytes is not looked up. -/
theorem walk_tooLong (hvisible : ¬ (part = "" ∨ part = ".")) (hdown : part ≠ "..")
    (hlong : nameLimit < part.utf8ByteSize) :
    fs.walk links here (part :: rest) = .error .nameTooLong := by
  rw [walk, if_neg hvisible, if_neg hdown, if_pos hlong]

/-- What a path from the root opens is where its parts lead. -/
theorem open?_of_walk {base : Location} {path : String} {parts : List String} {found : Arrival}
    (hfault : pathFault? path = none) (hparts : slashParts path = "" :: parts)
    (hstart : startOf base path = .root) (h : fs.walk linkLimit .root parts = .ok found) :
    fs.open? base path = .ok found.entry := by
  unfold open?
  rw [hfault, hstart, hparts, walk_slash, h]
  rfl

end Walk

section Resolve

variable {fs : FileSystem} {base : Location} {room : Nat} {known : Known} {here : Path}
  {part : String} {rest : List String}

/-- A part that is no link stays as it is. -/
theorem resolveFrom_name (hname : IsName part)
    (h : ∀ target, fs.find? (locate base (here.child part)) ≠ some (.link target)) :
    fs.resolveFrom base room known here (part :: rest) =
      fs.resolveFrom base room known (here.child part) rest := by
  rw [resolveFrom, if_neg hname.visible, if_neg hname.down, if_neg (by simp [hname.noNull])]
  split
  · rename_i target hlink
    exact absurd hlink (h target)
  · rfl

theorem locate_name {name : String} (h : name ≠ "..") (base : Location) :
    locate base ⟨.root, [name]⟩ = Location.root.child name := by
  simp [locate, Path.absoluteIn, Path.isAbsolute, Path.normalize, Path.normalParts, h,
    Location.ofParts, Location.child, Location.root]

/-- A name below the root that is no link is its own resolution. -/
theorem resolve_name {name : String} (hname : IsName name)
    (h : ∀ target, fs.find? (Location.root.child name) ≠ some (.link target)) :
    fs.resolve room base ⟨.root, [name]⟩ = .ok ⟨.root, [name]⟩ := by
  have hlocate := locate_name hname.down base
  have hroot : (Path.mk .root [name]).isAbsolute = true := rfl
  have hfrom : fs.resolveFrom base room [] ⟨.root, []⟩ [name] =
      .ok (.resolved ⟨.root, [name]⟩, []) := by
    rw [resolveFrom_name hname, resolveFrom]
    · rfl
    · intro target
      rw [show (Path.mk .root []).child name = ⟨.root, [name]⟩ from rfl, hlocate]
      exact h target
  unfold resolve
  simp only [hroot, if_true, hfrom, Except.map, hlocate]
  rfl

end Resolve

/-! ## Faults -/

section Faults

variable {fs : FileSystem} {fault : FileFault}

/-- What goes wrong on the way along a path is found at a place. -/
theorem walk_fault {links : Nat} {here : Location} {parts : List String}
    (h : fs.walk links here parts = .error fault) : fault.isFound = true := by
  fun_induction walk fs links here parts <;> simp_all
  all_goals
    subst h
    rfl

/-- Links are resolved unless there is a null character or they are too deep,
and neither is found at a place. -/
theorem resolveFrom_fault {base : Location} {room : Nat} {known : Known} {here : Path}
    {parts : List String} (h : fs.resolveFrom base room known here parts = .error fault) :
    fault.isFound = false := by
  fun_induction resolveFrom fs base room known here parts <;> simp_all
  all_goals
    subst h
    rfl

theorem resolve_fault {room : Nat} {base : Location} {p : Path}
    (h : fs.resolve room base p = .error fault) : fault.isFound = false := by
  unfold resolve at h
  cases hfrom : fs.resolveFrom base room []
      (if p.isAbsolute then ⟨.root, []⟩ else ⟨.relative, []⟩) p.parts with
  | ok found => simp [hfrom, Except.map] at h
  | error f =>
    simp only [hfrom, Except.map] at h
    cases h
    exact resolveFrom_fault hfrom

/-- A path as written is refused at a place, or for a null character. -/
theorem pathFault?_fault {path : String} (h : pathFault? path = some fault) :
    fault.isFound = !hasNull path := by
  unfold pathFault? at h
  by_cases hnull : hasNull path = true
  · rw [if_pos hnull] at h
    cases h
    rw [hnull]
    rfl
  · rw [if_neg hnull] at h
    simp only [hnull]
    split at h
    · cases h
      rfl
    · split at h
      · cases h
        rfl
      · cases h

theorem hasNull_of_pathFault? {path : String} (h : pathFault? path = none) :
    hasNull path = false := by
  by_cases hnull : hasNull path = true
  · simp [pathFault?, hnull] at h
  · simpa using hnull

/-- The only fault of opening a path that is not found at a place is a null
character. -/
theorem open?_fault {base : Location} {path : String} (h : fs.open? base path = .error fault) :
    fault.isFound = !hasNull path := by
  unfold open? at h
  cases hpath : pathFault? path with
  | some f =>
    simp only [hpath] at h
    cases h
    exact pathFault?_fault hpath
  | none =>
    simp only [hpath] at h
    cases hwalk : fs.walk linkLimit (startOf base path) (slashParts path) with
    | ok arrival => simp [hwalk, Except.map] at h
    | error f =>
      simp only [hwalk, Except.map] at h
      cases h
      rw [hasNull_of_pathFault? hpath, walk_fault hwalk]
      rfl

theorem hasNull_of_open? {base : Location} {path : String} {entry : Entry}
    (h : fs.open? base path = .ok entry) : hasNull path = false := by
  unfold open? at h
  cases hpath : pathFault? path with
  | some f => simp [hpath] at h
  | none => exact hasNull_of_pathFault? hpath

end Faults

end FileSystem

/-! ## Files -/

theorem exists_of_isOk {ε α : Type} {x : Except ε α} (h : x.isOk = true) : ∃ a, x = .ok a := by
  cases x with
  | error e => cases h
  | ok a => exact ⟨a, rfl⟩

theorem exists_of_map_eq_ok {ε α β : Type} {f : α → β} {x : Except ε α} {b : β}
    (h : x.map f = .ok b) : ∃ a, x = .ok a ∧ f a = b := by
  cases x with
  | error e => cases h
  | ok a => exact ⟨a, rfl, Except.ok.inj h⟩

theorem eq_ok_of_toOption {ε α : Type} {x : Except ε α} {a : α} (h : x.toOption = some a) :
    x = .ok a := by
  cases x <;> cases h
  rfl

section Open

variable {w : Workspace} {path : String}

theorem Workspace.status?_of_open? {entry : Entry}
    (h : w.files.open? w.directory path = .ok entry) :
    w.status? path = .ok (FileSystem.statusOf entry) := by
  unfold Workspace.status? FileSystem.status?
  rw [h]
  rfl

theorem Workspace.read_of_open? {content : List UInt8} {modified : Int}
    (h : w.files.open? w.directory path = .ok (.file content modified)) :
    w.read path = .ok content := by
  unfold Workspace.read FileSystem.read
  rw [h]

theorem Workspace.read_fault {fault : FileFault} (h : w.read path = .error fault) :
    fault.isFound = !FileSystem.hasNull path := by
  unfold Workspace.read FileSystem.read at h
  cases hopen : w.files.open? w.directory path with
  | error f =>
    simp only [hopen] at h
    cases h
    exact FileSystem.open?_fault hopen
  | ok entry =>
    rw [FileSystem.hasNull_of_open? hopen]
    cases entry <;> simp only [hopen, reduceCtorEq] at h
    all_goals
      cases h
      rfl

/-- No path with a null character is opened. -/
theorem Workspace.status?_of_hasNull (h : FileSystem.hasNull path = true) :
    w.status? path = .error .nullCharacter := by
  simp [Workspace.status?, FileSystem.status?, FileSystem.open?, FileSystem.pathFault?, h,
    Except.map]

theorem Workspace.read_of_hasNull (h : FileSystem.hasNull path = true) :
    w.read path = .error .nullCharacter := by
  simp [Workspace.read, FileSystem.read, FileSystem.open?, FileSystem.pathFault?, h]

end Open

/-! ## Entries right below the root -/

/-- A path that names an entry right below the root, written as it is shown. -/
structure NamesEntry (path name : String) : Prop where
  isName : FileSystem.IsName name
  noFault : FileSystem.pathFault? path = none
  slashParts_eq : slashParts path = ["", name]
  ofString_eq : Path.ofString path = ⟨.root, [name]⟩
  text_eq : (Path.mk .root [name]).text = path

namespace NamesEntry

section Entries

variable {w : Workspace} {path name : String} {content : List UInt8} {modified : Int}

theorem startOf_eq (h : NamesEntry path name) (base : Location) :
    FileSystem.startOf base path = .root := by
  unfold FileSystem.startOf
  rw [h.ofString_eq]
  rfl

/-- Such a path is looked up with one step. -/
theorem open?_eq (h : NamesEntry path name) : w.files.open? w.directory path =
    (w.files.walk FileSystem.linkLimit .root [name]).map (·.entry) := by
  unfold FileSystem.open?
  rw [h.noFault, h.startOf_eq, h.slashParts_eq, FileSystem.walk_slash]

theorem open?_of_file (h : NamesEntry path name)
    (hfile : w.files.find? (Location.root.child name) = some (.file content modified)) :
    w.files.open? w.directory path = .ok (.file content modified) := by
  rw [h.open?_eq, FileSystem.walk_file h.isName hfile]
  rfl

theorem open?_of_missing (h : NamesEntry path name)
    (hfile : w.files.find? (Location.root.child name) = none) :
    w.files.open? w.directory path = .error .missing := by
  rw [h.open?_eq, FileSystem.walk_missing h.isName hfile]
  rfl

theorem read_of_missing (h : NamesEntry path name)
    (hfile : w.files.find? (Location.root.child name) = none) :
    w.read path = .error .missing := by
  unfold Workspace.read FileSystem.read
  rw [h.open?_of_missing hfile]

theorem read_of_file (h : NamesEntry path name)
    (hfile : w.files.find? (Location.root.child name) = some (.file content modified)) :
    w.read path = .ok content :=
  Workspace.read_of_open? (h.open?_of_file hfile)

/-- The code points of the path lead to the file, too. -/
theorem readAt_of_file {points : List Nat} (h : NamesEntry path name)
    (hpoints : Text.exactText? points = some path)
    (hfile : w.files.find? (Location.root.child name) = some (.file content modified)) :
    w.readAt points = .ok content := by
  unfold Workspace.readAt
  simp only [hpoints, h.ofString_eq, h.text_eq]
  exact h.read_of_file hfile

/-- A file that is deleted is gone, and nothing else. -/
theorem delete_of_file (h : NamesEntry path name)
    (hfile : w.files.find? (Location.root.child name) = some (.file content modified)) :
    (w.delete (Path.ofString path)).1 =
      { w with files := w.files.remove (Location.root.child name) } := by
  have hstart : FileSystem.startOf w.directory path = .root := h.startOf_eq _
  have hempty : name ≠ "" := fun hname => h.isName.visible (Or.inl hname)
  have hdots : ¬ (name = "." ∨ name = "..") := by
    rintro (hdot | hdots)
    · exact h.isName.visible (Or.inr hdot)
    · exact h.isName.down hdots
  have hslot : w.files.slotAt w.directory (Path.ofString path) =
      .ok ⟨FileSystem.linkLimit, .root, some name, false⟩ := by
    unfold FileSystem.slotAt
    rw [h.ofString_eq, h.text_eq, h.noFault, hstart]
    simp [FileSystem.slotOf, FileSystem.endingOf?, FileSystem.walk, FileSystem.find?, hempty, hdots]
  unfold Workspace.delete Workspace.change FileSystem.deleteAt FileSystem.delete
  simp only [hslot, FileSystem.entryOf, if_neg h.isName.short, hfile]
  rfl

theorem resolve_eq (h : NamesEntry path name)
    (hlink : ∀ target, w.files.find? (Location.root.child name) ≠ some (.link target)) :
    w.resolve (Path.ofString path) = .ok ⟨.root, [name]⟩ := by
  rw [h.ofString_eq]
  exact FileSystem.resolve_name h.isName hlink

/-- A file of a formula in DIMACS form is loaded. -/
theorem load_of_file {text : List Char} {document : Cnf.Document} (h : NamesEntry path name)
    (hfile : w.files.find? (Location.root.child name) = some (.file content modified))
    (htext : Text.utf8Text? content = some text)
    (hdocument : Cnf.readDimacs text = .ok document) :
    (ModelCache.empty.load w path).answer = .ok ⟨0, document, path⟩ := by
  unfold ModelCache.load
  simp only [h.resolve_eq (w := w) (by simp [hfile]), h.text_eq,
    Workspace.status?_of_open? (h.open?_of_file hfile)]
  unfold ModelCache.loadResolved readDimacsFile
  simp only [h.text_eq, h.read_of_file hfile, htext, hdocument]
  rfl

end Entries

end NamesEntry

/-! ## Small workspaces -/

namespace Workspace

/-- No files, and no operation that goes deep. -/
def bare : Workspace := ⟨.empty, .root, .all 100⟩

/-- One file, right below the root. -/
def withFile (name : String) (content : List UInt8) : Workspace :=
  { bare with files := FileSystem.empty.put (Location.root.child name) (.file content 0) }

theorem find?_withFile (name : String) (content : List UInt8) :
    (withFile name content).files.find? (Location.root.child name) = some (.file content 0) := by
  have hchild : Location.root.child name ≠ .root := by
    simp [Location.child, Location.root]
  exact FileSystem.find?_put_self _ hchild _

end Workspace

theorem namesEntry_model : NamesEntry "/model" "model" :=
  ⟨by constructor <;> decide, by decide, by decide +kernel, by decide +kernel, by decide +kernel⟩

theorem namesEntry_index : NamesEntry "/index" "index" :=
  ⟨by constructor <;> decide, by decide, by decide +kernel, by decide +kernel, by decide +kernel⟩

theorem namesEntry_settings : NamesEntry "/settings" "settings" :=
  ⟨by constructor <;> decide, by decide, by decide +kernel, by decide +kernel, by decide +kernel⟩

end Variability
