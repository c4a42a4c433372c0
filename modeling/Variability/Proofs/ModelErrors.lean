-- Bad models: which of them are reported as bad models, and which errors reach
-- the caller as they arose.
import Variability.Proofs.FormulaLines
import Variability.Proofs.Loading
import Variability.Proofs.Numbers

namespace Variability

namespace Cnf

open Text

/-! ## Comments that name a variable by a long number -/

section Lines

variable {line digits name : List Char} {number : Nat} {p : Progress}

/-- The line names a variable by more digits than are read of a number. -/
def NamesLong (line : List Char) : Prop :=
  ∃ digits name, namedVariable? line = some (digits, name) ∧ integerDigitLimit < digits.length

theorem readComment_longId :
    (∃ fault, readComment p line = .error (.longId fault)) ↔ NamesLong line := by
  unfold readComment NamesLong
  cases hnamed : namedVariable? line with
  | none => simp
  | some found =>
    obtain ⟨digits, name⟩ := found
    have hform := nameForm_of_namedVariable? hnamed
    have hlong := readNatural_of_digits hform.ne_nil hform.decimal
    cases hread : readNatural digits with
    | error fault => simpa [hread] using hlong
    | ok id => simpa [hread] using hlong

theorem readHeader_longId {fault : IntegerFault} :
    readHeader number p line ≠ .error (.longId fault) := by
  intro h
  cases readHeader_error h

theorem readTokens_longId {tokens : List (List Char)} {fault : IntegerFault} :
    readTokens number p tokens ≠ .error (.longId fault) := by
  intro h
  rcases readTokens_error h with ⟨_, h⟩ | h <;> cases h

theorem readLine_longId (htrim : Trimmed line) :
    (∃ fault, readLine number p line = .error (.longId fault)) ↔ NamesLong line := by
  have hother : ∀ c rest, line = c :: rest → c ≠ 'c' → ¬ NamesLong line := by
    rintro c rest rfl hc ⟨digits, name, hnamed, _⟩
    have hhead := (nameForm_of_namedVariable? hnamed).head?_trim
    rw [htrim.trim_eq] at hhead
    exact hc (Option.some.inj hhead)
  unfold readLine
  split
  · rename_i hnil
    simp [NamesLong, namedVariable?, words, trimStart]
  · rename_i rest
    simpa using hother '%' rest rfl (by decide)
  · exact readComment_longId
  · rename_i rest
    simpa [readHeader_longId] using hother 'p' rest rfl (by decide)
  · rename_i hblank _ hcomment _
    cases line with
    | nil => exact absurd rfl hblank
    | cons c rest =>
      have hc : c ≠ 'c' := by
        rintro rfl
        exact hcomment rest rfl
      simpa [readTokens_longId] using hother c rest rfl hc

/-- Induction on the lines: a line is only looked at if those before it can be
read. -/
theorem readLines_longId {ls : List (List Char)} :
    (∃ fault, readLines number p ls = .error (.longId fault)) ↔
      ∃ before line after, ls = before ++ line :: after ∧
        (∃ q, readLines number p before = .ok q) ∧ NamesLong (trim line) := by
  induction ls generalizing number p with
  | nil => simp [readLines]
  | cons line rest ih =>
    have hline := @readLine_longId _ number p (trimmed_trim line)
    constructor
    · rintro ⟨fault, h⟩
      unfold readLines at h
      cases hread : readLine number p (trim line) with
      | error e =>
        simp only [hread, Except.error.injEq] at h
        exact ⟨[], line, rest, rfl, ⟨p, rfl⟩, hline.mp ⟨fault, by rw [hread, h]⟩⟩
      | ok next =>
        simp only [hread] at h
        obtain ⟨before, found, after, rfl, ⟨q, hq⟩, hlong⟩ := ih.mp ⟨fault, h⟩
        refine ⟨line :: before, found, after, rfl, ⟨q, ?_⟩, hlong⟩
        simp only [readLines, hread, hq]
    · rintro ⟨before, found, after, hsplit, ⟨q, hq⟩, hlong⟩
      unfold readLines
      cases before with
      | nil =>
        obtain ⟨rfl, rfl⟩ := List.cons.inj hsplit
        obtain ⟨fault, hfault⟩ := hline.mpr hlong
        exact ⟨fault, by simp only [hfault]⟩
      | cons first before =>
        obtain ⟨rfl, rfl⟩ := List.cons.inj hsplit
        unfold readLines at hq
        cases hread : readLine number p (trim line) with
        | error e => simp [hread] at hq
        | ok next =>
          simp only [hread] at hq ⊢
          exact ih.mpr ⟨before, found, after, rfl, ⟨q, hq⟩, hlong⟩

end Lines

/-- Reading the text comes to a line that names a variable by more digits than
are read of a number. -/
def ReachesLongName (text : List Char) : Prop :=
  ∃ before line after, lines text = before ++ line :: after ∧
    (∃ p, readLines 1 .start before = .ok p) ∧ NamesLong (trim line)

theorem readDimacs_longId {text : List Char} :
    (∃ fault, readDimacs text = .error (.longId fault)) ↔ ReachesLongName text := by
  unfold ReachesLongName
  rw [← readLines_longId]
  unfold readDimacs
  cases readLines 1 .start (lines text) with
  | error e => simp
  | ok p =>
    simp only [reduceCtorEq, exists_false, iff_false, not_exists]
    intro fault
    split
    · simp
    · cases Document.ofParts _ _ _ <;> simp [Except.mapError]

/-- A text that is no formula is reported, unless a long number stops the
reading. -/
theorem readDimacs_unreported {text : List Char} :
    (∃ e, readDimacs text = .error e ∧ e.isReported = false) ↔ ReachesLongName text := by
  rw [← readDimacs_longId]
  constructor
  · rintro ⟨e, h, he⟩
    cases e <;> simp [DimacsError.isReported] at he
    exact ⟨_, h⟩
  · rintro ⟨fault, h⟩
    exact ⟨_, h, rfl⟩

end Cnf

/-! ## Loading a bad model -/

namespace FeatureModel

/-- What is wrong with a model and is not reported as a bad model. -/
inductive Escapes (w : Workspace) (path : String) : Prop
  /-- The path has a null character, or its links are too deep in each other. -/
  | unresolved {fault : FileFault} (h : w.resolve (Path.ofString path) = .error fault)
  /-- A link leads to itself. -/
  | linkLoop {file : Path} (hfile : w.resolve (Path.ofString path) = .ok file)
      (h : w.status? file.text = .error .linkLoop)
  /-- A null character is left behind a link that leads to itself. -/
  | nullCharacter {file : Path} (hfile : w.resolve (Path.ofString path) = .ok file)
      (h : FileSystem.hasNull file.text = true)
  | notUtf8 {file : Path} {bytes : List UInt8}
      (hfile : w.resolve (Path.ofString path) = .ok file)
      (hread : w.read file.text = .ok bytes) (h : Text.utf8Text? bytes = none)
  | longName {file : Path} {bytes : List UInt8} {text : List Char}
      (hfile : w.resolve (Path.ofString path) = .ok file)
      (hread : w.read file.text = .ok bytes) (htext : Text.utf8Text? bytes = some text)
      (h : Cnf.ReachesLongName text)

section Errors

variable {w : Workspace} {path : String} {file : Path} {e : ModelError}

/-- An error of a file that is there, or of its content. -/
theorem escapes_of_ofFile (hfile : w.resolve (Path.ofString path) = .ok file)
    (h : ofFile w file = .error e) (he : e.isReported = false) : Escapes w path := by
  unfold ofFile readDimacsFile at h
  cases hread : w.read file.text with
  | error fault =>
    simp only [hread, Except.map] at h
    cases h
    have hnull := Workspace.read_fault hread
    rw [show fault.isFound = false from he] at hnull
    exact .nullCharacter hfile (by simpa using hnull)
  | ok bytes =>
    cases htext : Text.utf8Text? bytes with
    | none => exact .notUtf8 hfile hread htext
    | some text =>
      cases hdimacs : Cnf.readDimacs text with
      | ok document => simp [hread, htext, hdimacs, Except.map, Except.mapError] at h
      | error cause =>
        simp only [hread, htext, hdimacs, Except.map, Except.mapError] at h
        cases h
        exact .longName hfile hread htext (Cnf.readDimacs_unreported.mp ⟨cause, hdimacs, he⟩)

theorem escapes_of_read (h : read w path = .error e) (he : e.isReported = false) :
    Escapes w path := by
  cases hfile : w.resolve (Path.ofString path) with
  | error fault => exact .unresolved hfile
  | ok file =>
    by_cases hloop : w.status? file.text = .error .linkLoop
    · exact .linkLoop hfile hloop
    · rw [read_of_resolve hfile hloop] at h
      exact escapes_of_ofFile hfile h he

/-- The content of a file decides once it can be read. -/
theorem read_of_bytes {bytes : List UInt8} (hfile : w.resolve (Path.ofString path) = .ok file)
    (hread : w.read file.text = .ok bytes) : read w path = ofFile w file := by
  obtain ⟨status, hstatus⟩ := Workspace.status?_of_read hread
  exact read_of_resolve hfile (by simp [hstatus])

theorem Escapes.read_unreported (h : Escapes w path) :
    ∃ e, read w path = .error e ∧ e.isReported = false := by
  cases h with
  | @unresolved fault h =>
    refine ⟨.unreadable path fault, ?_, FileSystem.resolve_fault h⟩
    simp only [read, Workspace.modelFile, h]
  | @linkLoop file hfile h =>
    refine ⟨.linkLoop file.text, ?_, rfl⟩
    simp only [read, Workspace.modelFile, hfile, h]
  | @nullCharacter file hfile h =>
    refine ⟨.unreadable file.text .nullCharacter, ?_, rfl⟩
    simp only [read, Workspace.modelFile, hfile, Workspace.status?_of_hasNull h]
  | notUtf8 hfile hread h =>
    refine ⟨.notUtf8, ?_, rfl⟩
    rw [read_of_bytes hfile hread, ofFile, readDimacsFile]
    simp only [hread, h, Except.map]
  | longName hfile hread htext h =>
    obtain ⟨cause, hdimacs, hcause⟩ := Cnf.readDimacs_unreported.mpr h
    refine ⟨.dimacs cause, ?_, hcause⟩
    rw [read_of_bytes hfile hread, ofFile, readDimacsFile]
    simp only [hread, htext, hdimacs, Except.map, Except.mapError]

end Errors

end FeatureModel

namespace ModelCache

/-- The file that a path leads to is kept, as it is now. -/
def Keeps (cache : ModelCache) (w : Workspace) (path : String) : Prop :=
  ∃ file status, w.modelFile path = .ok (file, status) ∧
    (cache.find? ⟨file.text, status⟩).isSome = true

/-- What is kept is loaded without a look at the file. -/
theorem load_error_iff {cache : ModelCache} {w : Workspace} {path : String} {e : ModelError} :
    (cache.load w path).answer = .error e ↔
      ¬ cache.Keeps w path ∧ FeatureModel.read w path = .error e := by
  unfold Keeps FeatureModel.read
  cases hfile : w.modelFile path with
  | error fault => simp [load_of_modelFile_error hfile]
  | ok found =>
    obtain ⟨file, status⟩ := found
    rw [load_of_modelFile hfile]
    unfold loadResolved
    cases hfound : cache.find? ⟨file.text, status⟩ with
    | some m => simp [hfound]
    | none =>
      cases hread : readDimacsFile w file with
      | error cause => simp [hfound, FeatureModel.ofFile, hread, Except.map]
      | ok document => simp [hfound, FeatureModel.ofFile, hread, Except.map]

/-- A model that cannot be loaded is reported as a bad model exactly if it is
not one of those that escape, and a text that is no formula is reported exactly
if no long number stops its reading. -/
theorem a_bad_model_is_reported_unless_it_escapes (cache : ModelCache) (w : Workspace)
    (path : String) (text : List Char) :
    ((∀ e, (cache.load w path).answer = .error e → e.isReported = true) ↔
      cache.Keeps w path ∨ ¬ FeatureModel.Escapes w path) ∧
    ((∀ e, Cnf.readDimacs text = .error e → e.isReported = true) ↔
      ¬ Cnf.ReachesLongName text) := by
  constructor
  · constructor
    · intro h
      by_cases hkept : cache.Keeps w path
      · exact Or.inl hkept
      · right
        intro hescapes
        obtain ⟨e, hread, he⟩ := hescapes.read_unreported
        have := h e (load_error_iff.mpr ⟨hkept, hread⟩)
        simp [he] at this
    · intro h e hload
      obtain ⟨hkept, hread⟩ := load_error_iff.mp hload
      by_contra he
      exact (h.resolve_left hkept) (FeatureModel.escapes_of_read hread (by simpa using he))
  · rw [← Cnf.readDimacs_unreported]
    simp

/-- A model that is one byte, which is no character. -/
def byteModel : Workspace := .withFile "model" [0xff]

/-- The byte is reported as no character, and not as a bad model. -/
theorem a_model_that_is_not_utf8_escapes :
    ¬ ∀ e, (empty.load byteModel "/model").answer = .error e → e.isReported = true := by
  have hfile : byteModel.files.find? (Location.root.child "model") = some (.file [0xff] 0) :=
    Workspace.find?_withFile _ _
  obtain ⟨hmodel, hread⟩ := modelFile_of_file hfile
  have hload : (empty.load byteModel "/model").answer = .error .notUtf8 := by
    rw [load_of_modelFile hmodel]
    unfold loadResolved readDimacsFile
    rw [text_model]
    simp only [hread]
    rfl
  intro h
  exact absurd (h _ hload) (by decide)

end ModelCache

end Variability
