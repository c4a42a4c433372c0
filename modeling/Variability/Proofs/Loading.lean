-- Loading models again and again while files change: that models are kept never
-- shows, as long as contents that differ also differ in their time or size.
import Variability.Proofs.Files
import Variability.Session

namespace Variability

/-! ## Reading without a cache -/

/-- The file that a path leads to, links resolved, and its status. -/
def Workspace.modelFile (w : Workspace) (path : String) : Except ModelError (Path × Status) :=
  match w.resolve (Path.ofString path) with
  | .error fault => .error (.unreadable path fault)
  | .ok file =>
    match w.status? file.text with
    | .error .linkLoop => .error (.linkLoop file.text)
    | .error fault => .error (.unreadable file.text fault)
    | .ok status => .ok (file, status)

/-- The feature model in a file. -/
def FeatureModel.ofFile (w : Workspace) (file : Path) : Except ModelError FeatureModel :=
  (readDimacsFile w file).map fun document => ⟨document, file.text⟩

/-- The feature model that a path leads to, whatever has been loaded before. -/
def FeatureModel.read (w : Workspace) (path : String) : Except ModelError FeatureModel :=
  match w.modelFile path with
  | .error e => .error e
  | .ok (file, _) => ofFile w file

section Reading

variable {w v : Workspace} {path : String} {file other : Path}

/-- A file has a status if it can be read. -/
theorem Workspace.status?_of_read {bytes : List UInt8} (h : w.read path = .ok bytes) :
    ∃ status, w.status? path = .ok status := by
  unfold Workspace.read FileSystem.read at h
  unfold Workspace.status? FileSystem.status?
  cases hopen : w.files.open? w.directory path with
  | error fault => simp [hopen] at h
  | ok entry => exact ⟨_, rfl⟩

/-- What has no status cannot be read, for the same reason. -/
theorem Workspace.read_of_status? {fault : FileFault} (h : w.status? path = .error fault) :
    w.read path = .error fault := by
  unfold Workspace.status? FileSystem.status? at h
  unfold Workspace.read FileSystem.read
  cases hopen : w.files.open? w.directory path with
  | error found =>
    rw [hopen] at h
    cases h
    rfl
  | ok entry =>
    rw [hopen] at h
    cases h

theorem FeatureModel.ofFile_eq_ok_iff {m : FeatureModel} :
    ofFile w file = .ok m ↔ ∃ bytes text, w.read file.text = .ok bytes ∧
      Text.utf8Text? bytes = some text ∧ Cnf.readDimacs text = .ok m.document ∧
      m.source = file.text := by
  unfold ofFile readDimacsFile
  cases w.read file.text with
  | error fault => simp [Except.map]
  | ok bytes =>
    cases htext : Text.utf8Text? bytes with
    | none => simp [Except.map, htext]
    | some text =>
      cases hdocument : Cnf.readDimacs text with
      | error e =>
        have hfails : (Except.error e : Except _ Cnf.Document).mapError ModelError.dimacs =
          .error (.dimacs e) := rfl
        simp [Except.map, htext, hdocument, hfails]
      | ok document =>
        have hkeeps : (Except.ok document).mapError ModelError.dimacs = .ok document := rfl
        obtain ⟨d, source⟩ := m
        simp [Except.map, htext, hdocument, hkeeps, eq_comm]

/-- Where the path resolves, and not into a loop of links, its file is read:
what is found there, a model or an error, is what reading the path gives. -/
theorem FeatureModel.read_of_resolve (hfile : w.resolve (Path.ofString path) = .ok file)
    (hloop : w.status? file.text ≠ .error .linkLoop) : read w path = ofFile w file := by
  unfold read Workspace.modelFile
  cases hstatus : w.status? file.text with
  | ok status => simp [hfile, hstatus]
  | error fault =>
    have hread := Workspace.read_of_status? hstatus
    rw [hstatus] at hloop
    unfold ofFile readDimacsFile
    cases fault <;> simp_all [Except.map]

theorem FeatureModel.read_eq_ok_iff {m : FeatureModel} :
    read w path = .ok m ↔
      ∃ file, w.resolve (Path.ofString path) = .ok file ∧ ofFile w file = .ok m := by
  constructor
  · intro h
    unfold read Workspace.modelFile at h
    cases hfile : w.resolve (Path.ofString path) with
    | error fault => simp [hfile] at h
    | ok file =>
      cases hstatus : w.status? file.text with
      | error fault => cases fault <;> simp [hfile, hstatus] at h
      | ok status =>
        refine ⟨file, rfl, ?_⟩
        simpa [hfile, hstatus] using h
  · rintro ⟨file, hfile, h⟩
    obtain ⟨bytes, _, hbytes, _⟩ := ofFile_eq_ok_iff.mp h
    obtain ⟨status, hstatus⟩ := Workspace.status?_of_read hbytes
    rw [read_of_resolve hfile (by simp [hstatus]), h]

/-- Only the text of the path and the content of the file count. -/
theorem FeatureModel.ofFile_congr (htext : file.text = other.text)
    (hread : w.read file.text = v.read other.text) : ofFile w file = ofFile v other := by
  unfold ofFile readDimacsFile
  rw [hread, htext]

end Reading

/-! ## One load -/

/-- No two loads find one file with one status and different contents. That it
is a directory counts as a content. -/
def StatusTells (loads : List (Workspace × String)) : Prop :=
  ∀ p ∈ loads, ∀ q ∈ loads, ∀ file other status,
    p.1.modelFile p.2 = .ok (file, status) → q.1.modelFile q.2 = .ok (other, status) →
    file.text = other.text → p.1.read file.text = q.1.read other.text

namespace ModelCache

/-- Each model that is kept was read at one of the loads, from the file of its
key, when that had the status of the key. -/
def Faithful (cache : ModelCache) (loads : List (Workspace × String)) : Prop :=
  ∀ entry ∈ cache.kept, ∃ load ∈ loads, ∃ file,
    load.1.modelFile load.2 = .ok (file, entry.1.status) ∧ file.text = entry.1.path ∧
    FeatureModel.ofFile load.1 file = .ok entry.2.model

section Load

variable {cache : ModelCache} {loads : List (Workspace × String)} {w : Workspace}
  {path : String} {file : Path} {status : Status}

theorem load_of_modelFile_error {e : ModelError} (h : w.modelFile path = .error e) :
    cache.load w path = ⟨.error e, cache, []⟩ := by
  unfold Workspace.modelFile at h
  unfold load
  cases hfile : w.resolve (Path.ofString path) with
  | error fault =>
    simp only [hfile] at h
    cases h
    rfl
  | ok file =>
    cases hstatus : w.status? file.text with
    | ok status => simp [hfile, hstatus] at h
    | error fault => cases fault <;> simp_all

theorem load_of_modelFile (h : w.modelFile path = .ok (file, status)) :
    cache.load w path = cache.loadResolved w file status := by
  unfold Workspace.modelFile at h
  unfold load
  cases hfile : w.resolve (Path.ofString path) with
  | error fault => simp [hfile] at h
  | ok found =>
    cases hstatus : w.status? found.text with
    | error fault => cases fault <;> simp [hfile, hstatus] at h
    | ok st =>
      simp only [hfile, hstatus] at h
      cases h
      simp only [hstatus]

theorem mem_of_find? {key : ModelKey} {m : LoadedModel} (h : cache.find? key = some m) :
    (key, m) ∈ cache.kept := by
  obtain ⟨entry, hentry, rfl⟩ := Option.map_eq_some_iff.mp h
  have hkey : entry.1 = key := by simpa using List.find?_some hentry
  rw [← hkey]
  exact List.mem_of_find?_eq_some hentry

/-- A model that is kept is what its file holds now. -/
theorem Faithful.ofFile_eq (h : cache.Faithful loads) (htells : StatusTells loads)
    (hmem : (w, path) ∈ loads) (hfile : w.modelFile path = .ok (file, status))
    {m : LoadedModel} (hfound : cache.find? ⟨file.text, status⟩ = some m) :
    FeatureModel.ofFile w file = .ok m.model := by
  obtain ⟨load, hload, other, hother, htext, hread⟩ := h _ (mem_of_find? hfound)
  rw [← hread]
  exact FeatureModel.ofFile_congr htext.symm
    (htells _ hmem load hload file other status hfile hother htext.symm)

theorem Faithful.refresh (h : cache.Faithful loads) {key : ModelKey} {m : LoadedModel}
    (hfound : cache.find? key = some m) : (cache.refresh key m).Faithful loads := by
  intro entry hentry
  rcases List.mem_cons.mp hentry with rfl | hrest
  · exact h _ (mem_of_find? hfound)
  · exact h entry (List.mem_filter.mp hrest).1

theorem Faithful.add (h : cache.Faithful loads) (hmem : (w, path) ∈ loads)
    (hfile : w.modelFile path = .ok (file, status)) {m : FeatureModel}
    (hread : FeatureModel.ofFile w file = .ok m) :
    (cache.add ⟨file.text, status⟩ m).Faithful loads := by
  intro entry hentry
  rcases List.mem_cons.mp (List.mem_of_mem_take hentry) with rfl | hrest
  · exact ⟨_, hmem, file, hfile, rfl, hread⟩
  · exact h entry hrest

/-- A load gives what the path leads to now, and what is kept stays faithful. -/
theorem Faithful.load (h : cache.Faithful loads) (htells : StatusTells loads)
    (hmem : (w, path) ∈ loads) :
    (cache.load w path).answer.map LoadedModel.model = FeatureModel.read w path ∧
      (cache.load w path).state.Faithful loads := by
  unfold FeatureModel.read
  cases hfile : w.modelFile path with
  | error e =>
    rw [load_of_modelFile_error hfile]
    exact ⟨rfl, h⟩
  | ok found =>
    obtain ⟨file, status⟩ := found
    rw [load_of_modelFile hfile]
    unfold loadResolved
    cases hfound : cache.find? ⟨file.text, status⟩ with
    | some m =>
      simp only [hfound]
      exact ⟨(h.ofFile_eq htells hmem hfile hfound).symm, h.refresh hfound⟩
    | none =>
      cases hread : readDimacsFile w file with
      | error e =>
        simp only [hfound, FeatureModel.ofFile, hread]
        exact ⟨rfl, h⟩
      | ok document =>
        have hmodel : FeatureModel.ofFile w file = .ok ⟨document, file.text⟩ := by
          rw [FeatureModel.ofFile, hread]
          rfl
        simp only [hfound, hmodel]
        exact ⟨rfl, h.add hmem hfile hmodel⟩

end Load

/-! ## Sessions of loads -/

/-- Loading a model, as an operation whose state is the cache. -/
def loading : Operation String ModelCache (Except ModelError LoadedModel) :=
  fun path w cache => cache.load w path

/-- Induction on the turns, with what is kept faithful to all loads of the
session. -/
theorem answers_loading {loads : List (Workspace × String)} (htells : StatusTells loads)
    {cache : ModelCache} (h : cache.Faithful loads) (w : Workspace) (turns : List (Turn String))
    (hsub : Session.asked w turns ⊆ loads) :
    (Session.answers loading ⟨w, cache⟩ turns).map (Except.map LoadedModel.model) =
      (Session.asked w turns).map fun load => FeatureModel.read load.1 load.2 := by
  induction turns generalizing w cache with
  | nil => rfl
  | cons t turns ih =>
    cases t with
    | change apply => exact ih h (apply w) hsub
    | ask path =>
      obtain ⟨hfirst, hrest⟩ := List.cons_subset.mp hsub
      obtain ⟨hanswer, hstate⟩ := h.load htells hfirst
      unfold Session.answers Session.asked
      rw [List.map_cons, List.map_cons]
      congr 1
      exact ih hstate w hrest

/-- Whatever is loaded in whatever order while files are written, linked and
deleted: each load gives the model that its file holds at that time, or the
error of reading it. -/
theorem every_load_gives_what_its_file_holds_then {w : Workspace} {turns : List (Turn String)}
    (htells : StatusTells (Session.asked w turns)) :
    (Session.answers loading ⟨w, empty⟩ turns).map (Except.map LoadedModel.model) =
      (Session.asked w turns).map (fun load => FeatureModel.read load.1 load.2) ∧
    ∀ load ∈ Session.asked w turns,
      (∀ m, FeatureModel.read load.1 load.2 = .ok m ↔
        ∃ file bytes text, load.1.resolve (Path.ofString load.2) = .ok file ∧
          load.1.read file.text = .ok bytes ∧ Text.utf8Text? bytes = some text ∧
          Cnf.readDimacs text = .ok m.document ∧ m.source = file.text) ∧
      ∀ file, load.1.resolve (Path.ofString load.2) = .ok file →
        load.1.status? file.text ≠ .error .linkLoop →
        FeatureModel.read load.1 load.2 =
          (readDimacsFile load.1 file).map fun document => ⟨document, file.text⟩ := by
  have hempty : empty.Faithful (Session.asked w turns) := by
    intro entry hentry
    cases hentry
  refine ⟨answers_loading htells hempty w turns (List.Subset.refl _), fun load _ => ⟨?_, ?_⟩⟩
  · intro m
    rw [FeatureModel.read_eq_ok_iff]
    simp only [FeatureModel.ofFile_eq_ok_iff]
    constructor
    · rintro ⟨file, hfile, bytes, text, h⟩
      exact ⟨file, bytes, text, hfile, h⟩
    · rintro ⟨file, bytes, text, hfile, h⟩
      exact ⟨file, hfile, bytes, text, h⟩
  · intro file hfile hloop
    exact FeatureModel.read_of_resolve hfile hloop

/-! ## A model that is written, rewritten and deleted -/

def writeModel (text : String) (modified : Int) (w : Workspace) : Workspace :=
  { w with files := w.files.put ⟨["model"]⟩ (.file text.toUTF8.toList modified) }

def deleteModel (w : Workspace) : Workspace := { w with files := w.files.remove ⟨["model"]⟩ }

def noModel : Workspace := .bare

def firstModel : Workspace := writeModel "1 2 0" 0 noModel

def secondModel : Workspace := writeModel "2 1 0" 1 firstModel

/-- A model is loaded before and after each change of its file. -/
def changingModel : List (Turn String) :=
  [.ask "/model", .change (writeModel "1 2 0" 0), .ask "/model",
    .change (writeModel "2 1 0" 1), .ask "/model", .change deleteModel, .ask "/model"]

theorem asked_changingModel : Session.asked noModel changingModel =
    [(noModel, "/model"), (firstModel, "/model"), (secondModel, "/model"),
      (deleteModel secondModel, "/model")] := rfl

section Model

variable {w : Workspace} {content : List UInt8} {modified : Int}

theorem find?_writeModel (text : String) (modified : Int) (w : Workspace) :
    (writeModel text modified w).files.find? (Location.root.child "model") =
      some (.file text.toUTF8.toList modified) := by
  unfold writeModel
  exact FileSystem.find?_put_self _ (by decide) _

theorem find?_deleteModel (w : Workspace) :
    (deleteModel w).files.find? (Location.root.child "model") = none := by
  unfold deleteModel
  exact (FileSystem.find?_remove _ (by decide) _).trans (if_pos rfl)

theorem text_model : (Path.mk .root ["model"]).text = "/model" := namesEntry_model.text_eq

theorem modelFile_of_file (h : w.files.find? (Location.root.child "model") =
    some (.file content modified)) :
    w.modelFile "/model" = .ok (⟨.root, ["model"]⟩, ⟨modified, content.length⟩) ∧
      w.read "/model" = .ok content := by
  refine ⟨?_, namesEntry_model.read_of_file h⟩
  unfold Workspace.modelFile
  simp only [namesEntry_model.resolve_eq (w := w) (by simp [h]), text_model,
    Workspace.status?_of_open? (namesEntry_model.open?_of_file h)]
  rfl

theorem modelFile_of_missing (h : w.files.find? (Location.root.child "model") = none) :
    w.modelFile "/model" = .error (.unreadable "/model" .missing) := by
  unfold Workspace.modelFile Workspace.status? FileSystem.status?
  simp only [namesEntry_model.resolve_eq (w := w) (by simp [h]), text_model,
    namesEntry_model.open?_of_missing h]
  rfl

end Model

theorem modelFile_noModel :
    noModel.modelFile "/model" = .error (.unreadable "/model" .missing) := by
  exact modelFile_of_missing (FileSystem.find?_empty (by decide))

theorem modelFile_firstModel :
    firstModel.modelFile "/model" = .ok (⟨.root, ["model"]⟩, ⟨0, 5⟩) := by
  have hsize : "1 2 0".toUTF8.toList.length = 5 := by decide +kernel
  rw [firstModel, (modelFile_of_file (find?_writeModel _ _ _)).1, hsize]

theorem modelFile_secondModel :
    secondModel.modelFile "/model" = .ok (⟨.root, ["model"]⟩, ⟨1, 5⟩) := by
  have hsize : "2 1 0".toUTF8.toList.length = 5 := by decide +kernel
  rw [secondModel, (modelFile_of_file (find?_writeModel _ _ _)).1, hsize]

theorem read_firstModel : firstModel.read "/model" = .ok "1 2 0".toUTF8.toList :=
  (modelFile_of_file (find?_writeModel _ _ _)).2

theorem read_secondModel : secondModel.read "/model" = .ok "2 1 0".toUTF8.toList :=
  (modelFile_of_file (find?_writeModel _ _ _)).2

theorem modelFile_deleteModel :
    (deleteModel secondModel).modelFile "/model" = .error (.unreadable "/model" .missing) :=
  modelFile_of_missing (find?_deleteModel _)

theorem status_changingModel {load : Workspace × String} {file : Path} {status : Status}
    (hload : load ∈ Session.asked noModel changingModel)
    (hfile : load.1.modelFile load.2 = .ok (file, status)) :
    load = (firstModel, "/model") ∧ status = ⟨0, 5⟩ ∨
      load = (secondModel, "/model") ∧ status = ⟨1, 5⟩ := by
  rw [asked_changingModel] at hload
  simp only [List.mem_cons, List.not_mem_nil, or_false] at hload
  rcases hload with rfl | rfl | rfl | rfl
  · simp [modelFile_noModel] at hfile
  · simp only [modelFile_firstModel, Except.ok.injEq, Prod.mk.injEq] at hfile
    exact Or.inl ⟨rfl, hfile.2.symm⟩
  · simp only [modelFile_secondModel, Except.ok.injEq, Prod.mk.injEq] at hfile
    exact Or.inr ⟨rfl, hfile.2.symm⟩
  · simp [modelFile_deleteModel] at hfile

/-- The two texts have the same size, but not the same time. -/
theorem statusTells_changingModel : StatusTells (Session.asked noModel changingModel) := by
  intro p hp q hq file other status hfile hother htext
  rw [htext]
  rcases status_changingModel hp hfile with ⟨rfl, rfl⟩ | ⟨rfl, rfl⟩ <;>
    rcases status_changingModel hq hother with ⟨rfl, hsame⟩ | ⟨rfl, hsame⟩
  · rfl
  · exact absurd hsame (by decide)
  · exact absurd hsame (by decide)
  · rfl

theorem ofFile_of_text {w : Workspace} {text : String} {d : Cnf.Document}
    (hread : w.read "/model" = .ok text.toUTF8.toList)
    (htext : Text.utf8Text? text.toUTF8.toList = some text.toList)
    (hd : Cnf.readDimacs text.toList = .ok d) :
    FeatureModel.ofFile w ⟨.root, ["model"]⟩ = .ok ⟨d, "/model"⟩ := by
  apply FeatureModel.ofFile_eq_ok_iff.mpr
  rw [text_model]
  exact ⟨_, _, hread, htext, hd, rfl⟩

theorem read_of_text {w : Workspace} {status : Status} {text : String} {d : Cnf.Document}
    (hfile : w.modelFile "/model" = .ok (⟨.root, ["model"]⟩, status))
    (hread : w.read "/model" = .ok text.toUTF8.toList)
    (htext : Text.utf8Text? text.toUTF8.toList = some text.toList)
    (hd : Cnf.readDimacs text.toList = .ok d) :
    FeatureModel.read w "/model" = .ok ⟨d, "/model"⟩ := by
  unfold FeatureModel.read
  simp only [hfile]
  exact ofFile_of_text hread htext hd

/-- A load fails before the file is there, gives either text in its time, and
fails when the file is gone. -/
theorem a_changing_model_is_read_again :
    ∃ first second, Cnf.readDimacs "1 2 0".toList = .ok first ∧
      Cnf.readDimacs "2 1 0".toList = .ok second ∧
      (Session.answers loading ⟨noModel, empty⟩ changingModel).map (Except.map LoadedModel.model) =
        [.error (.unreadable "/model" .missing), .ok ⟨first, "/model"⟩, .ok ⟨second, "/model"⟩,
          .error (.unreadable "/model" .missing)] := by
  have hokFirst : (Cnf.readDimacs "1 2 0".toList).isOk = true := by decide +kernel
  have hokSecond : (Cnf.readDimacs "2 1 0".toList).isOk = true := by decide +kernel
  obtain ⟨first, hfirst⟩ := exists_of_isOk hokFirst
  obtain ⟨second, hsecond⟩ := exists_of_isOk hokSecond
  refine ⟨first, second, hfirst, hsecond, ?_⟩
  have hmissing : ∀ w : Workspace, w.modelFile "/model" = .error (.unreadable "/model" .missing) →
      FeatureModel.read w "/model" = .error (.unreadable "/model" .missing) := by
    intro w hw
    unfold FeatureModel.read
    rw [hw]
  rw [(every_load_gives_what_its_file_holds_then statusTells_changingModel).1,
    asked_changingModel, List.map_cons, List.map_cons, List.map_cons, List.map_cons, List.map_nil,
    hmissing _ modelFile_noModel, hmissing _ modelFile_deleteModel,
    read_of_text modelFile_firstModel read_firstModel (by decide +kernel) hfirst,
    read_of_text modelFile_secondModel read_secondModel (by decide +kernel) hsecond]

end ModelCache

end Variability
