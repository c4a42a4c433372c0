-- What goes wrong when the build conditions of a file are located: which errors
-- are reported as that of a path, an index or a condition, and which reach the
-- caller as they arose.
import Variability.Proofs.Dialects
import Variability.Proofs.Places

namespace Variability

open BuildIndex

/-! ## Scanning -/

section Scanning

variable {w : Workspace} {index : String} {e : IndexError}

/-- What goes wrong with an index is reported unless its path has a null
character. -/
theorem isReported_of_scan {keys : List Key} (h : (scan w index keys).1 = .error e) :
    e.isReported = !FileSystem.hasNull index := by
  unfold scan at h
  cases hread : w.read index with
  | error fault =>
    simp only [hread] at h
    cases h
    exact Workspace.read_fault hread
  | ok bytes =>
    have hnull : FileSystem.hasNull index = false := by
      by_contra hnull
      rw [Workspace.read_of_hasNull (by simpa using hnull)] at hread
      cases hread
    simp only [hread] at h
    split at h
    · cases h
    · cases h
      rw [hnull]
      rfl

theorem scan_of_hasNull (h : FileSystem.hasNull index = true) (keys : List Key) :
    (scan w index keys).1 = .error ⟨index, .file .nullCharacter⟩ := by
  unfold scan
  rw [Workspace.read_of_hasNull h]

end Scanning

/-! ## Compiled units -/

/-- The only thing that goes wrong with the suffix of a named file is that it is
mapped to a text that is none. -/
theorem objectIdentity_error {suffixes : Table String String} {relative : Path}
    {fault : Path.SuffixFault} (hname : relative.name ≠ "")
    (h : objectIdentity suffixes relative = .error fault) :
    ∃ mapped, suffixes.get? relative.suffix = some mapped ∧ Path.isSuffix mapped = false := by
  unfold objectIdentity at h
  split at h
  · rename_i mapped hmapped
    refine ⟨mapped, hmapped, ?_⟩
    by_contra hsuffix
    unfold Path.withSuffix at h
    rw [if_neg (by simpa using hsuffix), if_neg hname] at h
    cases h
  · cases h

theorem objectIdentity_of_not_isSuffix {suffixes : Table String String} {relative : Path}
    {mapped : String} (hmapped : suffixes.get? relative.suffix = some mapped)
    (h : Path.isSuffix mapped = false) :
    objectIdentity suffixes relative = .error (.invalid mapped) := by
  unfold objectIdentity
  simp only [hmapped, Path.withSuffix, h]
  rfl

/-! ## Locating -/

namespace BuildSystem

/-- The file is there and inside the project root, from which `relative` leads
to it. -/
structure HasFile (b : BuildSystem) (w : Workspace) (file : String) (relative : Path) : Prop where
  exists_status : ∃ status, w.status? (w.absolute (Path.ofString file)).text = .ok status
  below : (w.absolute (Path.ofString b.projectRoot)).relativeTo?
    (w.absolute (Path.ofString file)) = some relative
  named : relative.name ≠ ""

/-- What is wrong with a build system and is not reported when the conditions of
a file are located: its suffix is mapped to a text that is none, or the path of
the index has a null character. -/
inductive Escapes (b : BuildSystem) (relative : Path) : Prop
  | suffix {mapped : String} (hmapped : b.suffixes.get? relative.suffix = some mapped)
      (h : Path.isSuffix mapped = false)
  | nullCharacter (h : FileSystem.hasNull (Path.ofString b.indexPath).text = true)

section Locating

variable {b : BuildSystem} {w : Workspace} {file : String} {relative : Path}

theorem HasFile.keys_eq (h : b.HasFile w file relative) :
    (b.scanner file).keys w =
      ((objectIdentity b.suffixes relative).mapError LocateError.suffix).map lookupKeys := by
  obtain ⟨status, hstatus⟩ := h.exists_status
  unfold Scanner.keys
  rw [objectFile_eq]
  unfold placed scanner
  simp only [hstatus, h.below]

theorem HasFile.escapes_of_entries {e : LocateError} (hfile : b.HasFile w file relative)
    (h : (b.scanner file).entries w = .error e) (he : e.isReported = false) :
    b.Escapes relative := by
  unfold Scanner.entries at h
  rw [hfile.keys_eq] at h
  cases hunit : objectIdentity b.suffixes relative with
  | error fault =>
    obtain ⟨mapped, hmapped, hsuffix⟩ := objectIdentity_error hfile.named hunit
    exact .suffix hmapped hsuffix
  | ok object =>
    simp only [hunit, Except.mapError, Except.map] at h
    split at h
    · rename_i fault hscan
      cases h
      have hnull := isReported_of_scan hscan
      rw [show fault.isReported = false from he] at hnull
      exact .nullCharacter (by simpa [scanner] using hnull)
    · split at h
      · cases h
        cases he
      · cases h

theorem Escapes.entries_unreported (h : b.Escapes relative) (hfile : b.HasFile w file relative) :
    ∃ e, (b.scanner file).entries w = .error e ∧ e.isReported = false := by
  unfold Scanner.entries
  rw [hfile.keys_eq]
  cases hunit : objectIdentity b.suffixes relative with
  | error fault => exact ⟨_, rfl, rfl⟩
  | ok object =>
    cases h with
    | suffix hmapped hsuffix =>
      rw [objectIdentity_of_not_isSuffix hmapped hsuffix] at hunit
      cases hunit
    | nullCharacter hnull =>
      have hscan : (scan w (b.scanner file).index.text (lookupKeys object)).1 =
          .error ⟨_, .file .nullCharacter⟩ := scan_of_hasNull hnull _
      simp only [Except.mapError, Except.map, hscan]
      exact ⟨_, rfl, rfl⟩

/-- The errors of a file in the project are reported exactly if nothing
escapes. -/
theorem HasFile.reports_iff (hfile : b.HasFile w file relative) (owner : Nat) (h : History) :
    (∀ e, ((b.scanner file).locate w owner ⟨.unscanned, h⟩).answer = .error e →
      e.isReported = true) ↔ ¬ b.Escapes relative := by
  rw [Scanner.answer_locate_unscanned]
  constructor
  · intro hall hescapes
    obtain ⟨e, hentries, he⟩ := hescapes.entries_unreported hfile
    have hreported := hall e (by rw [hentries]; rfl)
    rw [he] at hreported
    cases hreported
  · intro hnone e hanswer
    by_contra he
    cases hentries : (b.scanner file).entries w with
    | ok entries =>
      rw [hentries] at hanswer
      cases hanswer
    | error fault =>
      rw [hentries] at hanswer
      cases hanswer
      exact hnone (hfile.escapes_of_entries hentries (by simpa using he))

end Locating

end BuildSystem

/-! ## Settings -/

theorem Checked.collect_map_ok {α : Type} (as : List α) :
    collect (as.map fun a => (.ok a : Checked α)) = .ok as := by
  induction as with
  | nil => rfl
  | cons a as ih => simp only [List.map_cons, collect, ih]

namespace Settings

/-- A table of texts, as it is given. -/
def tableValue (t : Table String String) : Value :=
  .map (t.entries.map fun p => (.string p.1, .string p.2))

/-- The fields of a build system, as they are given. -/
def buildFields (indexPath projectRoot : String) (suffixes : Table String String) :
    List (Value × Value) :=
  [(.string "dimacs_path", .string ""), (.string "kmax_path", .string indexPath),
    (.string "project_root", .string projectRoot), (.string "object_suffixes", tableValue suffixes)]

theorem readTable_tableValue (t : Table String String) :
    Value.readTable Value.readString Value.readString (tableValue t) = .ok t := by
  have hentries : Value.readEntry Value.readString Value.readString ∘
      (fun p : String × String => (Value.string p.1, Value.string p.2)) =
        fun p => (.ok p : Checked (String × String)) := by
    funext p
    rfl
  unfold tableValue Value.readTable
  simp only [List.map_map, hentries, Checked.collect_map_ok]
  exact congrArg Except.ok (Table.ext (Table.entries_ofList t.nodup))

/-- Settings with any path of an index, any project root and any table of
suffixes are valid. -/
theorem ofFields_buildFields (room : Nat) (indexPath projectRoot : String)
    (suffixes : Table String String) : ofFields room (buildFields indexPath projectRoot suffixes) =
      .ok ⟨"", some indexPath, projectRoot, 1, none, "glucose4", suffixes⟩ := by
  unfold ofFields readBudget buildFields Value.required Value.optional
  simp [Value.field?, Value.readString, Value.readOptionalString, readTable_tableValue,
    Checked.below, Except.mapError, Except.map, Budget.ofValue, Budget.seconds?, unlistedFault?,
    budgetField]

end Settings

section Located

variable {s : Settings} {source source' : Source} {reader : ConditionReader} {b : BuildSystem}
  {w : Workspace} {file : String} {relative : Path}

/-- Whatever build system settings describe, valid settings describe it too. -/
theorem exists_valid_settings (hbuild : (s.locator source reader).conditions = .build source' b) :
    ∃ fields valid, (∀ room, Settings.ofFields room fields = .ok valid) ∧
      (valid.locator source reader).conditions = .build source' b := by
  unfold Settings.locator at hbuild
  split at hbuild
  · rename_i indexPath hindex
    refine ⟨_, _, fun room => Settings.ofFields_buildFields room indexPath s.projectRoot s.suffixes,
      ?_⟩
    have hne : indexPath ≠ "" := by
      obtain ⟨_, hne⟩ := Option.filter_eq_some_iff.mp hindex
      exact of_decide_eq_true hne
    have hkept : (some indexPath).filter (· ≠ "") = some indexPath :=
      Option.filter_eq_some_iff.mpr ⟨rfl, decide_eq_true hne⟩
    unfold Settings.locator
    simp only [hkept]
    exact hbuild
  · cases hbuild

/-- For a file in the project, all errors of a scanner that settings describe
are reported as that of a path, of the index or of a condition exactly if
nothing escapes, whatever the index holds. Validation rules none of this out:
valid settings describe the same build system. -/
theorem location_errors_are_reported_unless_they_escape
    (hbuild : (s.locator source reader).conditions = .build source' b)
    (hfile : b.HasFile w file relative) (owner : Nat) (h : History) :
    ((∀ e, ((b.scanner file).locate w owner ⟨.unscanned, h⟩).answer = .error e →
        e.isReported = true) ↔ ¬ b.Escapes relative) ∧
      ∃ fields valid, (∀ room, Settings.ofFields room fields = .ok valid) ∧
        (valid.locator source reader).conditions = .build source' b :=
  ⟨hfile.reports_iff owner h, exists_valid_settings hbuild⟩

end Located

/-! ## A small build -/

theorem hasFile_smallProject {b : BuildSystem} (hroot : b.projectRoot = "/") :
    b.HasFile smallProject "/lib/a.c" ⟨.relative, ["lib", "a.c"]⟩ := by
  have hfile := absolute_project_file smallIndex
  refine ⟨⟨⟨0, 0⟩, ?_⟩, ?_, by decide⟩
  · rw [smallProject, hfile, text_project_file]
    exact status_project smallIndex
  · rw [smallProject, hroot, hfile, absolute_project_root]
    decide

/-- Settings with an index that is not there. -/
def lostSettings : Settings := ⟨"/model", some "/lost", "/", 2, none, "glucose4", defaultSuffixes⟩

def lostBuild : BuildSystem := { smallBuild with indexPath := "/lost" }

theorem namesEntry_lost : NamesEntry "/lost" "lost" :=
  ⟨by constructor <;> decide, by decide, by decide +kernel, by decide +kernel, by decide +kernel⟩

theorem find?_lost : smallProject.files.find? (Location.root.child "lost") = none := by
  refine (FileSystem.find?_put_of_ne _ (by decide) (by decide) _).trans ?_
  refine (FileSystem.find?_put_of_ne _ (by decide) (by decide) _).trans ?_
  refine (FileSystem.find?_put_of_ne _ (by decide) (by decide) _).trans ?_
  refine (FileSystem.find?_put_of_ne _ (by decide) (by decide) _).trans ?_
  exact FileSystem.find?_empty (by decide)

theorem not_escapes_lostBuild : ¬ lostBuild.Escapes ⟨.relative, ["lib", "a.c"]⟩ := by
  rintro (⟨hmapped, hsuffix⟩ | hnull)
  · rw [(get?_defaultSuffixes hmapped).2] at hsuffix
    exact absurd hsuffix (by decide)
  · have hnone : FileSystem.hasNull (Path.ofString lostBuild.indexPath).text = false := by
      decide +kernel
    rw [hnone] at hnull
    cases hnull

/-- That the index is not there is reported. -/
theorem a_lost_index_is_reported :
    let source := oneLocation (.always .plain)
    (lostSettings.locator source .multi).conditions = .build source lostBuild ∧
      ∃ e, ((lostBuild.scanner "/lib/a.c").locate smallProject 0
        ⟨.unscanned, History.empty⟩).answer = .error e ∧ e.isReported = true := by
  intro source
  have hbuild : (lostSettings.locator source .multi).conditions = .build source lostBuild := rfl
  have hfile : lostBuild.HasFile smallProject "/lib/a.c" ⟨.relative, ["lib", "a.c"]⟩ :=
    hasFile_smallProject rfl
  have hindex : (lostBuild.scanner "/lib/a.c").index.text = "/lost" := by decide +kernel
  have hread : smallProject.read (lostBuild.scanner "/lib/a.c").index.text = .error .missing := by
    rw [hindex]
    exact namesEntry_lost.read_of_missing find?_lost
  obtain ⟨e, hlook⟩ := Scanner.lookUp_of_unreadable hread
  have hanswer : ((lostBuild.scanner "/lib/a.c").locate smallProject 0
      ⟨.unscanned, History.empty⟩).answer = .error e := by
    unfold Scanner.locate
    simp only [hlook]
  obtain ⟨hreported, _⟩ :=
    location_errors_are_reported_unless_they_escape hbuild hfile 0 History.empty
  exact ⟨hbuild, e, hanswer, hreported.mpr not_escapes_lostBuild e hanswer⟩

/-- The suffix of a C file mapped to a text without a dot. -/
def dotlessSuffixes : Table String String := Table.ofList [(".c", "o")]

def dotlessBuild : BuildSystem := { smallBuild with suffixes := dotlessSuffixes }

theorem escapes_dotlessBuild : dotlessBuild.Escapes ⟨.relative, ["lib", "a.c"]⟩ := by
  have hmapped : dotlessBuild.suffixes.get? (Path.mk .relative ["lib", "a.c"]).suffix =
      some "o" := by decide +kernel
  exact .suffix hmapped (by decide)

/-- Valid settings may map a suffix to a text without a dot, which is not
reported as any of the errors of a location. -/
theorem a_suffix_without_a_dot_escapes :
    ¬ ∀ (fields : List (Value × Value)) (s : Settings) (source : Source)
      (reader : ConditionReader) (b : BuildSystem) (w : Workspace) (file : String)
      (relative : Path), Settings.ofFields w.depths.values fields = .ok s →
      (s.locator source reader).conditions = .build source b → b.HasFile w file relative →
      ∀ e, ((b.scanner file).locate w 0 ⟨.unscanned, History.empty⟩).answer = .error e →
        e.isReported = true := by
  intro h
  have hvalid :=
    Settings.ofFields_buildFields smallProject.depths.values "/index" "/" dotlessSuffixes
  have hfile : dotlessBuild.HasFile smallProject "/lib/a.c" ⟨.relative, ["lib", "a.c"]⟩ :=
    hasFile_smallProject rfl
  have hreported := h _ _ (oneLocation (.always .plain)) .multi dotlessBuild _ _ _ hvalid rfl hfile
  exact (hfile.reports_iff 0 History.empty).mp hreported escapes_dotlessBuild

end Variability
