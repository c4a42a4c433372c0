-- The whole pipeline: from the files of a project to the selections of each
-- location, which are those that its condition, the build and the model allow.
import Variability.Locator
import Variability.Proofs.Enumeration
import Variability.Proofs.IndexEntries

namespace Variability

open Cnf Variability.Sat BuildIndex

/-! ## Loading again -/

theorem ModelCache.find?_cons (key : ModelKey) (m : LoadedModel)
    (kept : List (ModelKey × LoadedModel)) (n : Nat) :
    (ModelCache.mk ((key, m) :: kept) n).find? key = some m := by
  simp [ModelCache.find?]

/-- A model that has just been loaded is kept, and loaded again as it is. -/
theorem ModelCache.load_again {cache : ModelCache} {w : Workspace} {path : String}
    {m : LoadedModel} (h : (cache.load w path).answer = .ok m) :
    ((cache.load w path).state.load w path).answer = .ok m := by
  unfold load at h ⊢
  cases hresolve : w.resolve (Path.ofString path) with
  | error fault =>
    rw [hresolve] at h
    cases h
  | ok resolved =>
    cases hstatus : w.status? resolved.text with
    | error fault =>
      simp only [hresolve, hstatus] at h
      split at h
      · cases h
      · cases h
      · rename_i hok
        cases hok
    | ok status =>
      simp only [hresolve, hstatus] at h ⊢
      unfold loadResolved at h
      simp only at h
      have hkept : (cache.loadResolved w resolved status).state.find? ⟨resolved.text, status⟩ =
          some m := by
        unfold loadResolved
        simp only
        split at h
        · rename_i hfind
          cases h
          exact find?_cons _ _ _ _
        · split at h
          · cases h
          · cases h
            exact find?_cons _ _ _ _
      rw [loadResolved]
      simp only [hkept]

/-! ## All locations -/

/-- Every location gets the space that accounts for its condition. -/
theorem enumerateAll_accounts {choose : SolverChoice} {w : Workspace} {r : SpaceRequest}
    {limit : Nat} {m : LoadedModel} {solver : Solver} (hlimit : r.limit = .int limit)
    (hbudget : r.budget = .null) (hchoose : choose r.solverName none = .ok solver)
    (hs : solver.Sound) (hn : solver.NeverInterrupted) (cache : ModelCache)
    (hload : (cache.load w r.modelPath).answer = .ok m) (entries : List (Int × Condition)) :
    ∃ found, (SpaceLocator.enumerateAll choose w r cache entries).answer = .ok found ∧
      found.map Prod.fst = entries.map Prod.fst ∧
      ∀ p ∈ entries, ∃ space, (p.1, space) ∈ found ∧ space.timedOut = false ∧
        space.Accounts p.2 m.model limit := by
  induction entries generalizing cache with
  | nil => exact ⟨[], rfl, rfl, by simp⟩
  | cons p entries ih =>
    obtain ⟨key, c⟩ := p
    have hnone : Budget.ofValue w.depths.values r.budget = .ok none := by
      rw [hbudget]
      rfl
    have hfirst := enumerate_of_load choose c hlimit hnone hload
    obtain ⟨space, hspace, hacc⟩ := spaceUnder_accounts hchoose hs c m.model limit r.limit.text
    have htime := spaceUnder_not_timedOut hchoose hn hspace
    obtain ⟨found, hfound, hkeys, hall⟩ := ih (cache.load w r.modelPath).state
      (ModelCache.load_again hload)
    refine ⟨(key, space) :: found, ?_, ?_, ?_⟩
    · unfold SpaceLocator.enumerateAll
      simp only [hfirst, hspace, hfound, Except.map]
    · rw [List.map_cons, List.map_cons, hkeys]
    · intro q hq
      rcases List.mem_cons.mp hq with rfl | hq
      · exact ⟨space, List.mem_cons_self, htime, hacc⟩
      · obtain ⟨other, hmem, hother⟩ := hall q hq
        exact ⟨other, List.mem_cons_of_mem _ hmem, hother⟩

/-! ## The build and the model -/

/-- The selections of a location: its condition holds, so do the located
conditions of its dialect, and the model admits them. -/
def allowedSelections (reader : ConditionReader) (entries : List String) (m : FeatureModel)
    (pc : Condition) (names : List String) : Set Configuration :=
  selections names fun a =>
    pc.holds a = true ∧
      (∀ entry ∈ entries, ∀ level, reader.read entry = .ok level →
        ∀ located ∈ level, located.dialect = pc.dialect → located.holds a = true) ∧
      m.Admits a

/-- The solutions of a combined condition are what the condition, the located
conditions and the model allow. -/
theorem solutions_combineLevels {reader : ConditionReader} {entries : List String}
    {levels : List (List Condition)}
    (hlevels : ∀ level, level ∈ levels ↔ ∃ entry ∈ entries, reader.read entry = .ok level)
    (pc : Condition) (m : FeatureModel) :
    solutions (combineLevels levels pc) m =
      allowedSelections reader entries m pc (projectedNames (combineLevels levels pc) m) := by
  ext k
  unfold solutions allowedSelections selections
  simp only [Set.mem_ofPred_eq, (combineLevels_spec levels pc).2, hlevels, and_assoc]
  refine and_congr_right fun _ => and_congr_right fun _ => and_congr_left fun _ => ?_
  constructor
  · intro h entry hentry level hread
    exact h level ⟨entry, hentry, hread⟩
  · rintro h level ⟨entry, hentry, hread⟩
    exact h entry hentry level hread

theorem nodup_projectedNames (c : Condition) (m : FeatureModel) : (projectedNames c m).Nodup :=
  (properProjection_encode c m).names

theorem mem_projectedNames {c : Condition} {m : FeatureModel} {name : String} :
    name ∈ projectedNames c m ↔ name ∈ m.features.map Prod.fst ∨ name ∈ c.features := by
  rw [← Encoding.mem_names_variableTable]
  exact Encoding.mem_names_projectionOf

/-- What a space gives of all selections over some names, with no deadline:
different ones, as many as there are up to the limit, and all of them if it says
so. -/
structure Space.Gives (s : Space) (names : List String) (all : Set Configuration)
    (limit : Nat) : Prop where
  distinct : s.configurations.Pairwise fun j k =>
    ∃ name ∈ names, j.assignment name ≠ k.assignment name
  sound : ∀ k ∈ s.configurations, k ∈ all
  finite : all.Finite
  counted : s.configurations.length = min limit all.ncard
  complete : s.exhausted = true → ∀ k ∈ all, k ∈ s.configurations

theorem Space.Accounts.gives {s : Space} {c : Condition} {m : FeatureModel} {limit : Nat}
    (h : s.Accounts c m limit) (htime : s.timedOut = false) :
    s.Gives (projectedNames c m) (solutions c m) limit :=
  ⟨h.distinct, h.sound, finite_solutions c m, h.counted htime, h.complete⟩

/-! ## End to end -/

/-- A location keeps its key, and its space gives the selections over the
features of the model and of the combined condition that the condition, the
located conditions and the model allow. -/
theorem every_location_gets_the_allowed_selections {l : SpaceLocator} {source : Source}
    {b : BuildSystem} {choose : SolverChoice} {w : Workspace} {before : SpaceLocatorState}
    {file : String} {object : Path} {text : List Char} {upstream : Table Int Condition}
    {limit : Nat} {m : LoadedModel} {solver : Solver} (began ended : Float)
    (hconditions : l.conditions = .build source b)
    (hsees : (b.scanner file).Sees w object text)
    (hsource : source.annotate file = .ok upstream)
    (hlimit : l.request.limit = .int limit) (hbudget : l.request.budget = .null)
    (hload : (before.cache.load w l.request.modelPath).answer = .ok m)
    (hchoose : choose l.request.solverName none = .ok solver) (hs : solver.Sound)
    (hn : solver.NeverInterrupted) :
    ∃ spaces, (l.annotate choose w began ended before file).answer = .ok spaces ∧
      spaces.keys = upstream.keys ∧
      ∀ key pc, upstream.get? key = some pc → ∃ combined names space,
        ((b.scanner file).combine w 0 ⟨.unscanned, History.empty⟩ pc).answer = .ok combined ∧
        names.Nodup ∧
        (∀ name, name ∈ names ↔
          name ∈ m.model.features.map Prod.fst ∨ name ∈ combined.features) ∧
        spaces.get? key = some space ∧
        space.Gives names
          (allowedSelections b.reader (locatedTexts text object) m.model pc names) limit := by
  obtain ⟨levels, hlevels, hmem⟩ := hsees.locate 0 History.empty
  have hannotate : (l.conditions.annotate w file).answer =
      .ok (upstream.mapValues (combineLevels levels)) := by
    rw [hconditions]
    unfold ConditionLocator.annotate
    simp only [hlevels, hsource, Except.map]
  obtain ⟨found, hfound, hkeys, hall⟩ := enumerateAll_accounts hlimit hbudget hchoose hs hn
    before.cache hload (upstream.mapValues (combineLevels levels)).entries
  have hfoundKeys : found.map Prod.fst = upstream.keys := by
    rw [hkeys]
    unfold Table.mapValues Table.keys
    rw [List.map_map]
    rfl
  have hentries : (Table.ofList found).entries = found :=
    Table.entries_ofList (hfoundKeys ▸ upstream.nodup)
  refine ⟨Table.ofList found, ?_, ?_, ?_⟩
  · unfold SpaceLocator.annotate
    simp only [hannotate, hfound]
  · rw [Table.keys, hentries]
    exact hfoundKeys
  · intro key pc hpc
    have hentry : (key, combineLevels levels pc) ∈
        (upstream.mapValues (combineLevels levels)).entries :=
      List.mem_map.mpr ⟨(key, pc), Table.mem_of_get? hpc, rfl⟩
    obtain ⟨space, hspace, htime, hacc⟩ := hall _ hentry
    refine ⟨combineLevels levels pc, projectedNames (combineLevels levels pc) m.model, space,
      Scanner.answer_combine hlevels pc, nodup_projectedNames _ _, fun name => mem_projectedNames,
      ?_, ?_⟩
    · apply Table.get?_of_mem (p := (key, space))
      rw [hentries]
      exact hspace
    · have hgives := hacc.gives htime
      rw [solutions_combineLevels hmem] at hgives
      exact hgives

/-- A project with a formula in `/model`, an index in `/index` and one file. -/
def project (index : String) : Workspace :=
  ⟨(((FileSystem.empty.put ⟨["model"]⟩ (.file "1 2 0".toUTF8.toList 0)).put ⟨["index"]⟩
    (.file index.toUTF8.toList 0)).put ⟨["lib"]⟩ (.directory ⟨0, 0⟩)).put ⟨["a.c", "lib"]⟩
    (.file [] 0), .root, .all 100⟩

def smallBuild : BuildSystem := ⟨.multi, "/index", "/", defaultSuffixes⟩

section Project

variable (index : String)

theorem find?_project_model : (project index).files.find? (Location.root.child "model") =
    some (.file "1 2 0".toUTF8.toList 0) := by
  refine (FileSystem.find?_put_of_ne _ (by decide) (by decide) _).trans ?_
  refine (FileSystem.find?_put_of_ne _ (by decide) (by decide) _).trans ?_
  refine (FileSystem.find?_put_of_ne _ (by decide) (by decide) _).trans ?_
  exact FileSystem.find?_put_self _ (by decide) _

theorem find?_project_index : (project index).files.find? (Location.root.child "index") =
    some (.file index.toUTF8.toList 0) := by
  refine (FileSystem.find?_put_of_ne _ (by decide) (by decide) _).trans ?_
  refine (FileSystem.find?_put_of_ne _ (by decide) (by decide) _).trans ?_
  exact FileSystem.find?_put_self _ (by decide) _

theorem status_project : (project index).status? "/lib/a.c" = .ok ⟨0, 0⟩ := by
  have hparts : slashParts "/lib/a.c" = ["", "lib", "a.c"] := by decide +kernel
  have hlib : (project index).files.find? (Location.root.child "lib") =
      some (.directory ⟨0, 0⟩) :=
    (FileSystem.find?_put_of_ne _ (by decide) (by decide) _).trans
      (FileSystem.find?_put_self _ (by decide) _)
  have hfile : (project index).files.find? ((Location.root.child "lib").child "a.c") =
      some (.file [] 0) :=
    FileSystem.find?_put_self _ (by decide) _
  have hdirectory : FileSystem.IsName "lib" := by constructor <;> decide
  have hname : FileSystem.IsName "a.c" := by constructor <;> decide
  have hstart : FileSystem.startOf (project index).directory "/lib/a.c" = .root :=
    (show FileSystem.startOf .root "/lib/a.c" = .root by decide)
  exact Workspace.status?_of_open?
    (FileSystem.open?_of_walk (by decide) hparts hstart
      ((FileSystem.walk_directory hdirectory hlib).trans (FileSystem.walk_file hname hfile)))

theorem absolute_project_file :
    (project index).absolute (Path.ofString "/lib/a.c") = ⟨.root, ["lib", "a.c"]⟩ :=
  (show Workspace.bare.absolute (Path.ofString "/lib/a.c") = _ by decide +kernel)

theorem absolute_project_root :
    (project index).absolute (Path.ofString "/") = ⟨.root, []⟩ :=
  (show Workspace.bare.absolute (Path.ofString "/") = _ by decide +kernel)

theorem text_project_file : (Path.mk .root ["lib", "a.c"]).text = "/lib/a.c" := by
  decide +kernel

theorem read_project_index : (project index).read "/index" = .ok index.toUTF8.toList :=
  namesEntry_index.read_of_file (find?_project_index index)

variable {index}

/-- The one file of a project is compiled to `lib/a.o`. -/
theorem sees_project (hutf8 : Text.utf8Text? index.toUTF8.toList = some index.toList)
    (hread : ∀ entry ∈ locatedTexts index.toList ⟨.relative, ["lib", "a.o"]⟩,
      ∃ level, smallBuild.reader.read entry = .ok level) :
    (smallBuild.scanner "/lib/a.c").Sees (project index) ⟨.relative, ["lib", "a.o"]⟩
      index.toList := by
  have hunit : objectIdentity defaultSuffixes ⟨.relative, ["lib", "a.c"]⟩ =
      .ok ⟨.relative, ["lib", "a.o"]⟩ := by decide +kernel
  refine ⟨⟨⟨0, 0⟩, ?_⟩, ⟨⟨.relative, ["lib", "a.c"]⟩, ?_, hunit⟩,
    ⟨index.toUTF8.toList, ?_, hutf8⟩, hread⟩
  · unfold smallBuild BuildSystem.scanner
    simp only [absolute_project_file, text_project_file, status_project]
  · unfold smallBuild BuildSystem.scanner
    simp only [absolute_project_file, absolute_project_root]
    decide
  · unfold smallBuild BuildSystem.scanner
    simp only [namesEntry_index.ofString_eq, namesEntry_index.text_eq]
    exact read_project_index index

end Project

/-- An index with the conditions of a unit and of the directory above it. -/
def smallIndex : String := "unit_pc lib/a.o\nsubdir_pc lib A"

def smallProject : Workspace := project smallIndex

theorem read_smallIndex {entry : String} (h : entry ∈ ["", "A"]) :
    ∃ level, smallBuild.reader.read entry = .ok level := by
  apply exists_of_isOk
  rcases List.mem_pair.mp h with rfl | rfl
  · decide +kernel
  · decide +kernel

theorem locatedTexts_smallIndex :
    locatedTexts smallIndex.toList ⟨.relative, ["lib", "a.o"]⟩ = ["", "A"] := by
  decide +kernel

theorem sees_smallProject :
    (smallBuild.scanner "/lib/a.c").Sees smallProject ⟨.relative, ["lib", "a.o"]⟩
      smallIndex.toList :=
  sees_project (by decide +kernel) fun _ hentry =>
    read_smallIndex (locatedTexts_smallIndex ▸ hentry)

theorem load_smallProject :
    ∃ m, (ModelCache.empty.load smallProject "/model").answer = .ok m :=
  load_of_oneClause (find?_project_model smallIndex)

/-- A source that answers every file with one location. -/
def oneLocation (c : Condition) : Source := ⟨"source", fun _ => .ok (Table.ofList [(1, c)])⟩

/-- The one location of a file of the small project gets two of its
selections. -/
theorem a_small_project_gets_the_allowed_selections :
    let pc := Condition.ofTerms .plain [Term.ofList [⟨"C", false, by decide⟩]]
    let l : SpaceLocator :=
      ⟨.build (oneLocation pc) smallBuild, ⟨"/model", .int 2, .null, "glucose4"⟩⟩
    ∃ m spaces space names, (ModelCache.empty.load smallProject "/model").answer = .ok m ∧
      (l.annotate alwaysLearning smallProject 0 1 ⟨.empty, none⟩ "/lib/a.c").answer = .ok spaces ∧
      spaces.keys = [1] ∧ spaces.get? 1 = some space ∧
      space.Gives names
        (allowedSelections smallBuild.reader ["", "A"] m.model pc names) 2 := by
  intro pc l
  obtain ⟨m, hload⟩ := load_smallProject
  obtain ⟨spaces, hspaces, hkeys, hall⟩ := every_location_gets_the_allowed_selections 0 1
    (show l.conditions = .build (oneLocation pc) smallBuild from rfl) sees_smallProject
    (show (oneLocation pc).annotate "/lib/a.c" = .ok (Table.ofList [(1, pc)]) from rfl)
    (show l.request.limit = .int (2 : Nat) from rfl) rfl
    (show ((SpaceLocatorState.mk .empty none).cache.load smallProject l.request.modelPath).answer =
      .ok m from hload)
    (show alwaysLearning l.request.solverName none = .ok learning from rfl)
    learning_sound learning_neverInterrupted
  obtain ⟨_, names, space, _, _, _, hspace, hgives⟩ := hall 1 pc rfl
  rw [locatedTexts_smallIndex] at hgives
  exact ⟨m, spaces, space, names, hload, hspaces, hkeys, hspace, hgives⟩

end Variability
