-- Which models are kept: those of the eight keys loaded last. So a load gives a
-- model once more unless eight other keys have been loaded in between, and else
-- a model that is new.
import Mathlib.Data.Finset.Card
import Variability.Proofs.Loading

namespace Variability.ModelCache

/-! ## Loads, last first -/

/-- Among some loads, last first, the last one under the key gave the model, and
fewer than `capacity` others have been loaded since. -/
def Recalls (loads : List (ModelKey × LoadedModel)) (key : ModelKey) (m : LoadedModel) : Prop :=
  ∃ since older, loads = since ++ (key, m) :: older ∧ (∀ load ∈ since, load.1 ≠ key) ∧
    (since.map Prod.fst).toFinset.card < capacity

/-- The last load under each key. -/
def lastUses : List (ModelKey × LoadedModel) → List (ModelKey × LoadedModel)
  | [] => []
  | load :: older => load :: (lastUses older).filter (·.1 ≠ load.1)

section LastUses

variable {loads since older : List (ModelKey × LoadedModel)} {key : ModelKey} {m : LoadedModel}

theorem lastUses_append (since older : List (ModelKey × LoadedModel)) :
    lastUses (since ++ older) =
      lastUses since ++ (lastUses older).filter (·.1 ∉ since.map Prod.fst) := by
  induction since with
  | nil => simp [lastUses]
  | cons load since ih =>
    rw [List.cons_append, lastUses, lastUses, ih, List.filter_append, List.filter_filter,
      List.cons_append]
    congr 3
    funext other
    rw [Bool.eq_iff_iff]
    simp

theorem keys_lastUses (loads : List (ModelKey × LoadedModel)) :
    (lastUses loads).map Prod.fst = firsts (loads.map Prod.fst) := by
  induction loads with
  | nil => rfl
  | cons load older ih =>
    rw [lastUses, List.map_cons, List.map_cons, firsts, ← ih, List.filter_map]
    rfl

theorem nodup_keys_lastUses : ((lastUses loads).map Prod.fst).Nodup :=
  keys_lastUses loads ▸ nodup_firsts _

theorem mem_keys_of_mem_lastUses {load : ModelKey × LoadedModel} (h : load ∈ lastUses loads) :
    load.1 ∈ loads.map Prod.fst := by
  rw [← mem_firsts, ← keys_lastUses]
  exact List.mem_map_of_mem h

theorem length_lastUses : (lastUses loads).length = (loads.map Prod.fst).toFinset.card := by
  rw [← List.length_map Prod.fst, ← List.toFinset_card_of_nodup nodup_keys_lastUses,
    keys_lastUses]
  congr 1
  ext key
  rw [List.mem_toFinset, List.mem_toFinset, mem_firsts]

/-- One more use of a key leaves room for one less of the others, and these are
known from as many uses as there was room for. -/
theorem take_filter_take {uses : List (ModelKey × LoadedModel)}
    (hnodup : (uses.map Prod.fst).Nodup) (key : ModelKey) (n : Nat) :
    ((uses.take (n + 1)).filter (·.1 ≠ key)).take n = (uses.filter (·.1 ≠ key)).take n := by
  induction uses generalizing n with
  | nil => rfl
  | cons use uses ih =>
    obtain ⟨hfirst, hnodup⟩ := List.nodup_cons.mp hnodup
    rw [List.take_succ_cons]
    by_cases hkey : use.1 = key
    · -- No other use is dropped.
      have hall : ∀ other ∈ uses, decide (other.1 ≠ key) = true := by
        rintro other hother
        rw [decide_eq_true_eq]
        rintro rfl
        exact hfirst (hkey ▸ List.mem_map_of_mem hother)
      rw [List.filter_cons_of_neg (by simpa using hkey),
        List.filter_cons_of_neg (by simpa using hkey), List.filter_eq_self.mpr hall,
        List.filter_eq_self.mpr fun other hother => hall other (List.mem_of_mem_take hother),
        List.take_take, Nat.min_self]
    · rw [List.filter_cons_of_pos (by simpa using hkey),
        List.filter_cons_of_pos (by simpa using hkey)]
      cases n with
      | zero => rfl
      | succ n => rw [List.take_succ_cons, List.take_succ_cons, ih hnodup]

/-- What is kept after one more load follows from what was kept before. -/
theorem take_lastUses_cons (loads : List (ModelKey × LoadedModel)) (key : ModelKey)
    (m : LoadedModel) : (lastUses ((key, m) :: loads)).take capacity =
      (key, m) :: ((((lastUses loads).take capacity).filter (·.1 ≠ key)).take (capacity - 1)) := by
  rw [show capacity = (capacity - 1) + 1 from rfl, Nat.add_sub_cancel,
    take_filter_take nodup_keys_lastUses, lastUses, List.take_succ_cons]

/-- A key that has been loaded has a last load. -/
theorem exists_last (h : key ∈ loads.map Prod.fst) : ∃ since m older,
    loads = since ++ (key, m) :: older ∧ ∀ load ∈ since, load.1 ≠ key := by
  obtain ⟨load, hload, rfl⟩ := List.mem_map.mp h
  obtain ⟨last, hlast⟩ := Option.isSome_iff_exists.mp
    (List.find?_isSome (p := fun other => decide (other.1 = load.1)).mpr ⟨load, hload, by simp⟩)
  obtain ⟨hkey, since, older, rfl, hsince⟩ := List.find?_eq_some_iff_append.mp hlast
  obtain ⟨key, m⟩ := last
  exact ⟨since, m, older, by rw [← of_decide_eq_true hkey], by simpa using hsince⟩

/-- The last load under a key is among those kept if not too many keys came
since. -/
theorem find?_take_lastUses (hsince : ∀ load ∈ since, load.1 ≠ key) :
    ((lastUses (since ++ (key, m) :: older)).take capacity).find? (·.1 = key) =
      if (since.map Prod.fst).toFinset.card < capacity then some (key, m) else none := by
  have hnew : key ∉ since.map Prod.fst := by
    intro hmem
    obtain ⟨load, hload, hkey⟩ := List.mem_map.mp hmem
    exact hsince load hload hkey
  have hnone : ((lastUses since).take capacity).find? (·.1 = key) = none := by
    rw [List.find?_eq_none]
    intro load hload
    rw [decide_eq_true_eq]
    rintro rfl
    exact hnew (mem_keys_of_mem_lastUses (List.mem_of_mem_take hload))
  rw [lastUses_append, lastUses, List.filter_cons_of_pos (by simpa using hnew), List.take_append,
    List.find?_append, hnone, Option.none_or, length_lastUses]
  split
  · rename_i hfew
    obtain ⟨n, hn⟩ := Nat.exists_eq_add_of_lt hfew
    rw [show capacity - (since.map Prod.fst).toFinset.card = n + 1 by omega, List.take_succ_cons,
      List.find?_cons_of_pos (by simp)]
  · rw [Nat.sub_eq_zero_of_le (by omega)]
    rfl

end LastUses

/-! ## What is kept -/

/-- The cache keeps what the last loads gave, and has numbered all loads. -/
structure Remembers (cache : ModelCache) (loads : List (ModelKey × LoadedModel)) : Prop where
  kept : cache.kept = (lastUses loads).take capacity
  numbered : ∀ load ∈ loads, load.2.serial < cache.nextSerial

section Remembering

variable {cache : ModelCache} {loads : List (ModelKey × LoadedModel)} {key : ModelKey}
  {m : LoadedModel}

theorem Remembers.find?_eq_some_iff (h : cache.Remembers loads) :
    cache.find? key = some m ↔ Recalls loads key m := by
  unfold find?
  rw [h.kept, Option.map_eq_some_iff]
  constructor
  · rintro ⟨load, hload, rfl⟩
    have hmem := mem_keys_of_mem_lastUses (List.mem_of_mem_take (List.mem_of_find?_eq_some hload))
    rw [show load.1 = key by simpa using List.find?_some hload] at hmem
    obtain ⟨since, m, older, rfl, hsince⟩ := exists_last hmem
    rw [find?_take_lastUses hsince] at hload
    split at hload
    · rename_i hfew
      cases hload
      exact ⟨since, older, rfl, hsince, hfew⟩
    · cases hload
  · rintro ⟨since, older, rfl, hsince, hfew⟩
    exact ⟨(key, m), by rw [find?_take_lastUses hsince, if_pos hfew], rfl⟩

theorem Remembers.find?_eq_none (h : cache.Remembers loads)
    (hforgotten : ∀ recalled, ¬ Recalls loads key recalled) : cache.find? key = none := by
  rw [Option.eq_none_iff_forall_ne_some]
  intro recalled hfound
  exact hforgotten recalled (h.find?_eq_some_iff.mp hfound)

theorem Remembers.refresh (h : cache.Remembers loads) (hfound : cache.find? key = some m) :
    (cache.refresh key m).Remembers ((key, m) :: loads) := by
  have hmem := mem_of_find? hfound
  have hroom : (cache.kept.filter (·.1 ≠ key)).length ≤ capacity - 1 := by
    have hall : cache.kept.length ≤ capacity := h.kept ▸ List.length_take_le ..
    have hless : (cache.kept.filter (·.1 ≠ key)).length < cache.kept.length :=
      List.length_filter_lt_length_iff_exists.mpr ⟨_, hmem, by simp⟩
    omega
  constructor
  · rw [take_lastUses_cons, ← h.kept, List.take_of_length_le hroom]
    rfl
  · obtain ⟨since, older, rfl, _⟩ := h.find?_eq_some_iff.mp hfound
    rintro load (_ | ⟨_, hload⟩)
    · exact h.numbered _ (by simp)
    · exact h.numbered load hload

theorem Remembers.add (h : cache.Remembers loads) (hfound : cache.find? key = none)
    (model : FeatureModel) :
    (cache.add key model).Remembers ((key, ⟨cache.nextSerial, model⟩) :: loads) := by
  have hother : ∀ load ∈ cache.kept, decide (load.1 ≠ key) = true := by
    unfold find? at hfound
    simpa using hfound
  constructor
  · rw [take_lastUses_cons, ← h.kept, List.filter_eq_self.mpr hother]
    rfl
  · rintro load (_ | ⟨_, hload⟩)
    · exact Nat.lt_succ_self _
    · exact Nat.lt_succ_of_lt (h.numbered load hload)

/-! ## One load -/

/-- A load with the key of its file, if it gives a model. -/
def loadOf (cache : ModelCache) (w : Workspace) (path : String) :
    List (ModelKey × LoadedModel) :=
  match w.modelFile path, (cache.load w path).answer with
  | .ok (file, status), .ok m => [(⟨file.text, status⟩, m)]
  | _, _ => []

variable {w : Workspace} {path : String} {file : Path} {status : Status}

theorem load_of_find? (hfile : w.modelFile path = .ok (file, status))
    (hfound : cache.find? ⟨file.text, status⟩ = some m) :
    cache.load w path = ⟨.ok m, cache.refresh ⟨file.text, status⟩ m, []⟩ := by
  rw [load_of_modelFile hfile]
  unfold loadResolved
  simp only [hfound]

/-- A model that is not kept is read. -/
theorem load_of_find?_none (hfile : w.modelFile path = .ok (file, status))
    (hfound : cache.find? ⟨file.text, status⟩ = none) :
    cache.load w path =
      ⟨(FeatureModel.ofFile w file).map fun model => ⟨cache.nextSerial, model⟩,
        match FeatureModel.ofFile w file with
        | .error _ => cache
        | .ok model => cache.add ⟨file.text, status⟩ model,
        [.loadingModel file.text]⟩ := by
  rw [load_of_modelFile hfile]
  unfold loadResolved FeatureModel.ofFile
  simp only [hfound]
  cases readDimacsFile w file <;> rfl

theorem load_of_ofFile (hfile : w.modelFile path = .ok (file, status))
    (hfound : cache.find? ⟨file.text, status⟩ = none) {model : FeatureModel}
    (hread : FeatureModel.ofFile w file = .ok model) :
    cache.load w path = ⟨.ok ⟨cache.nextSerial, model⟩, cache.add ⟨file.text, status⟩ model,
      [.loadingModel file.text]⟩ := by
  rw [load_of_find?_none hfile hfound, hread]
  rfl

/-- Only a file that can be read gives a new model, and the model has a number
of its own. -/
theorem new_of_load (hfile : w.modelFile path = .ok (file, status))
    (hfound : cache.find? ⟨file.text, status⟩ = none)
    (hload : (cache.load w path).answer = .ok m) :
    FeatureModel.ofFile w file = .ok m.model ∧ m.serial = cache.nextSerial := by
  rw [load_of_find?_none hfile hfound] at hload
  cases hread : FeatureModel.ofFile w file with
  | error fault =>
    rw [hread] at hload
    cases hload
  | ok model =>
    rw [hread] at hload
    cases hload
    exact ⟨rfl, rfl⟩

theorem state_load_of_error {e : ModelError} (h : (cache.load w path).answer = .error e) :
    (cache.load w path).state = cache := by
  cases hfile : w.modelFile path with
  | error fault => rw [load_of_modelFile_error hfile]
  | ok found =>
    obtain ⟨file, status⟩ := found
    cases hfound : cache.find? ⟨file.text, status⟩ with
    | some m =>
      rw [load_of_find? hfile hfound] at h
      cases h
    | none =>
      rw [load_of_find?_none hfile hfound] at h ⊢
      cases hread : FeatureModel.ofFile w file with
      | error fault => rfl
      | ok model =>
        rw [hread] at h
        cases h

theorem loadOf_of_load (hfile : w.modelFile path = .ok (file, status))
    (hload : (cache.load w path).answer = .ok m) :
    cache.loadOf w path = [(⟨file.text, status⟩, m)] := by
  unfold loadOf
  rw [hfile, hload]

theorem models_loadOf (cache : ModelCache) (w : Workspace) (path : String) :
    (cache.loadOf w path).map Prod.snd = (cache.load w path).answer.toOption.toList := by
  unfold loadOf
  cases hfile : w.modelFile path with
  | error fault =>
    rw [load_of_modelFile_error hfile]
    rfl
  | ok found => cases (cache.load w path).answer <;> rfl

/-- One more load is remembered before the others, if it gives a model. -/
theorem Remembers.load (h : cache.Remembers loads) (w : Workspace) (path : String) :
    (cache.load w path).state.Remembers (cache.loadOf w path ++ loads) := by
  unfold loadOf
  cases hfile : w.modelFile path with
  | error fault =>
    rw [load_of_modelFile_error hfile]
    exact h
  | ok found =>
    obtain ⟨file, status⟩ := found
    cases hfound : cache.find? ⟨file.text, status⟩ with
    | some m =>
      rw [load_of_find? hfile hfound]
      exact h.refresh hfound
    | none =>
      rw [load_of_find?_none hfile hfound]
      cases hread : FeatureModel.ofFile w file with
      | error fault => exact h
      | ok model => exact h.add hfound model

end Remembering

/-! ## Sessions -/

/-- The loads of a session that give a model, last first, each with the key of
its file then. -/
def loadsOf (x : Session ModelCache) : List (Turn String) → List (ModelKey × LoadedModel)
  | [] => []
  | .change apply :: rest => loadsOf (x.turn loading (.change apply)) rest
  | .ask path :: rest => loadsOf (x.turn loading (.ask path)) rest ++ x.state.loadOf x.files path

/-- Induction on the turns, with all loads so far remembered. -/
theorem Remembers.after {x : Session ModelCache} {loads : List (ModelKey × LoadedModel)}
    (h : x.state.Remembers loads) (turns : List (Turn String)) :
    (x.after loading turns).state.Remembers (loadsOf x turns ++ loads) := by
  induction turns generalizing x loads with
  | nil => exact h
  | cons t turns ih =>
    cases t with
    | change apply => exact ih h
    | ask path =>
      unfold loadsOf
      rw [List.append_assoc]
      exact ih (h.load x.files path)

theorem remembers_after (w : Workspace) (turns : List (Turn String)) :
    (Session.after loading ⟨w, empty⟩ turns).state.Remembers (loadsOf ⟨w, empty⟩ turns) := by
  have hopening : (Session.mk w empty).state.Remembers [] := ⟨rfl, fun _ h => by cases h⟩
  simpa using hopening.after turns

/-- No load is left out, and none made up. -/
theorem models_loadsOf (x : Session ModelCache) (turns : List (Turn String)) :
    (loadsOf x turns).map Prod.snd =
      ((x.answers loading turns).filterMap Except.toOption).reverse := by
  induction turns generalizing x with
  | nil => rfl
  | cons t turns ih =>
    cases t with
    | change apply => exact ih _
    | ask path =>
      have hasked : (loading path x.files x.state).answer =
          (x.state.load x.files path).answer := rfl
      unfold loadsOf Session.answers
      rw [List.map_append, ih, List.filterMap_cons, models_loadOf, hasked]
      cases (x.state.load x.files path).answer <;> simp [Except.toOption]

/-- Whatever has been loaded in whatever order while the files changed: a load
that fails leaves the cache as it is. One that gives a model gives the very
model of the last load under the key of its file, if there was one and fewer
than eight other keys have been loaded since; else it reads the file, and the
model is none that a load gave before. -/
theorem a_load_recalls_its_model_until_eight_others_came (w : Workspace)
    (turns : List (Turn String)) (path : String) :
    let x := Session.after loading ⟨w, empty⟩ turns
    let loads := loadsOf ⟨w, empty⟩ turns
    let load := x.state.load x.files path
    loads.map Prod.snd =
      ((Session.answers loading ⟨w, empty⟩ turns).filterMap Except.toOption).reverse ∧
    (∀ e, load.answer = .error e → load.state = x.state) ∧
    (∀ m, load.answer = .ok m → ∃ file status,
      x.files.modelFile path = .ok (file, status) ∧
      (∀ recalled, Recalls loads ⟨file.text, status⟩ recalled → m = recalled) ∧
      ((∀ recalled, ¬ Recalls loads ⟨file.text, status⟩ recalled) →
        FeatureModel.ofFile x.files file = .ok m.model ∧
        ∀ earlier ∈ loads, earlier.2.serial ≠ m.serial)) ∧
    ∀ file status recalled, x.files.modelFile path = .ok (file, status) →
      Recalls loads ⟨file.text, status⟩ recalled → load.answer = .ok recalled := by
  intro x loads load
  have hremembers : x.state.Remembers loads := remembers_after w turns
  have hrecalled : ∀ file status recalled, x.files.modelFile path = .ok (file, status) →
      Recalls loads ⟨file.text, status⟩ recalled → load.answer = .ok recalled := by
    intro file status recalled hfile hrecalls
    exact congrArg Outcome.answer
      (load_of_find? hfile (hremembers.find?_eq_some_iff.mpr hrecalls))
  refine ⟨models_loadsOf _ turns, fun e he => state_load_of_error he, ?_, hrecalled⟩
  intro m hm
  cases hfile : x.files.modelFile path with
  | error fault =>
    rw [show load = _ from load_of_modelFile_error hfile] at hm
    cases hm
  | ok found =>
    obtain ⟨file, status⟩ := found
    refine ⟨file, status, rfl, ?_, ?_⟩
    · intro recalled hrecalls
      exact Except.ok.inj (hm.symm.trans (hrecalled file status recalled hfile hrecalls))
    · intro hforgotten
      obtain ⟨hread, hserial⟩ :=
        new_of_load hfile (hremembers.find?_eq_none hforgotten) hm
      exact ⟨hread, fun earlier hearlier =>
        hserial ▸ (hremembers.numbered earlier hearlier).ne⟩

/-! ## A model that is written back -/

/-- A model is loaded, rewritten, loaded again and written back as it was. -/
def writtenBack : List (Turn String) :=
  [.change (writeModel "1 2 0" 0), .ask "/model", .change (writeModel "2 1 0" 1), .ask "/model",
    .change (writeModel "1 2 0" 0)]

/-- A model that is written back, with its time, is the model that was loaded at
first. -/
theorem a_model_written_back_is_recalled :
    let x := Session.after loading ⟨noModel, empty⟩ writtenBack
    ∃ first second, Session.answers loading ⟨noModel, empty⟩ writtenBack =
        [.ok first, .ok second] ∧ first.serial ≠ second.serial ∧
      (x.state.load x.files "/model").answer = .ok first := by
  intro x
  have hokFirst : (Cnf.readDimacs "1 2 0".toList).isOk = true := by decide +kernel
  have hokSecond : (Cnf.readDimacs "2 1 0".toList).isOk = true := by decide +kernel
  obtain ⟨first, hfirst⟩ := exists_of_isOk hokFirst
  obtain ⟨second, hsecond⟩ := exists_of_isOk hokSecond
  let file : Path := ⟨.root, ["model"]⟩
  have hreadFirst : FeatureModel.ofFile firstModel file = .ok ⟨first, "/model"⟩ :=
    ofFile_of_text read_firstModel (by decide +kernel) hfirst
  have hreadSecond : FeatureModel.ofFile secondModel file = .ok ⟨second, "/model"⟩ :=
    ofFile_of_text read_secondModel (by decide +kernel) hsecond
  let cache := empty.add ⟨file.text, ⟨0, 5⟩⟩ ⟨first, "/model"⟩
  have hloadFirst : empty.load firstModel "/model" =
      ⟨.ok ⟨0, ⟨first, "/model"⟩⟩, cache, [.loadingModel file.text]⟩ :=
    load_of_ofFile modelFile_firstModel rfl hreadFirst
  have hloadSecond : (cache.load secondModel "/model").answer = .ok ⟨1, ⟨second, "/model"⟩⟩ :=
    congrArg Outcome.answer (load_of_ofFile modelFile_secondModel
      (by simp [cache, file, empty, add, find?, capacity]) hreadSecond)
  have hback : x.files.modelFile "/model" = .ok (file, ⟨0, 5⟩) := by
    rw [show x.files = writeModel "1 2 0" 0 secondModel from rfl,
      (modelFile_of_file (find?_writeModel _ _ _)).1]
    decide +kernel
  have hloads : loadsOf ⟨noModel, empty⟩ writtenBack =
      [(⟨file.text, ⟨1, 5⟩⟩, ⟨1, ⟨second, "/model"⟩⟩),
        (⟨file.text, ⟨0, 5⟩⟩, ⟨0, ⟨first, "/model"⟩⟩)] := by
    show ([] ++ (empty.load firstModel "/model").state.loadOf secondModel "/model") ++
      empty.loadOf firstModel "/model" = _
    rw [loadOf_of_load modelFile_firstModel (congrArg Outcome.answer hloadFirst), hloadFirst,
      loadOf_of_load modelFile_secondModel hloadSecond]
    rfl
  have hrecalls : Recalls (loadsOf ⟨noModel, empty⟩ writtenBack) ⟨file.text, ⟨0, 5⟩⟩
      ⟨0, ⟨first, "/model"⟩⟩ :=
    ⟨[_], [], hloads, by simp, by simp [capacity]⟩
  obtain ⟨_, _, _, hrecalled⟩ :=
    a_load_recalls_its_model_until_eight_others_came noModel writtenBack "/model"
  refine ⟨⟨0, ⟨first, "/model"⟩⟩, ⟨1, ⟨second, "/model"⟩⟩, ?_, Nat.zero_ne_one,
    hrecalled file _ _ hback hrecalls⟩
  show [(empty.load firstModel "/model").answer,
    ((empty.load firstModel "/model").state.load secondModel "/model").answer] = _
  rw [hloadFirst, hloadSecond]

end Variability.ModelCache
