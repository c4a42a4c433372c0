-- Settings in layers: each field has the value of the highest layer that
-- supplies it, and what lies below that is not looked at.
import Variability.Proofs.Entries
import Variability.Proofs.Files
import Variability.Settings

namespace Variability.Settings

/-! ## The fields of settings -/

/-- The fields that settings are made of. -/
def settingNames : List String :=
  ["dimacs_path", "kmax_path", "project_root", "limit", "time_limit", "solver_name",
    "object_suffixes"]

/-- Nothing but the values of these fields counts. -/
theorem ofFields_congr (room : Nat) {fields others : List (Value × Value)}
    (h : ∀ name ∈ settingNames, Value.field? fields name = Value.field? others name) :
    ofFields room fields = ofFields room others := by
  simp only [settingNames, List.forall_mem_cons] at h
  obtain ⟨hmodel, hindex, hroot, hlimit, hbudget, hsolver, hsuffixes, _⟩ := h
  unfold ofFields readBudget Value.required Value.optional
  simp only [hmodel, hindex, hroot, hlimit, hbudget, hsolver, hsuffixes]

/-! ## The value of a field -/

/-- The value that is given for a field over everything else. Null gives
none. -/
def overrideValue? (overrides : Table String Value) (name : String) : Option Value :=
  match overrides.get? name with
  | none | some .null => none
  | some v => some v

/-- The value of a field's variable, if the field has one and that is set and
not empty. -/
def environmentValue? (env : Environment) (name : String) : Option Value :=
  ((environmentFields.find? (·.2 = name)).bind fun p => setVariable? env p.1).map .ofBytes

/-- A field that the layers above the settings file leave to it. -/
def LeftToFile (overrides : Table String Value) (env : Environment) (name : String) : Prop :=
  overrideValue? overrides name = none ∧ environmentValue? env name = none

/-- The value of a field: what is given over everything else, or else what the
environment has, or else what the file has. -/
def layeredValue? (overrides : Table String Value) (env : Environment)
    (file : List (Value × Value)) (name : String) : Option Value :=
  (overrideValue? overrides name).or
    ((environmentValue? env name).or (Value.field? file name))

/-- Each field with its value, those without one left out. -/
def layeredFields (overrides : Table String Value) (env : Environment)
    (file : List (Value × Value)) : List (Value × Value) :=
  settingNames.filterMap fun name =>
    (layeredValue? overrides env file name).map fun v => (.string name, v)

/-! ## The layers one by one -/

section Layers

variable {file : List (Value × Value)} {env : Environment} {overrides : Table String Value}

theorem field?_strings (fields : List (String × Value)) (name : String) :
    Value.field? (fields.map fun p => (.string p.1, p.2)) name =
      Table.lastValue? fields name := by
  unfold Value.field? Table.lastValue?
  rw [← List.map_reverse, List.find?_map, Option.map_map]
  rfl

/-- What is no text is no name of a field. -/
theorem lastValue?_namedEntries (entries : List (Value × Value)) (name : String) :
    Table.lastValue? (namedEntries entries) name = Value.field? entries name := by
  unfold Table.lastValue? namedEntries Value.field?
  rw [← List.filterMap_reverse]
  induction entries.reverse with
  | nil => rfl
  | cons p entries ih =>
    obtain ⟨key, v⟩ := p
    cases key with
    | string s =>
      by_cases hs : s = name
      · simp [hs]
      · simpa [hs] using ih
    | _ => simpa using ih

/-- The fields of a list of names have the values that the names are given. -/
theorem lastValue?_named (value? : String → Option Value) (names : List String) (name : String) :
    Table.lastValue? (names.filterMap fun n => (value? n).map fun v => (n, v)) name =
      if name ∈ names then value? name else none := by
  unfold Table.lastValue?
  rw [← List.filterMap_reverse]
  have hmem : name ∈ names ↔ name ∈ names.reverse := List.mem_reverse.symm
  simp only [hmem]
  induction names.reverse with
  | nil => rfl
  | cons n names ih =>
    by_cases hn : n = name
    · subst hn
      cases hvalue : value? n with
      | none => simpa [hvalue] using ih
      | some v => simp [hvalue]
    · have hne : name ≠ n := Ne.symm hn
      cases hvalue : value? n with
      | none => simpa [hvalue, hne] using ih
      | some v => simpa [hvalue, hn, hne] using ih

theorem lastValue?_environmentLayer (env : Environment) (name : String) :
    Table.lastValue? (environmentLayer env) name = environmentValue? env name := by
  have hone : ∀ p ∈ environmentFields, environmentFields.find? (·.2 = p.2) = some p := by decide
  have hlayer : environmentLayer env = (environmentFields.map Prod.snd).filterMap fun n =>
      (environmentValue? env n).map fun v => (n, v) := by
    unfold environmentLayer
    rw [List.filterMap_map]
    refine List.filterMap_congr fun p hp => ?_
    simp only [Function.comp_apply, environmentValue?, hone p hp, Option.bind_some, Option.map_map]
    rfl
  rw [hlayer, lastValue?_named, ite_eq_left_iff]
  intro hname
  have hnone : environmentFields.find? (·.2 = name) = none := by
    rw [List.find?_eq_none]
    intro p hp hsame
    exact hname (List.mem_map.mpr ⟨p, hp, by simpa using hsame⟩)
  rw [environmentValue?, hnone]
  rfl

theorem overrideValue?_eq_some_iff {name : String} {v : Value} :
    overrideValue? overrides name = some v ↔ (name, v) ∈ overrides.entries ∧ v ≠ .null := by
  have hmem : (name, v) ∈ overrides.entries ↔ overrides.get? name = some v :=
    ⟨Table.get?_of_mem, Table.mem_of_get?⟩
  rw [hmem, overrideValue?]
  cases overrides.get? name with
  | none => simp
  | some found => cases found <;> aesop

theorem lastValue?_overrideLayer (overrides : Table String Value) (name : String) :
    Table.lastValue? (overrideLayer overrides.entries) name = overrideValue? overrides name := by
  have hnodup : ((overrideLayer overrides.entries).map Prod.fst).Nodup :=
    overrides.nodup.sublist (List.filter_sublist.map Prod.fst)
  refine Option.ext fun v => ?_
  rw [Table.lastValue?_eq_some_iff hnodup, overrideValue?_eq_some_iff, overrideLayer,
    List.mem_filter]
  refine and_congr_right fun _ => ?_
  cases v <;> simp

/-- Each field has the value of the highest layer that supplies it. -/
theorem field?_overlay (overrides : Table String Value) (env : Environment)
    (file : List (Value × Value)) (name : String) :
    Value.field? (overlay [namedEntries file, environmentLayer env,
      overrideLayer overrides.entries]) name = layeredValue? overrides env file name := by
  unfold overlay layeredValue?
  rw [field?_strings, Table.lastValue?_entries, Table.get?_ofList, List.flatten_cons,
    List.flatten_cons, List.flatten_singleton, Table.lastValue?_append, Table.lastValue?_append,
    lastValue?_namedEntries, lastValue?_environmentLayer, lastValue?_overrideLayer,
    Option.or_assoc]

theorem field?_layeredFields {name : String} (hname : name ∈ settingNames) :
    Value.field? (layeredFields overrides env file) name =
      layeredValue? overrides env file name := by
  have hfields : layeredFields overrides env file =
      (settingNames.filterMap fun n =>
        (layeredValue? overrides env file n).map fun v => (n, v)).map
          fun p => (.string p.1, p.2) := by
    unfold layeredFields
    rw [List.map_filterMap]
    refine List.filterMap_congr fun n _ => ?_
    rw [Option.map_map]
    rfl
  rw [hfields, field?_strings, lastValue?_named, if_pos hname]

theorem ofFields_overlay (room : Nat) (overrides : Table String Value) (env : Environment)
    (file : List (Value × Value)) :
    ofFields room (overlay [namedEntries file, environmentLayer env,
      overrideLayer overrides.entries]) = ofFields room (layeredFields overrides env file) := by
  apply ofFields_congr
  intro name hname
  rw [field?_overlay, field?_layeredFields hname]

/-- Where the file has the same values for the fields that are left to it, all
fields have. -/
theorem layeredValue?_congr {other : List (Value × Value)} {name : String}
    (h : LeftToFile overrides env name → Value.field? file name = Value.field? other name) :
    layeredValue? overrides env file name = layeredValue? overrides env other name := by
  unfold layeredValue?
  cases hover : overrideValue? overrides name with
  | some v => rfl
  | none =>
    cases henv : environmentValue? env name with
    | some v => rfl
    | none => exact h ⟨hover, henv⟩

end Layers

/-! ## Settings files -/

/-- The entries of the object in the settings file that the environment names;
there are none if it names no file. -/
inductive FileHolds (w : Workspace) (env : Environment) : List (Value × Value) → Prop
  | unnamed (h : setVariable? env filePathWord = none) : FileHolds w env []
  | object {path bytes : List UInt8} {text : List Char}
      {entries : List (Value × Value)} (hpath : setVariable? env filePathWord = some path)
      (hread : w.readAt (Text.escapedPoints path) = .ok bytes)
      (htext : Text.utf8Text? bytes = some text)
      (hparse : Json.parse w.depths.json text = .ok (.map entries)) : FileHolds w env entries

theorem FileHolds.lowestLayer_eq {w : Workspace} {env : Environment}
    {entries : List (Value × Value)} (h : FileHolds w env entries) :
    lowestLayer w env = .ok (namedEntries entries) := by
  unfold lowestLayer
  cases h with
  | unnamed h =>
    rw [h]
    rfl
  | object hpath hread htext hparse =>
    rw [hpath]
    unfold fileLayer
    simp only [hread, htext, hparse]

theorem FileHolds.ofLayers_eq {w : Workspace} {env : Environment}
    {entries : List (Value × Value)} (h : FileHolds w env entries)
    (overrides : Table String Value) :
    ofLayers w env overrides.entries =
      ofFields w.depths.values (layeredFields overrides env entries) := by
  unfold ofLayers
  simp only [h.lowestLayer_eq]
  exact ofFields_overlay _ overrides env entries

/-- The settings are those of the fields, each with the value of the highest
layer that supplies it. Two files that agree on the fields left to them give one
outcome, the same settings or the same error, whatever they hold for the other
fields. The errors show values, and so may go equally deep in both runs. -/
theorem upper_layers_mask_the_settings_file_field_by_field (env : Environment)
    (overrides : Table String Value) :
    (∀ w entries, FileHolds w env entries →
      ofLayers w env overrides.entries =
        ofFields w.depths.values (layeredFields overrides env entries)) ∧
    ∀ w w' entries entries', w.depths.values = w'.depths.values → FileHolds w env entries →
      FileHolds w' env entries' →
      (∀ name ∈ settingNames, LeftToFile overrides env name →
        Value.field? entries name = Value.field? entries' name) →
      ofLayers w env overrides.entries = ofLayers w' env overrides.entries := by
  refine ⟨fun w entries h => h.ofLayers_eq overrides, ?_⟩
  intro w w' entries entries' hdepth h h' hagree
  rw [h.ofLayers_eq, h'.ofLayers_eq, hdepth]
  apply ofFields_congr
  intro name hname
  rw [field?_layeredFields hname, field?_layeredFields hname]
  exact layeredValue?_congr (hagree name hname)

/-! ## Masked values -/

/-- A workspace with the text of a settings file. -/
def withSettings (text : String) : Workspace := .withFile "settings" text.toUTF8.toList

def settingsPath : List UInt8 := "/settings".toUTF8.toList

/-- Settings with a limit and a solver that no pipeline can have. -/
def faultySettings : String :=
  "\x7b\"dimacs_path\": \"m\", \"limit\": [], \"solver_name\": [[]]\x7d"

theorem parse_faultySettings : Json.parse 100 faultySettings.toList =
    .ok (.map [(.string "dimacs_path", .string "m"), (.string "limit", .list []),
      (.string "solver_name", .list [.list []])]) := by
  unfold faultySettings
  simp only [String.reduceToList]
  rfl

/-- Settings with another faulty limit, no solver and a field that means
nothing. -/
def otherSettings : String :=
  "\x7b\"limit\": \"many\", \"colour\": [], \"dimacs_path\": \"m\"\x7d"

theorem parse_otherSettings : Json.parse 100 otherSettings.toList =
    .ok (.map [(.string "limit", .string "many"), (.string "colour", .list []),
      (.string "dimacs_path", .string "m")]) := by
  unfold otherSettings
  simp only [String.reduceToList]
  rfl

theorem fileHolds_withSettings {env : Environment} {text : String}
    {entries : List (Value × Value)} (henv : setVariable? env filePathWord = some settingsPath)
    (htext : Text.utf8Text? text.toUTF8.toList = some text.toList)
    (hparse : Json.parse 100 text.toList = .ok (.map entries)) :
    FileHolds (withSettings text) env entries := by
  have hpoints : Text.exactText? (Text.escapedPoints settingsPath) = some "/settings" := by
    unfold settingsPath
    decide +kernel
  have hread := namesEntry_settings.readAt_of_file hpoints
    (Workspace.find?_withFile "settings" text.toUTF8.toList)
  exact .object henv hread htext hparse

/-- An environment with a limit, and with a root that is empty and counts for
nothing. -/
def limitedEnvironment : Environment :=
  [("CONFIG_PATH", settingsPath), ("LIMIT", "2".toUTF8.toList), ("ROOT", [])]

/-- A solver, and a null that counts for nothing. -/
def solverOverride : Table String Value :=
  Table.ofList [("solver_name", .string "g4"), ("kmax_path", .null)]

theorem ofBytes_two : Value.ofBytes "2".toUTF8.toList = .string "2" := by
  have hpoints : Text.exactText? (Text.escapedPoints "2".toUTF8.toList) = some "2" := by
    decide +kernel
  unfold Value.ofBytes Value.ofPoints
  rw [hpoints]

theorem environmentValue?_limit :
    environmentValue? limitedEnvironment "limit" = some (.string "2") := by
  have hset : setVariable? limitedEnvironment "LIMIT" = some "2".toUTF8.toList := by
    decide +kernel
  exact (congrArg (Option.map Value.ofBytes) hset).trans (congrArg some ofBytes_two)

theorem environmentValue?_of_ne {name : String} (h : name ≠ "limit") :
    environmentValue? limitedEnvironment name = none := by
  have hunset : ∀ p ∈ environmentFields, p.2 ≠ "limit" →
      setVariable? limitedEnvironment p.1 = none := by
    decide +kernel
  unfold environmentValue?
  cases hfind : environmentFields.find? (·.2 = name) with
  | none => rfl
  | some p =>
    have hname : p.2 = name := by simpa using List.find?_some hfind
    rw [Option.bind_some, hunset p (List.mem_of_find?_eq_some hfind) (hname ▸ h)]
    rfl

theorem overrideValue?_solverOverride (name : String) :
    overrideValue? solverOverride name =
      if name = "solver_name" then some (.string "g4") else none := by
  unfold overrideValue? solverOverride
  rw [Table.get?_ofList]
  by_cases hsolver : name = "solver_name"
  · subst hsolver
    rfl
  · rw [if_neg hsolver]
    by_cases hindex : name = "kmax_path"
    · subst hindex
      rfl
    · simp [Table.lastValue?, Ne.symm hsolver, Ne.symm hindex]

theorem layeredFields_faultySettings : layeredFields solverOverride limitedEnvironment
      [(.string "dimacs_path", .string "m"), (.string "limit", .list []),
        (.string "solver_name", .list [.list []])] =
    [(.string "dimacs_path", .string "m"), (.string "limit", .string "2"),
      (.string "solver_name", .string "g4")] := by
  unfold layeredFields settingNames layeredValue?
  simp [overrideValue?_solverOverride, environmentValue?_limit, environmentValue?_of_ne,
    Value.field?]

theorem ofFields_layered (room : Nat) : ofFields room
    [(.string "dimacs_path", .string "m"), (.string "limit", .string "2"),
      (.string "solver_name", .string "g4")] =
    .ok ⟨"m", none, ".", 2, none, "g4", BuildIndex.defaultSuffixes⟩ := by
  have hlimit : WholeNumber.ofText "2" = .ok 2 := by decide +kernel
  unfold ofFields readBudget Value.required Value.optional
  simp [Value.field?, Value.readString, Value.readCount, Value.readInt, hlimit, Checked.below,
    Except.mapError, Budget.ofValue, Budget.seconds?, unlistedFault?, Settings.budgetField]

/-- Where the environment has a limit and a solver is given over everything, the
two files give the same settings. -/
theorem faulty_values_are_masked :
    ofLayers (withSettings faultySettings) limitedEnvironment solverOverride.entries =
        .ok ⟨"m", none, ".", 2, none, "g4", BuildIndex.defaultSuffixes⟩ ∧
      ofLayers (withSettings faultySettings) limitedEnvironment solverOverride.entries =
        ofLayers (withSettings otherSettings) limitedEnvironment solverOverride.entries := by
  obtain ⟨hexact, hmasked⟩ :=
    upper_layers_mask_the_settings_file_field_by_field limitedEnvironment solverOverride
  have hpath : setVariable? limitedEnvironment filePathWord = some settingsPath := by decide +kernel
  have hfaulty := fileHolds_withSettings hpath (by decide +kernel) parse_faultySettings
  have hother := fileHolds_withSettings hpath (by decide +kernel) parse_otherSettings
  refine ⟨?_, hmasked _ _ _ _ rfl hfaulty hother ?_⟩
  · rw [hexact _ _ hfaulty, layeredFields_faultySettings]
    exact ofFields_layered _
  · simp only [settingNames, List.forall_mem_cons]
    refine ⟨fun _ => rfl, fun _ => rfl, fun _ => rfl, ?limit, fun _ => rfl, ?solver,
      fun _ => rfl, by simp⟩
    case limit =>
      intro hleft
      simp [LeftToFile, environmentValue?_limit] at hleft
    case solver =>
      intro hleft
      simp [LeftToFile, overrideValue?_solverOverride] at hleft

end Variability.Settings
