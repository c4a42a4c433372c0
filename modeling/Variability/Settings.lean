-- Settings of a pipeline, in layers: a file, over it the environment, over
-- that what the caller overrides.
import Variability.Raw.Json
import Variability.Raw.Reading
import Variability.Budget
import Variability.BuildIndex.Key
import Variability.Text.Utf8
import Variability.Workspace

namespace Variability

structure Settings where
  modelPath : String
  indexPath : Option String
  projectRoot : String
  limit : Nat
  budget : Option Float
  solverName : String
  suffixes : Table String String

namespace Settings

/-! ## Errors -/

/-- Why there are no settings. Some values of a time budget are refused
without regard to the other fields. -/
inductive SettingsError
  | unreadable (path : String) (fault : FileFault)
  | notUtf8
  | notJson (path : String)
  | longInteger (fault : Text.IntegerFault)
  | tooDeep (container : Json.Container)
  | notAnObject (path kind : String)
  | invalid (details : List Detail)
  | budget (fault : BudgetFault)
deriving DecidableEq, Repr

def SettingsError.message : SettingsError → String
  | .unreadable path fault => fault.phrase?.getD ("Cannot load config file " ++ path ++ ": ")
  | .notUtf8 => ""
  | .notJson path => "Cannot load config file " ++ path ++ ": "
  | .longInteger fault => fault.message
  | .tooDeep container =>
    "maximum recursion depth exceeded while decoding a JSON " ++ container.name ++
      " from a unicode string"
  | .notAnObject path kind =>
    "Config file " ++ path ++ " must hold a JSON object, got " ++ kind
  | .invalid _ => "Invalid locator configuration: "
  | .budget fault => fault.message

/-- Whether an error is reported as bad settings. One that is not reaches the
caller as it arose. -/
def SettingsError.isReported : SettingsError → Bool
  | .unreadable _ fault => fault.isFound
  | .notJson _ | .notAnObject _ _ | .invalid _ => true
  | .notUtf8 | .longInteger _ | .tooDeep _ | .budget _ => false

/-! ## Fields -/

/-- The budget among the fields. -/
def readBudget (room : Nat) (fields : List (Value × Value)) :
    Except BudgetFault (Option Float) :=
  Budget.ofValue room ((Value.field? fields "time_limit").getD .null)

/-- A fault of a budget that no record lists. -/
def unlistedFault? : Except BudgetFault (Option Float) → Option BudgetFault
  | .ok _ => none
  | .error fault => if fault.isListed then none else some fault

/-- A budget as one field of the record. -/
def budgetField : Except BudgetFault (Option Float) → Checked (Option Float)
  | .ok budget => .ok budget
  | .error fault => .error [⟨[.field "time_limit"], .rule fault.message⟩]

/-- The settings that the fields describe, or all that is wrong with them.
Fields that no setting has are not looked at. Values may stand `room` deep in a
value that is shown. -/
def ofFields (room : Nat) (fields : List (Value × Value)) : Except SettingsError Settings :=
  let modelPath := Value.required fields "dimacs_path" Value.readString
  let indexPath := Value.optional fields "kmax_path" none Value.readOptionalString
  let projectRoot := Value.optional fields "project_root" "." Value.readString
  let limit := Value.optional fields "limit" 1 Value.readCount
  let solverName := Value.optional fields "solver_name" "glucose4" Value.readString
  let suffixes :=
    Value.optional fields "object_suffixes" BuildIndex.defaultSuffixes
      (Value.readTable Value.readString Value.readString)
  let budget := readBudget room fields
  match unlistedFault? budget with
  | some fault => .error (.budget fault)
  | none =>
    match modelPath, indexPath, projectRoot, limit, budgetField budget, solverName, suffixes with
    | .ok modelPath, .ok indexPath, .ok projectRoot, .ok limit, .ok budget, .ok solverName,
      .ok suffixes =>
      .ok ⟨modelPath, indexPath, projectRoot, limit, budget, solverName, suffixes⟩
    | modelPath, indexPath, projectRoot, limit, budget, solverName, suffixes =>
      .error (.invalid
        (modelPath.details ++ indexPath.details ++ projectRoot.details ++ limit.details ++
          budget.details ++ solverName.details ++ suffixes.details))

/-! ## Layers -/

/-- The fields that environment variables may set, and the words that their
variables end in. -/
def environmentFields : List (String × String) :=
  [("DIMACS", "dimacs_path"), ("KMAX", "kmax_path"), ("ROOT", "project_root"),
    ("LIMIT", "limit"), ("TIME_LIMIT", "time_limit"), ("SOLVER", "solver_name")]

/-- The word that the variable with the path of the settings file ends in. -/
def filePathWord : String := "CONFIG_PATH"

/-- Environment variables, by the words that they end in. Their values are
bytes, and may be no text. -/
abbrev Environment := List (String × List UInt8)

/-- A variable that is set and not empty. -/
def setVariable? (env : Environment) (word : String) : Option (List UInt8) :=
  (env.lookup word).filter (· ≠ [])

/-- The fields that the environment sets. -/
def environmentLayer (env : Environment) : List (String × Value) :=
  environmentFields.filterMap fun p => (setVariable? env p.1).map fun bytes => (p.2, .ofBytes bytes)

/-- The overrides that are not null. -/
def overrideLayer (overrides : List (String × Value)) : List (String × Value) :=
  overrides.filter fun p =>
    match p.2 with
    | .null => false
    | _ => true

/-- The named entries of a map. -/
def namedEntries (entries : List (Value × Value)) : List (String × Value) :=
  entries.filterMap fun p =>
    match p.1 with
    | .string s => some (s, p.2)
    | _ => none

/-- The fields of the settings file at a path of code points. -/
def fileLayer (w : Workspace) (path : List Nat) :
    Except SettingsError (List (String × Value)) :=
  let shown := Text.lossyText path
  match w.readAt path with
  | .error fault => .error (.unreadable shown fault)
  | .ok bytes =>
    match Text.utf8Text? bytes with
    | none => .error .notUtf8
    | some text =>
      match Json.parse w.depths.json text with
      | .error .malformed => .error (.notJson shown)
      | .error (.longInteger fault) => .error (.longInteger fault)
      | .error (.tooDeep container) => .error (.tooDeep container)
      | .ok (.map entries) => .ok (namedEntries entries)
      | .ok v => .error (.notAnObject shown v.kindName)

/-- The lowest layer: the settings file that the environment names, if it
names one. -/
def lowestLayer (w : Workspace) (env : Environment) :
    Except SettingsError (List (String × Value)) :=
  match setVariable? env filePathWord with
  | none => .ok []
  | some path => fileLayer w (Text.escapedPoints path)

/-- Lays the fields of each layer over those below it. -/
def overlay (layers : List (List (String × Value))) : List (Value × Value) :=
  (Table.ofList layers.flatten).entries.map fun p => (.string p.1, p.2)

/-- The settings that the three layers give together. -/
def ofLayers (w : Workspace) (env : Environment) (overrides : List (String × Value)) :
    Except SettingsError Settings :=
  match lowestLayer w env with
  | .error e => .error e
  | .ok file =>
    ofFields w.depths.values (overlay [file, environmentLayer env, overrideLayer overrides])

end Settings

end Variability
