-- Locators: the presence conditions of a file, one per location, from an
-- outside source, refined with build conditions, and turned into spaces.
import Variability.BuildIndex.Scanner
import Variability.Measurement
import Variability.Raw.Record
import Variability.Settings

namespace Variability

/-! ## Errors -/

/-- Why a file cannot be annotated. -/
inductive LocatorError
  | condition (error : ParseError)
  | invalid (details : List Detail)
  | unknownDialect (name : String)
  | locate (error : BuildIndex.LocateError)
  | space (error : SpaceError)
deriving DecidableEq, Repr

def LocatorError.message : LocatorError → String
  | .condition e => e.message
  | .invalid _ => ""
  | .unknownDialect name => Dialect.unknownMessage name
  | .locate e => e.message
  | .space e => e.message

/-! ## Condition locators -/

/-- An outside source of presence conditions: a name, and what it answers for
a file. -/
structure Source where
  name : String
  annotate : String → Except LocatorError (Table Int Condition)

/-- Where the build conditions of files are looked up. -/
structure BuildSystem where
  reader : ConditionReader
  indexPath : String
  projectRoot : String
  suffixes : Table String String

/-- A source of presence conditions, perhaps refined with build conditions. -/
inductive ConditionLocator
  | source (s : Source)
  | build (s : Source) (b : BuildSystem)

namespace BuildSystem

def scanner (b : BuildSystem) (file : String) : BuildIndex.Scanner :=
  ⟨b.reader, Path.ofString b.indexPath, Path.ofString b.projectRoot, Path.ofString file,
    b.suffixes⟩

end BuildSystem

/-- Conditions per location, what was reported, and how often the source was
asked. -/
structure LocatedConditions where
  answer : Except LocatorError (Table Int Condition)
  consultations : Nat
  events : List Event

namespace ConditionLocator

def name : ConditionLocator → String
  | source s => s.name
  | build s _ => s.name ++ " + kmax"

/-- The conditions of a file. The build conditions are located before the
source is asked; if that fails, it is not asked at all. -/
def annotate (l : ConditionLocator) (w : Workspace) (file : String) : LocatedConditions :=
  match l with
  | source s => ⟨s.annotate file, 1, []⟩
  | build s b =>
    let located := (b.scanner file).locate w 0 ⟨.unscanned, History.empty⟩
    match located.answer with
    | .error e => ⟨.error (.locate e), 0, located.events⟩
    | .ok levels =>
      ⟨(s.annotate file).map fun conditions =>
          conditions.mapValues (BuildIndex.combineLevels levels),
        1, located.events⟩

end ConditionLocator

/-! ## Space locators -/

/-- Turns the conditions of a locator into configuration spaces. -/
structure SpaceLocator where
  conditions : ConditionLocator
  request : SpaceRequest

/-- What a space locator keeps between calls: the models loaded, and the time
of the last call that succeeded. -/
structure SpaceLocatorState where
  cache : ModelCache
  lastMeasurement : Option Measurement

/-- Spaces per location, the state after the call, what was reported, and how
often the source was asked. -/
structure LocatedSpaces where
  answer : Except LocatorError (Table Int Space)
  state : SpaceLocatorState
  consultations : Nat
  events : List Event

namespace SpaceLocator

def name (l : SpaceLocator) : String := l.conditions.name ++ " config"

/-- Enumerates one location after the other, up to the first that fails. -/
def enumerateAll (choose : SolverChoice) (w : Workspace) (r : SpaceRequest) (cache : ModelCache) :
    List (Int × Condition) → Outcome ModelCache (Except SpaceError (List (Int × Space)))
  | [] => ⟨.ok [], cache, []⟩
  | (key, c) :: rest =>
    let first := c.enumerate choose w cache r
    match first.answer with
    | .error e => ⟨.error e, first.state, first.events⟩
    | .ok space =>
      let others := enumerateAll choose w r first.state rest
      ⟨others.answer.map ((key, space) :: ·), others.state, first.events ++ others.events⟩

/-- The spaces of a file. A location that fails fails the call, and then the
last measurement stays as it was. `began` and `ended` are readings of the
clock. -/
def annotate (l : SpaceLocator) (choose : SolverChoice) (w : Workspace) (began ended : Float)
    (before : SpaceLocatorState) (file : String) : LocatedSpaces :=
  let located := l.conditions.annotate w file
  match located.answer with
  | .error e => ⟨.error e, before, located.consultations, located.events⟩
  | .ok conditions =>
    let spaces := enumerateAll choose w l.request before.cache conditions.entries
    let events := located.events ++ spaces.events
    match spaces.answer with
    | .error e =>
      ⟨.error (.space e), { before with cache := spaces.state }, located.consultations, events⟩
    | .ok found =>
      let measurement? := Measurement.difference? ⟨.float ended, none⟩ ⟨.float began, none⟩
      ⟨.ok (Table.ofList found), ⟨spaces.state, measurement?⟩, located.consultations,
        events ++ [.annotated l.name found.length file]⟩

end SpaceLocator

/-! ## Locators from settings -/

/-- The pipeline that the settings describe, around a source. Without an index
no build conditions are looked up. -/
def Settings.locator (s : Settings) (source : Source) (reader : ConditionReader) : SpaceLocator :=
  let conditions :=
    match s.indexPath.filter (· ≠ "") with
    | some indexPath =>
      .build source ⟨reader, indexPath, s.projectRoot, s.suffixes⟩
    | none => .source source
  let budget :=
    match s.budget with
    | some seconds => .float seconds
    | none => .null
  ⟨conditions, ⟨s.modelPath, .int s.limit, budget, s.solverName⟩⟩

end Variability
