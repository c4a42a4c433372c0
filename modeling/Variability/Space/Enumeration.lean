-- Configuration spaces: the selections of features that satisfy a condition
-- under a feature model, found one by one.
import Std.Data.HashSet
import Variability.FeatureModel.Cache
import Variability.Raw.Reading
import Variability.Sat.Library
import Variability.Space.Configuration
import Variability.Space.Encoding

namespace Variability

/-! ## Spaces -/

/-- The configurations found for a condition. Unless the space is `exhausted`
there may be more: the limit was reached or the time ran out. -/
structure Space where
  condition : String
  configurations : List Configuration
  limit : Nat
  exhausted : Bool
  timedOut : Bool
  duration : Float

namespace Space

/-- The space before any configuration is looked for. -/
def start (condition : String) (limit : Nat) : Space := ⟨condition, [], limit, false, false, 0.0⟩

def size (s : Space) : Nat := s.configurations.length

def isEmpty (s : Space) : Bool := s.configurations.isEmpty

def text (s : Space) : String :=
  if s.isEmpty then "(no configurations)"
  else "\n".intercalate (s.configurations.map (·.text))

end Space

/-! ## The loop -/

/-- What the loop has found. -/
structure Found where
  configurations : List Configuration
  exhausted : Bool
  timedOut : Bool

/-- The values that a model gives to the projected variables. -/
def selectionOf (projection : List (Int × String)) (literals : List Int) : Configuration :=
  let chosen := Std.HashSet.ofList literals
  ⟨Table.ofList (projection.map fun p => (p.2, chosen.contains p.1))⟩

/-- The clause that a selection of the projected variables falsifies, and no
other selection. -/
def blockingClause (projection : List (Int × String)) (literals : List Int) : Clause :=
  let chosen := Std.HashSet.ofList literals
  projection.map fun p => if chosen.contains p.1 then -p.1 else p.1

/-- Asks for at most `remaining` configurations beyond those `found`, last
first. Each one found is excluded from the questions after it. -/
def findConfigurations (solver : Sat.Solver) (projection : List (Int × String)) :
    Nat → {models : Valuation → Prop} → solver.Session models → List Configuration →
      Except Sat.SolverFault Found
  | 0, _, _, found => .ok ⟨found.reverse, false, false⟩
  | remaining + 1, _, session, found =>
    match solver.ask session with
    | .error fault => .error fault
    | .ok (.interrupted, _) => .ok ⟨found.reverse, false, true⟩
    | .ok (.unsatisfiable, _) => .ok ⟨found.reverse, true, false⟩
    | .ok (.model literals, session) =>
      let found := selectionOf projection literals :: found
      if projection = [] then .ok ⟨found.reverse, true, false⟩
      else
        match solver.give (blockingClause projection literals) session with
        | .error fault => .error fault
        | .ok session => findConfigurations solver projection remaining session found

/-- The configurations of an encoding, at most `limit` many. -/
def Encoding.configurations (solver : Sat.Solver) (e : Encoding) (limit : Nat) :
    Except Sat.SolverFault Found :=
  match solver.start e.clauses with
  | .error fault => .error fault
  | .ok session => findConfigurations solver e.projection limit session []

/-! ## Enumeration -/

/-- Why there is no configuration space. -/
inductive SpaceError
  | negativeLimit (shown : String)
  | incomparableLimit (kind : String)
  | invalidLimit (details : List Detail)
  | budget (fault : BudgetFault)
  | model (error : ModelError)
  | solver (name source : String) (fault : Sat.SolverFault)
deriving DecidableEq, Repr

def SpaceError.message : SpaceError → String
  | .negativeLimit shown => "limit must not be negative, got " ++ shown
  | .incomparableLimit kind => Value.incomparableMessage "<" kind "int"
  | .invalidLimit _ => ""
  | .budget fault => fault.message
  | .model e => e.message
  | .solver name source _ => "Solver " ++ name ++ " failed on " ++ source ++ ": "

/-- What is asked of an enumeration, besides the condition. -/
structure SpaceRequest where
  modelPath : String
  limit : Value
  budget : Value
  solverName : String

/-- Gives a solver for a name and a time budget. -/
abbrev SolverChoice := String → Option Float → Except Sat.SolverFault Sat.Solver

/-- The configurations of a condition under a loaded model. Without a limit
above zero nothing is looked for, and a false condition has none. `shown` is
the limit as it was written. -/
def Condition.spaceUnder (choose : SolverChoice) (c : Condition) (m : FeatureModel) (limit : Nat)
    (shown : String) (budget : Option Float) (solverName : String) :
    Except SpaceError Space × List Event :=
  let space := Space.start c.render limit
  if limit = 0 then (.ok space, [])
  else if c.isFalse then (.ok { space with exhausted := true }, [])
  else
    let reports := (Encoding.unknownFeatures c m).map fun name => Event.unconstrained name m.source
    let found : Except Sat.SolverFault Found :=
      match choose solverName budget with
      | .error fault => .error fault
      | .ok solver => (c.encode m).configurations solver limit
    match found with
    | .error fault => (.error (.solver solverName m.source fault), reports)
    | .ok found =>
      (.ok { space with
          configurations := found.configurations
          exhausted := found.exhausted
          timedOut := found.timedOut },
        reports ++ [.enumerated found.configurations.length space.condition shown found.exhausted
          found.timedOut])

/-- The first thing asked of a limit: that it is a number, and not negative. -/
def limitError? (limit : Value) : Option SpaceError :=
  match limit.isNegative? with
  | none => some (.incomparableLimit limit.kindName)
  | some true => some (.negativeLimit limit.text)
  | some false => none

/-- Enumerates the configurations of a condition under the model in a file. A
limit that is no whole number is refused once the model is loaded. -/
def Condition.enumerate (choose : SolverChoice) (w : Workspace) (cache : ModelCache)
    (c : Condition) (r : SpaceRequest) : Outcome ModelCache (Except SpaceError Space) :=
  match limitError? r.limit with
  | some e => ⟨.error e, cache, []⟩
  | none =>
    match Budget.ofValue w.depths.values r.budget with
    | .error fault => ⟨.error (.budget fault), cache, []⟩
    | .ok budget =>
      let loaded := cache.load w r.modelPath
      match loaded.answer, r.limit.readCount.below (.field "limit") with
      | .error e, _ => ⟨.error (.model e), loaded.state, loaded.events⟩
      | .ok _, .error details => ⟨.error (.invalidLimit details), loaded.state, loaded.events⟩
      | .ok m, .ok limit =>
        let (answer, events) :=
          c.spaceUnder choose m.model limit r.limit.text budget r.solverName
        ⟨answer, loaded.state, loaded.events ++ events⟩

end Variability
