-- Events: what the operations report while they run.

namespace Variability

inductive Severity
  | debug
  | info
deriving DecidableEq, Repr

def Severity.name : Severity → String
  | .debug => "DEBUG"
  | .info => "INFO"

inductive Event
  /-- A feature model is read from its file. -/
  | loadingModel (path : String)
  /-- A condition mentions a feature that the model does not have. -/
  | unconstrained (feature source : String)
  /-- An enumeration has ended; the limit is given as it was written. -/
  | enumerated (count : Nat) (condition limit : String) (exhausted timedOut : Bool)
  /-- A build index holds a second line for a key. -/
  | duplicateEntry (tag path index : String) (line : Nat)
  /-- The build conditions of a file have been found. -/
  | located (count : Nat) (file : String)
  /-- A note has been added to the history of an owner of the given kind. -/
  | noted (kind note : String)
  /-- The locations of a file have been turned into configuration spaces. -/
  | annotated (locator : String) (count : Nat) (file : String)
deriving DecidableEq, Repr

namespace Event

def severity : Event → Severity
  | annotated .. => .info
  | _ => .debug

def yesNo (b : Bool) : String := if b then "True" else "False"

/-- The text of an event. What differs between equal runs, the identity of an
owner and a duration, is written `<id>` and `<time>`. -/
def message : Event → String
  | loadingModel path => "Loading feature model " ++ path
  | unconstrained feature source =>
    "Feature " ++ feature ++ " is not part of " ++ source ++ ", leaving it unconstrained"
  | enumerated count condition limit exhausted timedOut =>
    s!"Enumerated {count} configuration(s) for '{condition}' (limit={limit}, exhausted=" ++
      yesNo exhausted ++ ", timed_out=" ++ yesNo timedOut ++ ")"
  | duplicateEntry tag path index line =>
    s!"Ignoring duplicate entry for {tag} {path} at {index}:{line}"
  | located count file => s!"Located {count} Kmax entries for {file}"
  | noted kind note => kind ++ "@<id>: " ++ note
  | annotated locator count file => s!"{locator}: {count} location(s) in {file} took <time>"

end Event

/-- What an operation gives and leaves behind: its answer, the state after it
and the events it reported, first to last. A failed operation has a state and
events as well. -/
structure Outcome (σ α : Type) where
  answer : α
  state : σ
  events : List Event

end Variability
