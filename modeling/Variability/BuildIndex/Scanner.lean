-- Scanners: the build conditions of one file, located once and then kept.
import Variability.BuildIndex.Scan
import Variability.Condition.Reader
import Variability.History

namespace Variability.BuildIndex

/-! ## Errors -/

/-- Why the build conditions of a file cannot be located. -/
inductive LocateError
  | noSuchFile (target : String)
  | nameTooLong (target : String)
  | outsideRoot (root target : String)
  | suffix (fault : Path.SuffixFault)
  | index (error : IndexError)
  | condition (error : ParseError)
deriving DecidableEq, Repr

def LocateError.message : LocateError → String
  | .noSuchFile target => "File " ++ target ++ " does not exist"
  | .nameTooLong target => FileFault.nameTooLong.message (Text.quoted target)
  | .outsideRoot root target => "Project root " ++ root ++ " does not contain " ++ target
  | .suffix fault => fault.message
  | .index e => e.message
  | .condition e => e.message

/-- Whether an error is reported as that of a path, an index or a condition.
One that is not reaches the caller as it arose. -/
def LocateError.isReported : LocateError → Bool
  | .noSuchFile _ | .outsideRoot _ _ | .condition _ => true
  | .index e => e.isReported
  | .nameTooLong _ | .suffix _ => false

/-! ## Scanners -/

/-- Where the build conditions of a file are looked up. -/
structure Scanner where
  reader : ConditionReader
  index : Path
  root : Path
  file : Path
  suffixes : Table String String

/-- Before the conditions are located, and after: one list per located entry,
the unit first, then the directories above it, innermost first. -/
inductive ScanState
  | unscanned
  | scanned (levels : List (List Condition))

/-- A scanner's state and the history it writes to. -/
structure Scanning where
  state : ScanState
  history : History

namespace Scanner

/-- How events name a scanner that owns a note. -/
def kind : String := "BuildConditionScanner"

/-- What a scanner notes once it has located its conditions. -/
def locatedNote : String :=
  "This presence condition has been located by Kmax. " ++
    "It originates from the build system and applies to the whole file."

/-- The compiled unit of the file, seen from the root of the project. -/
def objectFile (s : Scanner) (w : Workspace) : Except LocateError Path :=
  let root := w.absolute s.root
  let target := w.absolute s.file
  match w.status? target.text with
  | .error .nameTooLong => .error (.nameTooLong target.text)
  | .error _ => .error (.noSuchFile target.text)
  | .ok _ =>
    match Path.relativeTo? root target with
    | none => .error (.outsideRoot root.text target.text)
    | some relative => (objectIdentity s.suffixes relative).mapError .suffix

def keys (s : Scanner) (w : Workspace) : Except LocateError (List Key) :=
  (s.objectFile w).map lookupKeys

/-- The texts of the keys that have been found, in the order of the keys. -/
def foundTexts (keys : List Key) (found : Std.HashMap Key String) : List String :=
  keys.filterMap (found[·]?)

/-- The conditions of the entries, in order. -/
def readLevels (r : ConditionReader) : List String → Except ParseError (List (List Condition))
  | [] => .ok []
  | text :: rest =>
    match r.read text with
    | .error e => .error e
    | .ok level => (readLevels r rest).map (level :: ·)

/-- Looks the conditions up, without regard to what is kept: the conditions
and the number of entries found. -/
def lookUp (s : Scanner) (w : Workspace) :
    Except LocateError (List (List Condition) × Nat) × List Event :=
  match s.keys w with
  | .error e => (.error e, [])
  | .ok keys =>
    match scan w s.index.text keys with
    | (.error e, events) => (.error (.index e), events)
    | (.ok found, events) =>
      match readLevels s.reader (foundTexts keys found) with
      | .error e => (.error (.condition e), events)
      | .ok levels => (.ok (levels, found.size), events)

/-- The located conditions. They are looked up until that succeeds once, and
kept from then on; `owner` then gets a note. -/
def locate (s : Scanner) (w : Workspace) (owner : Nat) (before : Scanning) :
    Outcome Scanning (Except LocateError (List (List Condition))) :=
  match before.state with
  | .scanned levels => ⟨.ok levels, before, []⟩
  | .unscanned =>
    match s.lookUp w with
    | (.error e, events) => ⟨.error e, before, events⟩
    | (.ok (levels, count), events) =>
      let (history, noted) := before.history.record kind owner locatedNote
      ⟨.ok levels, ⟨.scanned levels, history⟩,
        events ++ [.located count s.file.text, noted]⟩

end Scanner

/-! ## Located conditions -/

/-- A condition among others that are joined: in parentheses if it has several
terms. -/
def renderFactor (c : Condition) : String :=
  if 1 < c.terms.length then "(" ++ c.render ++ ")" else c.render

/-- The conditions of the first dialect, joined. -/
def describeLevels (levels : List (List Condition)) : String :=
  let factors := (levels.filterMap List.head?).map renderFactor
  if factors = [] then "True" else "&&".intercalate factors

/-- Conjoins a located condition in front of another. Conditions of another
dialect are skipped. -/
def joinFront (c located : Condition) : Condition :=
  match located.conjoin c with
  | .ok joined => joined
  | .error _ => c

/-- Conjoins the located conditions with `c`, the outermost directory first
and the unit last. -/
def combineLevels (levels : List (List Condition)) (c : Condition) : Condition :=
  levels.reverse.foldl (fun c level => level.foldl joinFront c) c

namespace Scanner

def describe (s : Scanner) (w : Workspace) (owner : Nat) (before : Scanning) :
    Outcome Scanning (Except LocateError String) :=
  let located := s.locate w owner before
  { located with answer := located.answer.map describeLevels }

def combine (s : Scanner) (w : Workspace) (owner : Nat) (before : Scanning) (c : Condition) :
    Outcome Scanning (Except LocateError Condition) :=
  let located := s.locate w owner before
  { located with answer := located.answer.map fun levels => combineLevels levels c }

end Scanner

end Variability.BuildIndex
