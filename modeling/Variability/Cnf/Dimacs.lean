-- Reading formulas in DIMACS form. Clauses may share a line or span lines,
-- the header is optional, and comments may name variables.
import Variability.Cnf.Document
import Variability.Text.Integer
import Variability.Text.Split

namespace Variability.Cnf

open Text

/-! ## Errors -/

/-- Why a text is not a formula. Line numbers start at 1. -/
inductive DimacsError
  | header (number : Nat) (line : String)
  | literal (token : String) (number : Nat)
  | emptyClause (number : Nat)
  | openClause
  | longId (fault : IntegerFault)
  | structural (violations : List Violation)
deriving DecidableEq, Repr

def DimacsError.message : DimacsError → String
  | .header number line => s!"Invalid DIMACS header at line {number}: '{line}'"
  | .literal token number => s!"Invalid literal '{token}' at line {number}"
  | .emptyClause number => s!"Empty clause at line {number}"
  | .openClause => "Missing terminating 0 for last clause"
  | .longId fault => fault.message
  | .structural _ => "Invalid CNF structure: "

/-- Whether a bad formula is reported as a bad model. An error that is not
reaches the caller as it arose. -/
def DimacsError.isReported : DimacsError → Bool
  | .longId _ => false
  | _ => true

/-! ## Lines -/

/-- What has been read of a formula. The clauses and the literals of the open
clause are held last first. -/
structure Progress where
  header : Int
  names : Table Int String
  clauses : List Clause
  current : List Int

def Progress.start : Progress := ⟨0, Table.empty, [], []⟩

/-- The written id and the name of a comment that names a variable: the word
`c`, digits that a dollar sign may follow, and one more word. -/
def namedVariable? (line : List Char) : Option (List Char × List Char) :=
  match words line with
  | [['c'], id, name] =>
    let digits := if id.getLast? = some '$' then id.dropLast else id
    if !digits.isEmpty && digits.all isDecimalDigit then some (digits, name) else none
  | _ => none

def readComment (p : Progress) (line : List Char) : Except DimacsError Progress :=
  match namedVariable? line with
  | none => .ok p
  | some (digits, name) =>
    match readNatural digits with
    | .error fault => .error (.longId fault)
    | .ok id => .ok { p with names := p.names.insert id (String.ofList name) }

/-- The header says `cnf`, the number of variables, and at least one thing
more. -/
def readHeader (number : Nat) (p : Progress) (line : List Char) : Except DimacsError Progress :=
  match words line with
  | _ :: kind :: count :: _ :: _ =>
    if kind = "cnf".toList then
      match readInteger count with
      | .ok n => .ok { p with header := n }
      | .error _ => .error (.header number (String.ofList line))
    else .error (.header number (String.ofList line))
  | _ => .error (.header number (String.ofList line))

/-- Reads the literals of a line. A zero closes the open clause. -/
def readTokens (number : Nat) : Progress → List (List Char) → Except DimacsError Progress
  | p, [] => .ok p
  | p, token :: rest =>
    match readInteger token with
    | .error _ => .error (.literal (String.ofList token) number)
    | .ok 0 =>
      if p.current = [] then .error (.emptyClause number)
      else
        readTokens number { p with clauses := p.current.reverse :: p.clauses, current := [] } rest
    | .ok l => readTokens number { p with current := l :: p.current } rest

/-- Reads a line without the blanks at its ends. Blank lines and lines that
start with a percent sign say nothing. -/
def readLine (number : Nat) (p : Progress) (line : List Char) : Except DimacsError Progress :=
  match line with
  | [] => .ok p
  | '%' :: _ => .ok p
  | 'c' :: _ => readComment p line
  | 'p' :: _ => readHeader number p line
  | _ => readTokens number p (words line)

def readLines (number : Nat) (p : Progress) : List (List Char) → Except DimacsError Progress
  | [] => .ok p
  | line :: rest =>
    match readLine number p (trim line) with
    | .error e => .error e
    | .ok next => readLines (number + 1) next rest

/-! ## Documents -/

/-- The largest variable among literals. -/
def largestVariable (ls : List Int) : Nat := ls.foldl (fun n l => max n l.natAbs) 0

/-- The number of variables: what the header says, or more if the clauses or
the names need more. -/
def variableCount (header : Int) (clauses : List Clause) (names : Table Int String) : Int :=
  max header (max (largestVariable clauses.flatten) (largestVariable names.keys))

/-- The document that a text describes. -/
def readDimacs (text : List Char) : Except DimacsError Document :=
  match readLines 1 Progress.start (lines text) with
  | .error e => .error e
  | .ok p =>
    if p.current ≠ [] then .error .openClause
    else
      let clauses := p.clauses.reverse
      (Document.ofParts (variableCount p.header clauses p.names) clauses p.names).mapError
        .structural

end Variability.Cnf
