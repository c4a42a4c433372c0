-- Libraries of solvers: under which names solvers are known, which of them can
-- be interrupted, and how a time budget cuts their answers off.
import Variability.Budget
import Variability.Sat.Solver

namespace Variability

namespace Sat

/-! ## Questions in time -/

/-- A solver that can also be asked so that it may be interrupted. It is if it
is `overtaken` by the deadline. -/
structure Backend extends Solver where
  askInterruptibly {models : Valuation → Prop} (overtaken : Bool) :
    Session models → Except SolverFault (Verdict × Session models)

/-- Answers unless it is overtaken. -/
def Solver.interruptible (s : Solver) : Backend :=
  { s with
    askInterruptibly := fun overtaken session =>
      if overtaken then .ok (.interrupted, session) else s.ask session }

/-- Cannot be asked so that it may be interrupted. -/
def Solver.uninterruptible (s : Solver) : Backend :=
  { s with askInterruptibly := fun _ _ => .error .notInterruptible }

/-- How a question stands to the deadline: it comes after it, it is overtaken by
it, or it is answered before it. -/
inductive Timing
  | late
  | overtaken
  | inTime
deriving DecidableEq, Repr

/-- The timing of every question under a budget of so many seconds. -/
abbrev Clock := Float → Nat → Timing

/-- A solver under a deadline, with the number of the next question. Late
questions are not asked any more. -/
def Backend.timed (b : Backend) (interruptibly : Bool) (timing : Nat → Timing) : Solver where
  Session models := Nat × b.Session models
  start cs := (b.start cs).map fun session => (0, session)
  ask x :=
    match timing x.1 with
    | .late => .ok (.interrupted, x)
    | t =>
      let answer := if interruptibly then b.askInterruptibly (t = .overtaken) x.2 else b.ask x.2
      answer.map fun a => (a.1, (x.1 + 1, a.2))
  give c x := (b.give c x.2).map fun session => (x.1, session)

/-! ## Names -/

/-- The names, exactly as written, of the solvers that are asked under a budget
so that they may be interrupted. -/
def interruptibleNames : List String :=
  ["glucose3", "g3", "glucose30", "g30", "glucose4", "g4", "glucose41", "g41",
    "glucose42", "g42", "minisat22", "m22", "msat22", "minisat-gh", "mgh", "msat-gh",
    "maplechrono", "mcb", "maplecm", "mcm", "maplesat", "mpl", "mergesat3", "mg3",
    "cadical195", "cd19", "gluecard3", "gc3", "gluecard4", "gc4", "minicard", "mc"]

/-- The small letter of a character that has one in ASCII: of the capital
letters, and of the Kelvin sign. -/
def lowerChar (c : Char) : Char := if c.toNat = 0x212a then 'k' else c.toLower

def lowered (name : String) : String := String.ofList (name.toList.map lowerChar)

/-- What is known under a name in small letters. -/
abbrev Library := String → Except SolverFault Backend

/-- The solver of a name, in letters of either case. Under a budget its answers
may be cut off. -/
def Library.solver (l : Library) (clock : Clock) (name : String) (budget : Option Float) :
    Except SolverFault Solver :=
  match l (lowered name) with
  | .error fault => .error fault
  | .ok b =>
    match budget with
    | none => .ok b.toSolver
    | some seconds => .ok (b.timed (interruptibleNames.contains name) (clock seconds))

/-! ## The library that is installed -/

/-- The names of the solvers, one list per solver, in small letters. -/
def solverNames : List (List String) :=
  [["cd", "cd103", "cdl", "cdl103", "cadical103"],
    ["cd15", "cd153", "cdl15", "cdl153", "cadical153"],
    ["cd19", "cd195", "cdl19", "cdl195", "cadical195"],
    ["cd30", "cd300", "cdl30", "cdl300", "cadical300"],
    ["gc3", "gc30", "gluecard3", "gluecard30"],
    ["gc4", "gc41", "gluecard4", "gluecard41"],
    ["g3", "g30", "glucose3", "glucose30"],
    ["g4", "g41", "glucose4", "glucose41"],
    ["g42", "g421", "glucose42", "glucose421"],
    ["ks", "ks4", "kissat", "kissat4", "kissat404"],
    ["lgl", "lingeling"],
    ["mcb", "chrono", "chronobt", "maplechrono"],
    ["mcm", "maplecm"],
    ["mpl", "maple", "maplesat"],
    ["mg3", "mgs3", "mergesat3", "mergesat30"],
    ["mc", "mcard", "minicard"],
    ["m22", "msat22", "minisat22"],
    ["mgh", "msat-gh", "minisat-gh"],
    ["mep", "msat-ep", "minisat-ep", "minisatep"],
    ["ergo"]]

/-- The names of solvers that would have to be installed, in small letters. -/
def optionalNames : List String :=
  ["cms", "cms5", "crypto", "crypto5", "cryptominisat", "cryptominisat5"]

/-- The names of the solver that cannot be interrupted. -/
def uninterruptibleNames : List String := ["cd19", "cd195", "cdl19", "cdl195", "cadical195"]

/-- All names stand for one solver, and under some of them it cannot be
interrupted. -/
def libraryOf (s : Solver) : Library := fun name =>
  if optionalNames.contains name then .error .notInstalled
  else if !solverNames.any (·.contains name) then .error .unknownName
  else if uninterruptibleNames.contains name then .ok s.uninterruptible
  else .ok s.interruptible

/-- A budget that is not spent from the start lasts. -/
def patientClock : Clock := fun seconds _ =>
  if Budget.isSpent (some seconds) then .late else .inTime

def solverNamed : String → Option Float → Except SolverFault Solver :=
  (libraryOf (inWords learning)).solver patientClock

end Sat

end Variability
