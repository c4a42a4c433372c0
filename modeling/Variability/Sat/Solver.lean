-- Solvers: what answers whether clauses can be satisfied, and which literals
-- it can take.
import Variability.Data.Word
import Variability.Sat.Session

namespace Variability

namespace Sat

open Cnf

/-! ## Solvers -/

/-- Why a solver says nothing. -/
inductive SolverFault
  | unknownName
  | notInstalled
  | notInterruptible
  | zeroLiteral
  | longLiteral
deriving DecidableEq, Repr

/-- A solver takes up clauses in a session, says whether they can be satisfied,
and takes up further clauses. A session is about the valuations that satisfy
all of them. -/
structure Solver where
  Session : (Valuation → Prop) → Type
  start (cs : List Clause) : Except SolverFault (Session fun v => clausesHold v cs = true)
  ask {models : Valuation → Prop} :
    Session models → Except SolverFault (Verdict × Session models)
  give {models : Valuation → Prop} (c : Clause) :
    Session models → Except SolverFault (Session fun v => clauseHolds v c = true ∧ models v)

/-- Clauses and what has been learned from them. -/
structure Lessons (models : Valuation → Prop) where
  clauses : List Clause
  zeroFree : ZeroFree clauses
  meaning : ∀ v, models v ↔ clausesHold v clauses = true
  session : Session clauses

/-- Learns from the clauses what it can. -/
def learning : Solver where
  Session := Lessons
  start cs :=
    if h : ∀ c ∈ cs, ∀ l ∈ c, l ≠ 0 then .ok ⟨cs, h, fun _ => Iff.rfl, .start cs⟩
    else .error .zeroLiteral
  ask x :=
    let answer := x.session.ask
    .ok (answer.1, { x with session := answer.2 })
  give c x :=
    if h : ∀ l ∈ c, l ≠ 0 then
      .ok ⟨c :: x.clauses, List.forall_mem_cons.2 ⟨h, x.zeroFree⟩,
        fun v => by simp [x.meaning v, clausesHold], x.session.give c⟩
    else .error .zeroLiteral

/-! ## Words -/

/-- What a solver takes a literal for: what half a word keeps of it. A number
that is longer than a word is taken for the literal -1. -/
def wordLiteral (l : Int) : Int := if isWord l then halfWord l else -1

def wordClause (c : Clause) : Clause := c.map wordLiteral

/-- Why a clause cannot be handed over: zero is no literal, and a literal fits
into a word. -/
def clauseFault? (c : Clause) : Option SolverFault :=
  if (wordClause c).contains 0 then some .zeroLiteral
  else if c.all isWord then none
  else some .longLiteral

/-- A session about the clauses that half words keep of the clauses meant. -/
structure WordSession (s : Solver) where
  models : Valuation → Prop
  session : s.Session models

/-- A solver whose literals are half words. -/
def inWords (s : Solver) : Solver where
  Session _ := WordSession s
  start cs :=
    match cs.findSome? clauseFault? with
    | some fault => .error fault
    | none => (s.start (cs.map wordClause)).map (⟨_, ·⟩)
  ask x := (s.ask x.session).map fun answer => (answer.1, ⟨x.models, answer.2⟩)
  give c x :=
    match clauseFault? c with
    | some fault => .error fault
    | none => (s.give (wordClause c) x.session).map (⟨_, ·⟩)

end Sat

end Variability
