-- Trails: the literals that a solver holds true for now, and what follows
-- from them clause by clause.
import Variability.Sat.Order
import Variability.Sat.Store

namespace Variability.Sat

open Cnf

/-! ## State -/

/-- The clauses to look at when a literal becomes false. Of a `short` clause,
with two literals, the other one has to be true then. There is nothing to do
about a `long` one while its blocker, a literal of it, is true; otherwise it is
searched from the part `behind` the literal on. -/
inductive Watches
  | none
  | short (ref : Nat) (other : Int) (rest : Watches)
  | long (ref : Nat) (blocker : Int) (behind : Clause) (rest : Watches)
deriving Inhabited

namespace Watches

/-- The watches of both. -/
def append : Watches → Watches → Watches
  | none, ws => ws
  | short ref other rest, ws => append rest (short ref other ws)
  | long ref blocker behind rest, ws => append rest (long ref blocker behind ws)

end Watches

/-- The literals held true, in the order in which they became so, and for each
variable its true literal or zero, its level, its place on the trail and the
clause it follows from: a reference and one, or zero for a decision. A level
starts with each decision; `starts` are their places. The trail up to `head`
has been followed up. -/
structure Trail where
  values : Array Int
  levels : Array Nat
  places : Array Nat
  reasons : Array Nat
  literals : Array Int
  starts : Array Nat
  head : Nat
  watches : Array Watches
  firsts : Array Int
  seconds : Array Int
  phases : Array Int
  order : Order

namespace Trail

/-- Nothing is held true, and no clause is watched. -/
def start (n : Nat) : Trail where
  values := Array.replicate (n + 1) 0
  levels := Array.replicate (n + 1) 0
  places := Array.replicate (n + 1) 0
  reasons := Array.replicate (n + 1) 0
  literals := #[]
  starts := #[]
  head := 0
  watches := Array.replicate (2 * n + 2) .none
  firsts := #[]
  seconds := #[]
  phases := Array.replicate (n + 1) 0
  order := Order.start n

def level (t : Trail) : Nat := t.starts.size

/-- The true literal of the variable of `l`, or zero. -/
@[inline] def valueOf (t : Trail) (l : Int) : Int := t.values.getD l.natAbs 0

@[inline] def isTrue (t : Trail) (l : Int) : Bool := t.valueOf l == l

@[inline] def isFalse (t : Trail) (l : Int) : Bool := t.valueOf l == -l

def levelOf (t : Trail) (l : Int) : Nat := t.levels.getD l.natAbs 0

def placeOf (t : Trail) (l : Int) : Nat := t.places.getD l.natAbs 0

def reasonOf (t : Trail) (l : Int) : Nat := t.reasons.getD l.natAbs 0

/-- The place of a literal among the watches. -/
@[inline] def watchIndex (l : Int) : Nat := if l < 0 then 2 * l.natAbs + 1 else 2 * l.natAbs

/-! ## Assigning -/

/-- Holds a literal true at the present level. -/
@[noinline] def assign (l : Int) (reason : Nat) (t : Trail) : Trail :=
  let v := l.natAbs
  { t with
    values := t.values.setIfInBounds v l
    levels := t.levels.setIfInBounds v t.starts.size
    places := t.places.setIfInBounds v t.literals.size
    reasons := t.reasons.setIfInBounds v reason
    literals := t.literals.push l }

/-- Starts a new level with a literal. -/
def decide (l : Int) (t : Trail) : Trail :=
  assign l 0 { t with starts := t.starts.push t.literals.size }

/-- Takes back the last literal, and remembers it for the next decision on its
variable. -/
def takeBack (t : Trail) : Trail :=
  let l := t.literals.getD (t.literals.size - 1) 0
  let v := l.natAbs
  { t with
    literals := t.literals.pop
    values := t.values.setIfInBounds v 0
    phases := t.phases.setIfInBounds v l
    order := t.order.release v }

/-- Takes back the levels above `level`. -/
def backTo (level : Nat) (t : Trail) : Trail :=
  match t.starts[level]? with
  | none => t
  | some start =>
    let t := Nat.repeat takeBack (t.literals.size - start) t
    { t with starts := t.starts.take level, head := t.literals.size }

/-! ## Watching -/

/-- Adds to the watches of a literal. -/
def addWatch (l : Int) (add : Watches → Watches) (t : Trail) : Trail :=
  { t with watches := t.watches.modify (watchIndex l) add }

/-- Makes room for the watched literals of a clause. -/
@[noinline] def makeRoom (ref : Nat) (t : Trail) : Trail :=
  if ref < t.firsts.size then t
  else
    let room := Array.replicate (ref + 1 - t.firsts.size + ref / 2) 0
    { t with firsts := t.firsts ++ room, seconds := t.seconds ++ room }

/-- Notes the watched literals of a clause. -/
@[noinline] def noteWatched (ref : Nat) (first second : Int) (t : Trail) : Trail :=
  { t with
    firsts := t.firsts.setIfInBounds ref first
    seconds := t.seconds.setIfInBounds ref second }

/-- Watches a clause at two of its literals. -/
def watch (ref : Nat) (c : Clause) (first second : Int) (t : Trail) : Trail :=
  match c with
  | [_, _] => (t.addWatch first (.short ref second)).addWatch second (.short ref first)
  | _ =>
    let t := (t.makeRoom ref).noteWatched ref first second
    (t.addWatch first (.long ref second [])).addWatch second (.long ref first [])

/-- Stops watching a clause with more than two literals. -/
def unwatch (ref : Nat) (t : Trail) : Trail := t.noteWatched ref 0 0

/-- What a clause has from a literal on that is not false and not `l`. -/
def freePart (t : Trail) (l : Int) (c : Clause) : Clause :=
  match c with
  | [] => []
  | k :: rest => if k != l && !t.isFalse k then c else freePart t l rest

/-- The watched literal of a clause besides `f`, or zero. -/
@[noinline] def otherWatch (t : Trail) (ref : Nat) (f : Int) : Int :=
  let first := t.firsts.getD ref 0
  if first = f then t.seconds.getD ref 0 else first

/-- Watches a clause at `l` besides `other`. -/
def moveWatch (ref : Nat) (other l : Int) (behind : Clause) (t : Trail) : Trail :=
  (t.noteWatched ref other l).addWatch l (.long ref other behind)

/-- Replaces the watches of a literal. -/
@[noinline] def setWatches (l : Int) (ws : Watches) (t : Trail) : Trail :=
  { t with watches := t.watches.setIfInBounds (watchIndex l) ws }

/-- Goes through watches of the literal `f`, which has become false. Each
clause gets another watched literal, is true, makes its last literal true, or
is false: then its reference comes out. -/
def visit {models : Valuation → Prop} (s : Store models) (f : Int) (kept : Watches) :
    Watches → Trail → Option Nat × Trail
  | .none, t => (none, t.setWatches f kept)
  | .short ref other rest, t =>
    let value := t.valueOf other
    if value == 0 then visit s f (.short ref other kept) rest (t.assign other (ref + 1))
    else if value == other then visit s f (.short ref other kept) rest t
    else (some ref, t.setWatches f (rest.append (.short ref other kept)))
  | .long ref blocker behind rest, t =>
    if t.isTrue blocker then visit s f (.long ref blocker behind kept) rest t
    else
      let other := t.otherWatch ref f
      if other = 0 then visit s f kept rest t
      else if t.isTrue other then visit s f (.long ref other behind kept) rest t
      else
        match t.freePart other behind with
        | l :: behind => visit s f kept rest (t.moveWatch ref other l behind)
        | [] =>
          match t.freePart other (s.literals ref) with
          | l :: behind => visit s f kept rest (t.moveWatch ref other l behind)
          | [] =>
            if t.isFalse other then
              (some ref, t.setWatches f (rest.append (.long ref other behind kept)))
            else visit s f (.long ref other behind kept) rest (t.assign other (ref + 1))

/-- Follows the trail up to its end, with at most `fuel` literals, or to a
clause that is false. -/
def propagate {models : Valuation → Prop} (s : Store models) : Nat → Trail → Option Nat × Trail
  | 0, t => (none, t)
  | fuel + 1, t =>
    match t.literals[t.head]? with
    | none => (none, t)
    | some l =>
      let watches := t.watches.getD (watchIndex (-l)) .none
      let t := { t with head := t.head + 1 }
      match visit s (-l) .none watches (t.setWatches (-l) .none) with
      | (some ref, t) => (some ref, t)
      | (none, t) => propagate s fuel t

end Trail

end Variability.Sat
