-- Clause learning: decisions, what follows from them, and a clause learned
-- from every conflict, until all clauses hold or the empty one has been
-- derived.
import Std.Data.HashSet
import Variability.Sat.Conflict

namespace Variability.Sat

open Cnf

/-! ## State -/

/-- What a solver knows between questions. The first `settled` literals of the
trail have clauses of their own. `pending` is a clause that is false at level
zero. The glue of a learned clause is the number of levels that it joined. -/
structure Engine (models : Valuation → Prop) where
  size : Nat
  store : Store models
  trail : Trail
  settled : Nat
  pending : Option Nat
  glues : Array Nat
  conflicts : Nat
  restarts : Nat
  restartAt : Nat
  reductionAt : Nat

namespace Engine

variable {models : Valuation → Prop}

/-! ## Taking up clauses -/

/-- Takes up a clause at level zero. -/
def attach (ref : Nat) (e : Engine models) : Engine models :=
  let c := e.store.literals ref
  if c.any e.trail.isTrue then e
  else
    match c.filter (!e.trail.isFalse ·) with
    | [] => { e with pending := some ref }
    | [l] => { e with trail := e.trail.assign l (ref + 1) }
    | first :: second :: _ => { e with trail := e.trail.watch ref c first second }

/-- An engine that nobody has asked, about variables up to `size`. -/
def start (size : Nat) (store : Store models) : Engine models :=
  (List.range store.given.size).foldl (fun e i => e.attach (Store.givenRef i))
    ⟨size, store, Trail.start size, 0, none, #[], 0, 0, 64, 3000⟩

/-- One clause more that models have to satisfy. -/
def give (c : Clause) : Engine models → Engine fun v => clauseHolds v c = true ∧ models v
  | ⟨size, store, trail, settled, pending, glues, conflicts, restarts, restartAt, reductionAt⟩ =>
    attach (Store.givenRef store.given.size)
      ⟨size, store.give c, trail.backTo 0, settled, pending, glues, conflicts, restarts, restartAt,
        reductionAt⟩

/-- The same state, with the models described in another way. -/
def restate {others : Valuation → Prop} (e : Engine models) (h : ∀ v, others v ↔ models v) :
    Engine others :=
  ⟨e.size, e.store.restate h, e.trail, e.settled, e.pending, e.glues, e.conflicts, e.restarts,
    e.restartAt, e.reductionAt⟩

/-! ## Level zero -/

/-- Derives the clause of a literal that follows at level zero from literals
with clauses of their own. -/
def unitFor (e : Engine models) (l : Int) : Consequence models :=
  let c := e.store.consequence (e.trail.reasonOf l - 1)
  c.literals.foldl
    (fun c k =>
      if k = l then c else c.resolve k (e.store.consequence (e.trail.reasonOf k - 1)))
    c

/-- Gives a literal of level zero a clause of its own. -/
def settleOne (e : Engine models) (l : Int) : Engine models :=
  let unit := e.unitFor l
  let ref := Store.learnedRef e.store.learned.size
  { e with
    store := e.store.learn unit
    glues := e.glues.push 0
    trail := { e.trail with reasons := e.trail.reasons.setIfInBounds l.natAbs (ref + 1) }
    settled := e.settled + 1 }

/-- Gives all literals of level zero clauses of their own. -/
def settle (e : Engine models) : Engine models :=
  (e.trail.literals.extract e.settled e.trail.literals.size).foldl settleOne e

/-! ## Learning -/

/-- Makes the variables of literals more active, each once. -/
def raiseAll (ls : List Int) (t : Trail) : Trail :=
  let vars := (ls.map Int.natAbs).mergeSort.eraseReps
  { t with order := (vars.foldl (fun o v => o.raise v) t.order).age }

/-- Stops watching clauses of which the learned one is a part, and strengthens
those given. -/
def absorb (c : Consequence models) (used : List Nat) (e : Engine models) : Engine models :=
  used.foldl
    (fun e ref =>
      if isPart c.literals (e.store.literals ref) then
        let e := { e with trail := e.trail.unwatch ref }
        if ref % 2 = 0 then { e with store := e.store.strengthen (ref / 2) c } else e
      else e)
    e

/-- Learns from a false clause. -/
def learnFrom (ref : Nat) (e : Engine models) : Engine models :=
  let lesson := lessonFrom e.store e.trail ref
  let e := e.absorb lesson.clause lesson.used
  let trail := (raiseAll lesson.involved e.trail).backTo lesson.level
  let learned := Store.learnedRef e.store.learned.size
  let watched :=
    if lesson.witness = 0 then trail
    else trail.watch learned lesson.clause.literals lesson.asserted lesson.witness
  { e with
    store := e.store.learn lesson.clause
    glues := e.glues.push lesson.glue
    trail := watched.assign lesson.asserted (learned + 1)
    conflicts := e.conflicts + 1 }

/-! ## Restarts -/

/-- The sequence 1, 1, 2, 1, 1, 2, 4, …: after a power of two less one, it
starts anew. -/
def restartLength (i : Nat) : Nat → Nat
  | 0 => 1
  | bits + 1 =>
    let whole := Nat.pow 2 (bits + 1) - 1
    if i + 1 = whole then Nat.pow 2 bits
    else if i + 1 < whole then restartLength i bits
    else restartLength (i - whole) bits

/-- Goes back to level zero. -/
def restart (e : Engine models) : Engine models :=
  { e with
    trail := e.trail.backTo 0
    restarts := e.restarts + 1
    restartAt := e.conflicts + 100 * restartLength e.restarts 40 }

/-- Which learned clauses are kept: those that join few levels, and the better
half of the others. -/
def kept (e : Engine models) : Array Bool :=
  let marks := e.glues.map fun glue => decide (glue ≤ 2)
  let others := e.glues.toList.zipIdx.filter fun p => decide (2 < p.1)
  let sorted := others.mergeSort fun p q =>
    decide (p.1 < q.1) || (decide (p.1 = q.1) && decide (q.2 ≤ p.2))
  (sorted.take (sorted.length / 2)).foldl (fun marks p => marks.setIfInBounds p.2 true) marks

/-- Takes up clauses again, each once. -/
def attachAll (refs : List Nat) (e : Engine models) : Engine models :=
  (refs.foldl
    (fun (e, seen) ref =>
      let c := e.store.literals ref
      if seen.contains c then (e, seen) else (e.attach ref, seen.insert c))
    (e, (Std.HashSet.emptyWithCapacity : Std.HashSet Clause))).1

/-- Forgets learned clauses, and takes up all others from the start. -/
def reduce (e : Engine models) : Engine models :=
  let marks := e.kept
  let store := e.store.forget fun i => marks.getD i false
  let glues :=
    ((e.glues.toList.zipIdx.filter fun p => marks.getD p.2 false).map Prod.fst).toArray
  let trail := { Trail.start e.size with phases := e.trail.phases, order := e.trail.order }
  let learned := (List.range store.learned.size).map Store.learnedRef
  let units := learned.filter fun ref => (store.literals ref).length == 1
  let given := (List.range store.given.size).map Store.givenRef
  attachAll (units ++ given ++ learned)
    { e with
      store, glues, trail
      settled := 0
      reductionAt := e.conflicts + 2000 + e.conflicts / 40 }

/-! ## The search -/

/-- What the search comes to: a model, a proof that there is none, or no
answer in time. -/
inductive Finding (models : Valuation → Prop)
  | found (v : Valuation) (isModel : models v)
  | refuted (noModel : ∀ v, ¬ models v)
  | unknown

/-- The variables whose value is themselves are true. -/
@[inline] def valuation (values : Array Int) : Valuation := fun n => values.getD n 0 == n

/-- Takes the trail for a model, if all clauses hold. -/
def concludeModel (e : Engine models) : Finding models :=
  let values := e.trail.values
  if h : e.store.holds (valuation values) = true then
    .found (valuation values) (Store.models_of_holds h)
  else .unknown

/-- Derives the empty clause from a clause that is false at level zero. -/
def concludeNone (e : Engine models) (ref : Nat) : Finding models :=
  let c := e.store.consequence ref
  let empty := c.literals.foldl
    (fun c k => c.resolve k (e.store.consequence (e.trail.reasonOf k - 1))) c
  if h : empty.literals = [] then .refuted (empty.not_models h) else .unknown

/-- The most steps of one search. -/
def stepLimit : Nat := 1000000000000

/-- Propagates, then learns, restarts, decides or comes to an end. -/
def searchFrom : Nat → Engine models → Finding models × Engine models
  | 0, e => (.unknown, e)
  | fuel + 1, e =>
    let propagated :=
      match e.pending with
      | some ref => (some ref, e.trail)
      | none => e.trail.propagate e.store (e.size + 1)
    let e := { e with trail := propagated.2 }
    let e := if e.trail.starts.isEmpty then e.settle else e
    match propagated.1 with
    | some ref =>
      if e.trail.starts.isEmpty then (e.concludeNone ref, e)
      else searchFrom fuel (e.learnFrom ref)
    | none =>
      if e.reductionAt ≤ e.conflicts then searchFrom fuel e.restart.reduce
      else if e.restartAt ≤ e.conflicts then searchFrom fuel e.restart
      else
        let (v, order) := e.trail.order.takeFree e.trail.values (e.size + 1)
        let e := { e with trail := { e.trail with order := order } }
        if v = 0 then (e.concludeModel, e)
        else
          let l := if 0 < e.trail.phases.getD v 0 then (v : Int) else -v
          searchFrom fuel { e with trail := e.trail.decide l }

def solve (e : Engine models) : Finding models × Engine models := searchFrom stepLimit e

end Engine

end Variability.Sat
