-- Conflicts: what is learned from a clause that has become false.
import Variability.Sat.Trail

namespace Variability.Sat

/-! ## Resolving backwards -/

/-- How many literals of a clause have the variables of one level, and which of
them came last onto the trail. -/
structure Frontier where
  count : Nat
  last : Int
  place : Nat

def frontierOf (t : Trail) (level : Nat) (c : Clause) : Frontier :=
  c.foldl
    (fun f l =>
      if t.levelOf l = level then
        let place := t.placeOf l
        if f.count = 0 ∨ f.place < place then ⟨f.count + 1, l, place⟩
        else { f with count := f.count + 1 }
      else f)
    ⟨0, 0, 0⟩

/-- A clause under derivation, the literals that have been resolved away and
the references of the clauses used. -/
structure Derivation (models : Valuation → Prop) where
  clause : Consequence models
  resolved : List Int
  used : List Nat

namespace Derivation

variable {models : Valuation → Prop}

/-- Resolves with the clause that makes `l` false. -/
def resolveAway (s : Store models) (t : Trail) (l : Int) (d : Derivation models) :
    Derivation models :=
  let ref := t.reasonOf l - 1
  ⟨d.clause.resolve l (s.consequence ref), l :: d.resolved, ref :: d.used⟩

/-- Resolves away what came last at a level until only one literal of the
level is left, with at most `fuel` steps. The literal comes out as well. -/
def toOneLiteral (s : Store models) (t : Trail) (level : Nat) :
    Nat → Derivation models → Derivation models × Int
  | 0, d => (d, 0)
  | fuel + 1, d =>
    let f := frontierOf t level d.clause.literals
    if f.count ≤ 1 ∨ t.reasonOf f.last = 0 then (d, f.last)
    else toOneLiteral s t level fuel (d.resolveAway s t f.last)

end Derivation

/-! ## Shortening -/

variable {models : Valuation → Prop}

/-- Whether the literals of `c`, apart from `l`, occur in `d`, both in
ascending order. -/
def isPartBut (l : Int) : Clause → Clause → Bool
  | [], _ => true
  | [a], [] => a == l
  | _ :: _ :: _, [] => false
  | a :: c, b :: d =>
    if a = l then isPartBut l c (b :: d)
    else if a = b then isPartBut l c d
    else b < a && isPartBut l (a :: c) d

/-- Resolves with the clauses behind literals where that adds none, and away
literals that are false at level zero. -/
def shorten (s : Store models) (t : Trail) (keep : Int) (c : Consequence models) :
    Consequence models :=
  c.literals.foldl
    (fun c l =>
      let reason := t.reasonOf l
      if reason = 0 ∨ l = keep then c
      else if t.levelOf l = 0 ∨ isPartBut (-l) (s.literals (reason - 1)) c.literals then
        c.resolve l (s.consequence (reason - 1))
      else c)
    c

/-! ## What is learned -/

/-- The clause learned, its literal that it makes true, the level at which it
does and a literal that became false there, and how many levels it joins. -/
structure Lesson (models : Valuation → Prop) where
  clause : Consequence models
  asserted : Int
  level : Nat
  witness : Int
  glue : Nat
  involved : List Int
  used : List Nat

/-- The levels of literals, each once. -/
def levelsOf (t : Trail) (c : Clause) : List Nat :=
  (c.map t.levelOf).mergeSort.eraseReps

/-- What is learned from a clause that is false at the present level. -/
def lessonFrom (s : Store models) (t : Trail) (ref : Nat) : Lesson models :=
  let start : Derivation models := ⟨s.consequence ref, [], [ref]⟩
  let (d, asserted) := start.toOneLiteral s t t.level (t.literals.size + 1)
  let clause := shorten s t asserted d.clause
  let others := clause.literals.filter (· ≠ asserted)
  let top := others.foldl (fun w l => if t.levelOf w < t.levelOf l ∨ w = 0 then l else w) 0
  ⟨clause, asserted, if top = 0 then 0 else t.levelOf top, top,
    (levelsOf t clause.literals).length, d.resolved ++ clause.literals, d.used⟩

end Variability.Sat
