-- Formulas in conjunctive normal form, with names for some of the variables.
import Variability.Data.Table

namespace Variability

/-- A disjunction of variables and negated variables, written as positive and
negative numbers. -/
abbrev Clause := List Int

namespace Cnf

/-! ## Violations -/

/-- What a document breaks. The count of variables is missing where it is
itself not valid. -/
inductive Violation
  | negativeCount
  | emptyClause (index : Nat)
  | zeroLiteral (index : Nat)
  | literalOutside (literal count : Int) (index : Nat)
  | nameOutside (v : Int) (count : Option Int)
deriving DecidableEq, Repr

/-- A count as messages show it. -/
def countText : Option Int → String
  | some n => toString n
  | none => "None"

def Violation.message : Violation → String
  | .negativeCount => "The number of variables is negative"
  | .emptyClause index => s!"Clause {index} is empty"
  | .zeroLiteral index => s!"Literal 0 is invalid in clause {index}"
  | .literalOutside literal count index =>
    s!"Literal {literal} exceeds num_vars {count} in clause {index}"
  | .nameOutside v count => s!"Named variable {v} outside 1.." ++ countText count

def exceeds (n : Int) : Option Int → Bool
  | some count => count < n
  | none => false

def literalViolation? (count : Option Int) (index : Nat) (l : Int) : Option Violation :=
  if l = 0 then some (.zeroLiteral index)
  else
    match count with
    | some n => if n < l.natAbs then some (.literalOutside l n index) else none
    | none => none

def clauseViolation? (count : Option Int) (index : Nat) (c : Clause) : Option Violation :=
  if c = [] then some (.emptyClause index) else c.findSome? (literalViolation? count index)

/-- The first violation among the clauses. -/
def clausesViolation? (count : Option Int) (cs : List Clause) : Option Violation :=
  cs.zipIdx.findSome? fun p => clauseViolation? count p.2 p.1

/-- The first violation among the named variables. -/
def namesViolation? (count : Option Int) (vs : List Int) : Option Violation :=
  vs.findSome? fun v =>
    if v ≤ 0 || exceeds v count then some (.nameOutside v count) else none

/-! ## Documents -/

/-- Every clause has a literal, and every literal is one of `count`
variables. -/
def ClausesWithin (count : Nat) (cs : List Clause) : Prop :=
  ∀ c ∈ cs, c ≠ [] ∧ ∀ l ∈ c, l ≠ 0 ∧ l.natAbs ≤ count

/-- Every variable is one of `1..count`. -/
def VariablesWithin (count : Nat) (vs : List Int) : Prop := ∀ v ∈ vs, 0 < v ∧ v ≤ count

structure Document where
  varCount : Nat
  clauses : List Clause
  names : Table Int String
  clauses_within : ClausesWithin varCount clauses
  names_within : VariablesWithin varCount names.keys

theorem clausesViolation?_eq_none_iff {count : Nat} {cs : List Clause} :
    clausesViolation? (some (count : Int)) cs = none ↔ ClausesWithin count cs := by
  have hc : ∀ i c, clauseViolation? (some (count : Int)) i c = none ↔
      c ≠ [] ∧ ∀ l ∈ c, l ≠ 0 ∧ l.natAbs ≤ count := by
    intro i c
    by_cases h : c = []
    · simp [clauseViolation?, h]
    · simp only [clauseViolation?, h, if_false, List.findSome?_eq_none_iff, ne_eq,
        not_false_eq_true, true_and]
      refine forall_congr' fun l => forall_congr' fun _ => ?_
      by_cases h0 : l = 0
      · simp [literalViolation?, h0]
      · by_cases hl : (count : Int) < l.natAbs
        · simp only [literalViolation?, h0, hl, if_true, if_false, not_false_eq_true, true_and]
          simp; omega
        · simp only [literalViolation?, h0, hl, if_false, not_false_eq_true, true_and, true_iff]
          omega
  unfold clausesViolation? ClausesWithin
  rw [List.findSome?_eq_none_iff]
  constructor
  · intro h c hcs
    obtain ⟨i, hi, hget⟩ := List.getElem_of_mem hcs
    have hmem : (c, i) ∈ cs.zipIdx :=
      List.mem_zipIdx_iff_getElem?.2 (by simp [List.getElem?_eq_getElem hi, hget])
    exact (hc i c).1 (h (c, i) hmem)
  · intro h p hp
    exact (hc p.2 p.1).2 (h p.1 (List.fst_mem_of_mem_zipIdx hp))

theorem namesViolation?_eq_none_iff {count : Nat} {vs : List Int} :
    namesViolation? (some (count : Int)) vs = none ↔ VariablesWithin count vs := by
  unfold namesViolation? VariablesWithin exceeds
  rw [List.findSome?_eq_none_iff]
  refine forall_congr' fun v => forall_congr' fun _ => ?_
  by_cases h : v ≤ 0 ∨ (count : Int) < v
  · have : (v ≤ 0 || decide ((count : Int) < v)) = true := by simpa using h
    simp only [this, if_true]
    simp; omega
  · have : (v ≤ 0 || decide ((count : Int) < v)) = false := by simpa using h
    simp only [this, Bool.false_eq_true, if_false, true_iff]
    omega

namespace Document

/-- The violations of the parts, those of the count, of the clauses and of the
names in this order, at most one of each. -/
def violations (count : Int) (clauses : List Clause) (names : Table Int String) :
    List Violation :=
  if count < 0 then
    .negativeCount :: ((clausesViolation? none clauses).toList ++
      (namesViolation? none names.keys).toList)
  else
    (clausesViolation? (some count) clauses).toList ++
      (namesViolation? (some count) names.keys).toList

/-- The document of parts that violate nothing. -/
def ofParts (count : Int) (clauses : List Clause) (names : Table Int String) :
    Except (List Violation) Document :=
  if h : violations count clauses names = [] then
    have hn : ¬ count < 0 := fun hlt => by simp [violations, hlt] at h
    have hc : ((count.toNat : Nat) : Int) = count := Int.toNat_of_nonneg (by omega)
    have hboth : clausesViolation? (some count) clauses = none ∧
        namesViolation? (some count) names.keys = none := by
      simpa [violations, hn] using h
    .ok ⟨count.toNat, clauses, names,
      clausesViolation?_eq_none_iff.1 (by rw [hc]; exact hboth.1),
      namesViolation?_eq_none_iff.1 (by rw [hc]; exact hboth.2)⟩
  else .error (violations count clauses names)

end Document

end Cnf

end Variability
