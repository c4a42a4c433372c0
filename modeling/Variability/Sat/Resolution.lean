-- Resolution: what follows from two clauses that disagree on a variable. A
-- clause goes together with the evidence that it follows.
import Variability.Cnf.Valuation

namespace Variability.Sat

open Cnf

/-- A clause that holds wherever `models` does. -/
structure Consequence (models : Valuation → Prop) where
  literals : Clause
  holds : ∀ v, models v → clauseHolds v literals = true

/-! ## Resolvents -/

/-- The literals of both clauses, each once if they are in ascending order,
without `l` of the first and without `-l` of the second. -/
def resolvent (l : Int) : Clause → Clause → Clause
  | [], d => d.filter (· ≠ -l)
  | c, [] => c.filter (· ≠ l)
  | a :: c, b :: d =>
    if a = l then resolvent l c (b :: d)
    else if b = -l then resolvent l (a :: c) d
    else if a < b then a :: resolvent l c (b :: d)
    else if b < a then b :: resolvent l (a :: c) d
    else a :: resolvent l c d
termination_by c d => c.length + d.length

theorem mem_resolvent {l k : Int} {c d : Clause} (h : k ∈ c ∧ k ≠ l ∨ k ∈ d ∧ k ≠ -l) :
    k ∈ resolvent l c d := by
  fun_induction resolvent l c d <;> grind

/-- Whichever way a valuation takes the variable, one of the clauses has to
hold without it. -/
theorem clauseHolds_resolvent {v : Valuation} {l : Int} (hl : l ≠ 0) {c d : Clause}
    (hc : clauseHolds v c = true) (hd : clauseHolds v d = true) :
    clauseHolds v (resolvent l c d) = true := by
  obtain ⟨j, hj, hjv⟩ := List.any_eq_true.1 hc
  obtain ⟨k, hk, hkv⟩ := List.any_eq_true.1 hd
  by_cases h : j = l
  · refine List.any_eq_true.2 ⟨k, mem_resolvent (.inr ⟨hk, fun hkl => ?_⟩), hkv⟩
    rw [hkl, literalHolds_neg hl, ← h, hjv] at hkv
    cases hkv
  · exact List.any_eq_true.2 ⟨j, mem_resolvent (.inl ⟨hj, h⟩), hjv⟩

namespace Consequence

variable {models : Valuation → Prop}

/-- The resolvent of `c`, which has the literal `l`, and `d`, which has its
negation. -/
def resolve (l : Int) (c d : Consequence models) : Consequence models :=
  if h : l = 0 then c
  else
    ⟨resolvent l c.literals d.literals,
      fun v hv => clauseHolds_resolvent h (c.holds v hv) (d.holds v hv)⟩

/-- A clause that always holds. -/
def trivial : Consequence models where
  literals := [1, -1]
  holds v _ := by cases h : v 1 <;> simp [clauseHolds, literalHolds, h]

/-- Where the empty clause follows, nothing is a model. -/
theorem not_models (c : Consequence models) (h : c.literals = []) (v : Valuation) : ¬ models v := by
  intro hv
  have := c.holds v hv
  rw [h] at this
  cases this

end Consequence

/-! ## Parts of clauses -/

/-- Whether all literals of a clause occur in another one, both in ascending
order. -/
def isPart : Clause → Clause → Bool
  | [], _ => true
  | _ :: _, [] => false
  | a :: c, b :: d => if a = b then isPart c d else b < a && isPart (a :: c) d

theorem subset_of_isPart {c d : Clause} (h : isPart c d = true) : c ⊆ d := by
  fun_induction isPart c d <;> grind

/-- A clause with more literals holds as well. -/
theorem clauseHolds_of_subset {v : Valuation} {c d : Clause} (h : c ⊆ d)
    (hc : clauseHolds v c = true) : clauseHolds v d = true := by
  obtain ⟨l, hl, hlv⟩ := List.any_eq_true.1 hc
  exact List.any_eq_true.2 ⟨l, h hl, hlv⟩

/-! ## Clauses in order -/

/-- Drops a literal that repeats the one before it. -/
def dropRepeats : Clause → Clause
  | a :: b :: c => if a = b then dropRepeats (b :: c) else a :: dropRepeats (b :: c)
  | c => c

theorem mem_dropRepeats {l : Int} {c : Clause} : l ∈ dropRepeats c ↔ l ∈ c := by
  fun_induction dropRepeats c <;> grind

/-- The literals of a clause in ascending order, each once. -/
def inOrder (c : Clause) : Clause := dropRepeats (c.mergeSort fun a b => decide (a ≤ b))

theorem clauseHolds_inOrder (v : Valuation) (c : Clause) :
    clauseHolds v (inOrder c) = clauseHolds v c := by
  rw [Bool.eq_iff_iff]
  simp [clauseHolds, inOrder, mem_dropRepeats, List.mem_mergeSort]

end Variability.Sat
