-- Valuations: which literals, clauses and formulas the values of the
-- variables make true.
import Variability.Cnf.Document

namespace Variability

/-- A truth value for every variable. -/
abbrev Valuation := Nat → Bool

namespace Cnf

/-! ## Truth -/

/-- A negative number is the negation of its variable. -/
@[inline] def literalHolds (v : Valuation) (l : Int) : Bool :=
  if l < 0 then !v l.natAbs else v l.natAbs

/-- Some literal holds. -/
@[inline] def clauseHolds (v : Valuation) (c : Clause) : Bool := c.any (literalHolds v)

/-- Every clause holds. -/
def clausesHold (v : Valuation) (cs : List Clause) : Bool := cs.all (clauseHolds v)

theorem literalHolds_neg {v : Valuation} {l : Int} (hl : l ≠ 0) :
    literalHolds v (-l) = !literalHolds v l := by
  unfold literalHolds
  by_cases h : l < 0
  · have : ¬ -l < 0 := by omega
    rw [if_neg this, if_pos h, Int.natAbs_neg, Bool.not_not]
  · have : -l < 0 := by omega
    rw [if_pos this, if_neg h, Int.natAbs_neg]

theorem clausesHold_append (v : Valuation) (cs ds : List Clause) :
    clausesHold v (cs ++ ds) = (clausesHold v cs && clausesHold v ds) :=
  List.all_append

theorem clausesHold_eq_true_iff {v : Valuation} {cs : List Clause} :
    clausesHold v cs = true ↔ ∀ c ∈ cs, ∃ l ∈ c, literalHolds v l = true := by
  simp [clausesHold, clauseHolds, List.any_eq_true]

/-! ## Variables that matter -/

/-- Some clause has the variable in it. -/
def Mentions (cs : List Clause) (n : Nat) : Prop := ∃ c ∈ cs, ∃ l ∈ c, l.natAbs = n

/-- Only the variables that are mentioned count. -/
theorem clausesHold_congr {v w : Valuation} {cs : List Clause}
    (h : ∀ n, Mentions cs n → v n = w n) (hv : clausesHold v cs = true) :
    clausesHold w cs = true := by
  rw [clausesHold_eq_true_iff] at hv ⊢
  intro c hc
  obtain ⟨l, hl, hlv⟩ := hv c hc
  refine ⟨l, hl, ?_⟩
  unfold literalHolds at hlv ⊢
  rwa [← h l.natAbs ⟨c, hc, l, hl, rfl⟩]

/-! ## Lists of literals as valuations -/

/-- The listed positive literals are true, all other variables false. -/
def completion (literals : List Int) : Valuation := fun n => literals.contains (n : Int)

/-- Literals that can hold together: no zero, and no literal with its
negation. -/
def Consistent (literals : List Int) : Prop := ∀ l ∈ literals, l ≠ 0 ∧ -l ∉ literals

theorem literalHolds_completion {literals : List Int} (h : Consistent literals) {l : Int}
    (hl : l ∈ literals) : literalHolds (completion literals) l = true := by
  obtain ⟨_, hneg⟩ := h l hl
  unfold literalHolds completion
  by_cases hlt : l < 0
  · have : (l.natAbs : Int) = -l := by omega
    simpa [hlt, this] using hneg
  · have : (l.natAbs : Int) = l := by omega
    simpa [hlt, this] using hl

end Cnf

end Variability
