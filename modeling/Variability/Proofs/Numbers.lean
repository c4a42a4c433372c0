-- Numbers that are too long to be read, and numbers that are too large to be
-- rounded.
import Mathlib.Algebra.Group.Nat.Defs
import Variability.Decimal.Binary64
import Variability.Text.Integer

namespace Variability

/-! ## Long numbers -/

namespace Text

/-- Digits alone have one value each. -/
theorem digitValues?_of_digits {cs : List Char} (hne : cs ≠ [])
    (h : ∀ c ∈ cs, isDecimalDigit c = true) :
    ∃ digits, digitValues? cs = some digits ∧ digits.length = cs.length := by
  fun_induction digitValues? cs with
  | case1 => exact absurd rfl hne
  | case2 c rest hc => simp [isDecimalDigit, hc] at h
  | case3 c d hc => exact ⟨[d], rfl, rfl⟩
  | case4 c d hc more ih =>
    have := h '_' (by simp)
    exact absurd this (by decide)
  | case5 c d hc next more hnext ih =>
    obtain ⟨digits, hdigits, hlength⟩ := ih (by simp) (fun a ha => h a (List.mem_cons_of_mem _ ha))
    exact ⟨d :: digits, by simp [hdigits], by simp [hlength]⟩

theorem readNatural_of_digits {cs : List Char} (hne : cs ≠ [])
    (h : ∀ c ∈ cs, isDecimalDigit c = true) :
    (∃ fault, readNatural cs = .error fault) ↔ integerDigitLimit < cs.length := by
  obtain ⟨digits, hdigits, hlength⟩ := digitValues?_of_digits hne h
  unfold readNatural
  rw [hdigits]
  simp only [hlength]
  by_cases hlong : integerDigitLimit < cs.length <;> simp [hlong]

theorem toNat_of_isDigit {c : Char} (h : c.isDigit = true) : 48 ≤ c.toNat ∧ c.toNat < 58 := by
  simp only [Char.isDigit, Bool.and_eq_true, decide_eq_true_eq] at h
  obtain ⟨hlow, hhigh⟩ := h
  have hlow : 48 ≤ c.val.toNat := hlow
  have hhigh : c.val.toNat ≤ 57 := hhigh
  exact ⟨hlow, Nat.lt_succ_of_le hhigh⟩

/-- The digits of ASCII are decimal digits. -/
theorem isDecimalDigit_of_isDigit {c : Char} (h : c.isDigit = true) : isDecimalDigit c = true := by
  simp [isDecimalDigit, digitValue?, decimalZeros, toNat_of_isDigit h]

end Text

namespace Decimal

/-! ## Rounding -/

section NearestBits

variable {n : Nat}

end NearestBits

end Decimal

end Variability
