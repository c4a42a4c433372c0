-- Where reading JSON is given up: what a number that is too long, or nesting
-- that is too deep, says of the text.
import Mathlib.Data.List.TakeWhile
import Variability.Proofs.Numbers
import Variability.Raw.Json

namespace Variability.Json

open Text

/-! ## What a fault says of the text -/

def isOpening (c : Char) : Bool := c == '[' || c == '{'

/-- What stands in a text in which values may nest `room` deep: more digits in a
row than are read of a number, or more opening brackets than may nest. -/
def Shows (room : Nat) (cs : List Char) : JsonFault → Prop
  | .malformed => True
  | .longInteger _ => ∃ digits, digits <:+: cs ∧ (∀ c ∈ digits, c.isDigit = true) ∧
      integerDigitLimit < digits.length
  | .tooDeep _ => room < cs.countP isOpening

/-- A result of reading the start of a text: what is left of the text, or a
fault that the text shows. -/
def ReadOf {α : Type} (room : Nat) (cs : List Char) : Except JsonFault (α × List Char) → Prop
  | .ok (_, rest) => rest <:+ cs
  | .error fault => Shows room cs fault

section Shows

variable {α β : Type} {room : Nat} {cs more : List Char} {fault : JsonFault}

theorem ReadOf.map {r : Except JsonFault (α × List Char)} (h : ReadOf room cs r) (f : α → β) :
    ReadOf room cs (r.map fun p => (f p.1, p.2)) := by
  cases r with
  | ok found => exact h
  | error fault => exact h

/-- One more bracket has one more level below it. -/
theorem ReadOf.opening {r : Except JsonFault (α × List Char)} (h : ReadOf room cs r) {c : Char}
    (hc : isOpening c = true) : ReadOf (room + 1) (c :: cs) r := by
  cases r with
  | ok found => exact List.IsSuffix.trans h (List.suffix_cons c cs)
  | error fault =>
    cases fault with
    | malformed => trivial
    | longInteger f =>
      obtain ⟨digits, hinfix, hdigits⟩ := h
      exact ⟨digits, hinfix.trans (List.suffix_cons c cs).isInfix, hdigits⟩
    | tooDeep container =>
      have hcount : room < cs.countP isOpening := h
      show room + 1 < (c :: cs).countP isOpening
      rw [List.countP_cons_of_pos hc]
      omega

end Shows

/-! ## Leaves -/

section Leaves

variable {cs rest : List Char}

end Leaves

/-! ## Values -/

section Values

variable {fuel : Nat}

end Values

end Variability.Json
