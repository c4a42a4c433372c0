-- The pair of parentheses around a text: which parentheses are partners, and
-- that unwrapping takes the outermost ones off exactly if they are.
import Variability.Proofs.WrittenTerms

namespace Variability.Condition

open Text

/-! ## Partners -/

/-- The parenthesis at `i` opens, the one at `j` closes, and every parenthesis
in between has its partner there. -/
def ArePartners (cs : List Char) (i j : Nat) : Prop :=
  ∃ front inner back, cs = front ++ '(' :: (inner ++ ')' :: back) ∧ Balanced inner ∧
    i = front.length ∧ j = front.length + (inner.length + 1)

section Partners

variable {cs : List Char}

/-- A text that closes more than it opens has a parenthesis that closes the last
one open before it. -/
theorem exists_close {k d e : Nat} (h : depth? (k + 1 + d) cs = some e) (he : e ≤ k) :
    ∃ inner back, cs = inner ++ ')' :: back ∧ depth? d inner = some 0 := by
  induction cs generalizing d with
  | nil =>
    have : k + 1 + d = e := Option.some.inj h
    omega
  | cons c cs ih =>
    by_cases hopen : c = '('
    · rw [hopen, depth?_open] at h
      obtain ⟨inner, back, rfl, hinner⟩ := ih (d := d + 1) h
      exact ⟨'(' :: inner, back, by rw [hopen]; rfl, by rwa [depth?_open]⟩
    · by_cases hclose : c = ')'
      · cases d with
        | zero => exact ⟨[], cs, by rw [hclose]; rfl, rfl⟩
        | succ d =>
          rw [hclose, show k + 1 + (d + 1) = k + 1 + d + 1 by omega, depth?_close_succ] at h
          obtain ⟨inner, back, rfl, hinner⟩ := ih h
          exact ⟨')' :: inner, back, by rw [hclose]; rfl, by rwa [depth?_close_succ]⟩
      · rw [depth?_cons hopen hclose] at h
        obtain ⟨inner, back, rfl, hinner⟩ := ih h
        exact ⟨c :: inner, back, rfl, by rwa [depth?_cons hopen hclose]⟩

/-- In a balanced text every parenthesis that opens has a partner. -/
theorem Balanced.exists_partner (front : List Char) {rest : List Char}
    (h : Balanced (front ++ '(' :: rest)) :
    ∃ inner back, rest = inner ++ ')' :: back ∧ Balanced inner := by
  obtain ⟨k, hk⟩ := exists_depth?_of_append h
  unfold Balanced at h
  rw [depth?_append, hk, Option.bind_some, depth?_open] at h
  exact exists_close (d := 0) h (Nat.zero_le k)

/-- A balanced text ends at the first parenthesis that closes more than it
opens. -/
theorem append_close_inj {xs ys xs' ys' : List Char} (hx : Balanced xs) (hx' : Balanced xs')
    (h : xs ++ ')' :: ys = xs' ++ ')' :: ys') : xs = xs' := by
  rcases List.append_eq_append_iff.mp h with ⟨more, hxs, hys⟩ | ⟨more, hxs, hys⟩
  · cases more with
    | nil => simpa using hxs.symm
    | cons c more =>
      obtain ⟨rfl, _⟩ := List.cons.inj hys
      exact absurd (hxs ▸ hx') (hx.not_close more)
  · cases more with
    | nil => simpa using hxs
    | cons c more =>
      obtain ⟨rfl, _⟩ := List.cons.inj hys
      exact absurd (hxs ▸ hx) (hx'.not_close more)

/-- A parenthesis has one partner at most. -/
theorem ArePartners.right_unique {i j k : Nat} (h : ArePartners cs i j)
    (h' : ArePartners cs i k) : j = k := by
  obtain ⟨front, inner, back, rfl, hinner, rfl, rfl⟩ := h
  obtain ⟨front', inner', back', hcs, hinner', hlength, rfl⟩ := h'
  obtain ⟨rfl, hrest⟩ := List.append_inj hcs hlength
  rw [append_close_inj hinner hinner' (List.cons.inj hrest).2]

theorem arePartners_zero_iff {j : Nat} : ArePartners cs 0 j ↔
    ∃ inner back, cs = '(' :: (inner ++ ')' :: back) ∧ Balanced inner ∧ j = inner.length + 1 := by
  constructor
  · rintro ⟨front, inner, back, hcs, hinner, hfront, hj⟩
    obtain rfl := List.length_eq_zero_iff.mp hfront.symm
    exact ⟨inner, back, hcs, hinner, by simpa using hj⟩
  · rintro ⟨inner, back, hcs, hinner, hj⟩
    exact ⟨[], inner, back, hcs, hinner, rfl, by simpa using hj⟩

/-- The first and the last character of a text are partners if it is a balanced
text in parentheses. -/
theorem arePartners_ends_iff : ArePartners cs 0 (cs.length - 1) ↔
    ∃ inner, cs = '(' :: (inner ++ [')']) ∧ Balanced inner := by
  rw [arePartners_zero_iff]
  constructor
  · rintro ⟨inner, back, rfl, hinner, hlength⟩
    simp only [List.length_cons, List.length_append] at hlength
    obtain rfl : back = [] := List.length_eq_zero_iff.mp (by omega)
    exact ⟨inner, rfl, hinner⟩
  · rintro ⟨inner, rfl, hinner⟩
    exact ⟨inner, [], rfl, hinner, by simp⟩

end Partners

/-! ## Unwrapping -/

section Unwrapping

variable {cs : List Char}

/-- What stands between the first and the last character of a balanced text is
balanced if none closes early. -/
theorem balanced_inner {inner : List Char} (h : Balanced ('(' :: (inner ++ [')'])))
    (hearly : closesEarly 1 (inner ++ [')']) = false) : Balanced inner := by
  obtain ⟨before, back, hsplit, hbefore⟩ := Balanced.exists_partner [] h
  rw [hsplit] at hearly
  obtain rfl := eq_nil_of_not_closesEarly hbefore hearly
  obtain ⟨rfl, _⟩ := List.append_inj' hsplit rfl
  exact hbefore

theorem unwrap_of_trim_eq {inner : List Char} (htrim : trim cs = '(' :: (inner ++ [')']))
    (hinner : Balanced inner) : unwrap cs = trim inner := by
  rw [← unwrap_parens hinner, ← htrim]
  exact unwrap_congr (trimmed_trim cs).trim_eq.symm

/-- A balanced text that is not enclosed is only trimmed. -/
theorem unwrap_of_not_enclosed (h : Balanced cs)
    (hends : ¬ ArePartners (trim cs) 0 ((trim cs).length - 1)) : unwrap cs = trim cs := by
  rcases unwrap_cases cs with hu | ⟨inner, htrim, hearly, _⟩
  · exact hu
  · have hinner := balanced_inner (htrim ▸ balanced_trim.mpr h) hearly
    exact absurd (arePartners_ends_iff.mpr ⟨inner, htrim, hinner⟩) hends

/-- Unwrapping loses no parenthesis without its partner. -/
theorem balanced_unwrap_iff : Balanced (unwrap cs) ↔ Balanced cs := by
  refine ⟨balanced_of_unwrap, fun h => ?_⟩
  rcases unwrap_cases cs with hu | ⟨inner, htrim, hearly, hu⟩
  · rw [hu]
    exact balanced_trim.mpr h
  · rw [hu, balanced_trim]
    exact balanced_inner (htrim ▸ balanced_trim.mpr h) hearly

end Unwrapping

/-- Of a balanced text, the first character and the last are taken off, with the
blanks inside them, exactly if they are the partners of each other: a
parenthesis that the text starts with has one partner. Any text is balanced
exactly if it is when it is unwrapped. -/
theorem unwrapping_takes_exactly_an_enclosing_pair_off (cs : List Char) :
    (Balanced cs →
      (∀ rest, trim cs = '(' :: rest → ∃! j, ArePartners (trim cs) 0 j) ∧
      (ArePartners (trim cs) 0 ((trim cs).length - 1) →
        unwrap cs = trim (trim cs).tail.dropLast) ∧
      (¬ ArePartners (trim cs) 0 ((trim cs).length - 1) → unwrap cs = trim cs)) ∧
    (Balanced (unwrap cs) ↔ Balanced cs) := by
  refine ⟨fun h => ⟨?_, ?_, unwrap_of_not_enclosed h⟩, balanced_unwrap_iff⟩
  · intro rest hrest
    obtain ⟨inner, back, hsplit, hinner⟩ :=
      Balanced.exists_partner [] (hrest ▸ balanced_trim.mpr h)
    have hpartners : ArePartners (trim cs) 0 (inner.length + 1) :=
      arePartners_zero_iff.mpr ⟨inner, back, hsplit ▸ hrest, hinner, rfl⟩
    exact ⟨_, hpartners, fun j hj => hj.right_unique hpartners⟩
  · intro hends
    obtain ⟨inner, htrim, hinner⟩ := arePartners_ends_iff.mp hends
    rw [unwrap_of_trim_eq htrim hinner, htrim, List.tail_cons, List.dropLast_concat]

/-- The outer pair of the one text encloses all of it, the first pair of the
other does not, and what is not closed is not made up for. -/
example : unwrap " ( (A) | (B) ) ".toList = "(A) | (B)".toList ∧
    unwrap "(A) | (B)".toList = "(A) | (B)".toList ∧ unwrap "(()".toList = "(".toList := by
  decide

end Variability.Condition
