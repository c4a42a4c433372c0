-- How whole numbers are written: which texts are read as a number, and as which
-- one.
import Mathlib.Data.Nat.Digits.Defs
import Mathlib.Tactic.IntervalCases
import Variability.Text.Integer

namespace Variability.Text

/-! ## Digits -/

/-- Digits of any script with their values, the first one first. One underscore
may stand between two of them. -/
inductive WritesDigits : List Char → List Nat → Prop
  | one {c : Char} {d : Nat} (hc : digitValue? c = some d) : WritesDigits [c] [d]
  | next {c : Char} {d : Nat} {cs : List Char} {ds : List Nat} (hc : digitValue? c = some d)
      (hcs : WritesDigits cs ds) : WritesDigits (c :: cs) (d :: ds)
  | underscore {c : Char} {d : Nat} {cs : List Char} {ds : List Nat}
      (hc : digitValue? c = some d) (hcs : WritesDigits cs ds) :
      WritesDigits (c :: '_' :: cs) (d :: ds)

section Digits

variable {cs : List Char} {ds : List Nat}

theorem WritesDigits.exists_cons (h : WritesDigits cs ds) :
    ∃ c rest, cs = c :: rest ∧ isDecimalDigit c = true := by
  cases h with
  | one hc => exact ⟨_, _, rfl, by rw [isDecimalDigit, hc]; rfl⟩
  | next hc => exact ⟨_, _, rfl, by rw [isDecimalDigit, hc]; rfl⟩
  | underscore hc => exact ⟨_, _, rfl, by rw [isDecimalDigit, hc]; rfl⟩

theorem WritesDigits.digitValues?_eq (h : WritesDigits cs ds) : digitValues? cs = some ds := by
  induction h with
  | one hc => simp [digitValues?, hc]
  | @next c d cs ds hc hcs ih =>
    -- The rest starts with a digit, and so it is not read behind an underscore.
    obtain ⟨e, rest, rfl, he⟩ := hcs.exists_cons
    have hmark : e ≠ '_' := by
      rintro rfl
      exact absurd he (by decide)
    rw [digitValues?]
    simp only [hc]
    rw [ih]
    rfl
  | underscore hc _ ih => simp [digitValues?, hc, ih]

theorem writesDigits_of_digitValues? (h : digitValues? cs = some ds) : WritesDigits cs ds := by
  fun_induction digitValues? cs generalizing ds with
  | case1 => cases h
  | case2 => cases h
  | case3 c d hc =>
    cases h
    exact .one hc
  | case4 c d hc more ih =>
    obtain ⟨rest, hrest, rfl⟩ := Option.map_eq_some_iff.mp h
    exact .underscore hc (ih hrest)
  | case5 c d hc next more _ ih =>
    obtain ⟨rest, hrest, rfl⟩ := Option.map_eq_some_iff.mp h
    exact .next hc (ih hrest)

theorem WritesDigits.concat {c : Char} {d : Nat} (h : WritesDigits cs ds)
    (hc : digitValue? c = some d) : WritesDigits (cs ++ [c]) (ds ++ [d]) := by
  induction h with
  | one hfirst => exact .next hfirst (.one hc)
  | next hfirst _ ih => exact .next hfirst ih
  | underscore hfirst _ ih => exact .underscore hfirst ih

end Digits

/-! ## Numbers -/

/-- The text writes the number in base ten, within the digit limit. -/
inductive WritesNatural : List Char → Nat → Prop
  | intro {cs : List Char} {ds : List Nat} (hdigits : WritesDigits cs ds)
      (hlimit : ds.length ≤ integerDigitLimit) :
      WritesNatural cs (Nat.ofDigits 10 ds.reverse)

/-- The text writes the number, with or without a sign. -/
inductive WritesInteger : List Char → Int → Prop
  | plain {cs : List Char} {n : Nat} (h : WritesNatural cs n) : WritesInteger cs n
  | plus {cs : List Char} {n : Nat} (h : WritesNatural cs n) : WritesInteger ('+' :: cs) n
  | minus {cs : List Char} {n : Nat} (h : WritesNatural cs n) : WritesInteger ('-' :: cs) (-n)

section Numbers

variable {cs : List Char} {n : Nat} {i : Int}

theorem numberOf_eq_ofDigits (ds : List Nat) : numberOf ds = Nat.ofDigits 10 ds.reverse := by
  rw [numberOf_eq_foldl, Nat.ofDigits_eq_foldr, List.foldr_reverse]
  simp only [Nat.cast_id, Nat.add_comm]

theorem readNatural_eq_ok_iff : readNatural cs = .ok n ↔ WritesNatural cs n := by
  unfold readNatural
  constructor
  · intro h
    split at h
    · cases h
    · rename_i ds hds
      split at h
      · cases h
      · cases h
        rw [numberOf_eq_ofDigits]
        exact .intro (writesDigits_of_digitValues? hds) (by omega)
  · rintro ⟨hdigits, hlimit⟩
    simp only [hdigits.digitValues?_eq, if_neg (Nat.not_lt.mpr hlimit), numberOf_eq_ofDigits]

theorem WritesNatural.exists_cons (h : WritesNatural cs n) :
    ∃ c rest, cs = c :: rest ∧ isDecimalDigit c = true := by
  cases h with
  | intro hdigits _ => exact hdigits.exists_cons

/-- A number without sign is not split. -/
theorem WritesNatural.splitSign_eq (h : WritesNatural cs n) : splitSign cs = (false, cs) := by
  obtain ⟨c, rest, rfl, hc⟩ := h.exists_cons
  unfold splitSign
  split
  · rename_i hcons
    rw [(List.cons.inj hcons).1] at hc
    exact absurd hc (by decide)
  · rename_i hcons
    rw [(List.cons.inj hcons).1] at hc
    exact absurd hc (by decide)
  · rfl

theorem readInteger_eq_ok_iff : readInteger cs = .ok i ↔ WritesInteger cs i := by
  unfold readInteger
  constructor
  · intro h
    obtain ⟨n, hread, hsigned⟩ : ∃ n, readNatural (splitSign cs).2 = .ok n ∧
        signed (splitSign cs).1 n = i := by
      cases hread : readNatural (splitSign cs).2 with
      | error fault => simp [hread, Except.map] at h
      | ok n => exact ⟨n, rfl, by simpa [hread, Except.map] using h⟩
    have hwrites := readNatural_eq_ok_iff.mp hread
    subst hsigned
    unfold splitSign at hwrites ⊢
    split at hwrites
    · exact .minus hwrites
    · exact .plus hwrites
    · exact .plain hwrites
  · intro h
    cases h with
    | plain h =>
      rw [h.splitSign_eq]
      simp only [readNatural_eq_ok_iff.mpr h]
      rfl
    | plus h =>
      simp only [splitSign, readNatural_eq_ok_iff.mpr h]
      rfl
    | minus h =>
      simp only [splitSign, readNatural_eq_ok_iff.mpr h]
      rfl

/-- A number starts with a sign or a digit. -/
theorem WritesInteger.exists_cons (h : WritesInteger cs i) :
    ∃ c rest, cs = c :: rest ∧ (c = '+' ∨ c = '-' ∨ isDecimalDigit c = true) := by
  cases h with
  | plain h =>
    obtain ⟨c, rest, rfl, hc⟩ := h.exists_cons
    exact ⟨c, rest, rfl, .inr (.inr hc)⟩
  | plus h => exact ⟨_, _, rfl, .inl rfl⟩
  | minus h => exact ⟨_, _, rfl, .inr (.inl rfl)⟩

end Numbers

/-! ## The usual way -/

theorem digitValue?_digitChar {d : Nat} (h : d < 10) : digitValue? d.digitChar = some d := by
  interval_cases d <;> rfl

theorem exists_writesDigits_toDigits (n : Nat) :
    ∃ ds, WritesDigits (Nat.toDigits 10 n) ds ∧ Nat.ofDigits 10 ds.reverse = n ∧
      ds.length = (Nat.toDigits 10 n).length := by
  induction n using Nat.strongRecOn with
  | ind n ih =>
    by_cases hn : n < 10
    · rw [Nat.toDigits_of_lt_base hn]
      exact ⟨[n], .one (digitValue?_digitChar hn), by simp, rfl⟩
    · obtain ⟨ds, hdigits, hvalue, hlength⟩ := ih (n / 10) (by omega)
      rw [Nat.toDigits_of_base_le (by omega) (by omega)]
      refine ⟨ds ++ [n % 10], hdigits.concat (digitValue?_digitChar (by omega)), ?_, ?_⟩
      · rw [List.reverse_append, List.reverse_singleton, List.singleton_append, Nat.ofDigits_cons,
          hvalue]
        omega
      · rw [List.length_append, List.length_append, hlength]
        rfl

theorem writesNatural_toString {n : Nat} (h : n < 10 ^ integerDigitLimit) :
    WritesNatural (toString n).toList n := by
  obtain ⟨ds, hdigits, hvalue, hlength⟩ := exists_writesDigits_toDigits n
  rw [Nat.toString_eq_repr, Nat.toList_repr]
  have hlimit : ds.length ≤ integerDigitLimit := by
    rw [hlength, Nat.length_toDigits_le_iff (by decide) (by decide)]
    exact h
  have hwrites := WritesNatural.intro hdigits hlimit
  rwa [hvalue] at hwrites

theorem writesInteger_toString {i : Int} (h : i.natAbs < 10 ^ integerDigitLimit) :
    WritesInteger (toString i).toList i := by
  have hwrites := writesNatural_toString h
  cases i with
  | ofNat n => exact .plain hwrites
  | negSucc n =>
    have htext : (toString (Int.negSucc n)).toList = '-' :: (toString (n + 1)).toList :=
      String.toList_append
    rw [htext]
    exact .minus hwrites

end Variability.Text
