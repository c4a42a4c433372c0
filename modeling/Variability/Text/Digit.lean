-- Decimal digits of every script, as the numbers of a text may be written
-- with them.

namespace Variability.Text

/-- The zeros of the runs of ten decimal digits (Unicode 14, category Nd), in
ascending order. The digits of a run follow its zero. -/
def decimalZeros : List Nat :=
  [0x30, 0x660, 0x6f0, 0x7c0, 0x966, 0x9e6, 0xa66, 0xae6, 0xb66, 0xbe6, 0xc66, 0xce6, 0xd66,
    0xde6, 0xe50, 0xed0, 0xf20, 0x1040, 0x1090, 0x17e0, 0x1810, 0x1946, 0x19d0, 0x1a80, 0x1a90,
    0x1b50, 0x1bb0, 0x1c40, 0x1c50, 0xa620, 0xa8d0, 0xa900, 0xa9d0, 0xa9f0, 0xaa50, 0xabf0,
    0xff10, 0x104a0, 0x10d30, 0x11066, 0x110f0, 0x11136, 0x111d0, 0x112f0, 0x11450, 0x114d0,
    0x11650, 0x116c0, 0x11730, 0x118e0, 0x11950, 0x11c50, 0x11d50, 0x11da0, 0x16a60, 0x16ac0,
    0x16b50, 0x1d7ce, 0x1d7d8, 0x1d7e2, 0x1d7ec, 0x1d7f6, 0x1e140, 0x1e2f0, 0x1e950, 0x1fbf0]

/-- The value of a decimal digit. -/
def digitValue? (c : Char) : Option Nat :=
  (decimalZeros.find? fun start => start ≤ c.toNat && c.toNat < start + 10).map (c.toNat - ·)

def isDecimalDigit (c : Char) : Bool := (digitValue? c).isSome

theorem digitValue?_lt {c : Char} {d : Nat} (h : digitValue? c = some d) : d < 10 := by
  obtain ⟨start, hs, rfl⟩ := Option.map_eq_some_iff.1 h
  have := List.find?_some hs
  simp only [Bool.and_eq_true, decide_eq_true_eq] at this
  omega

/-! ## Numbers -/

/-- Joins each two neighbouring digits, least first, into one digit of the
squared base. -/
def pairDigits (base : Nat) : List Nat → List Nat
  | low :: high :: rest => (low + base * high) :: pairDigits base rest
  | digits => digits

/-- The number of digits in any base, least first, in so many rounds of
pairing. Each round halves the digits. -/
def numberWithin : Nat → Nat → List Nat → Nat
  | 0, base, digits => digits.foldr (fun digit n => digit + base * n) 0
  | _ + 1, _, [] => 0
  | _ + 1, _, [digit] => digit
  | rounds + 1, base, digits => numberWithin rounds (base * base) (pairDigits base digits)

/-- The number that a run of digit values writes. -/
def numberOf (digits : List Nat) : Nat := numberWithin digits.length 10 digits.reverse

theorem foldr_pairDigits (base : Nat) (digits : List Nat) :
    (pairDigits base digits).foldr (fun d n => d + base * base * n) 0 =
      digits.foldr (fun d n => d + base * n) 0 := by
  fun_induction pairDigits base digits with
  | case1 low high rest ih =>
    simp only [List.foldr_cons]
    rw [ih, Nat.mul_add, Nat.mul_assoc, Nat.add_assoc]
  | case2 digits h =>
    match digits with
    | [] => rfl
    | [d] => simp
    | a :: b :: r => exact absurd rfl (h a b r)

theorem numberWithin_eq_foldr (rounds base : Nat) (digits : List Nat) :
    numberWithin rounds base digits = digits.foldr (fun d n => d + base * n) 0 := by
  fun_induction numberWithin rounds base digits with
  | case1 => rfl
  | case2 => rfl
  | case3 => simp
  | case4 rounds base digits h1 h2 ih => rw [ih, foldr_pairDigits]

/-- Every digit counts ten times as much as the next one. -/
theorem numberOf_eq_foldl (digits : List Nat) :
    numberOf digits = digits.foldl (fun n d => 10 * n + d) 0 := by
  rw [numberOf, numberWithin_eq_foldr, List.foldr_reverse]
  simp only [Nat.add_comm]

end Variability.Text
