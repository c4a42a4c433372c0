-- Double-precision numbers as exact fractions: what one stands for, and
-- which one is nearest to a fraction.

namespace Variability.Decimal

/-! ## Powers -/

/-- The power of `base` with a whole exponent, or one if that is negative. -/
def wholePower (base : Nat) (e : Int) : Nat := Nat.pow base e.toNat

/-! ## Rounding a quotient -/

/-- The whole number nearest to `n / d`; of two equally near the even one. -/
def roundDiv (n d : Nat) : Nat :=
  let q := n / d
  let twice := 2 * (n % d)
  if twice < d then q else if d < twice then q + 1 else q + q % 2

/-- `n / (d · 2 ^ e)` as a fraction. -/
def scaleDown (n d : Nat) (e : Int) : Nat × Nat :=
  if 0 ≤ e then (n, d * wholePower 2 e) else (n * wholePower 2 (-e), d)

/-! ## From a number -/

/-- The number `± mantissa · 2 ^ exponent`. -/
structure Binary where
  negative : Bool
  mantissa : Nat
  exponent : Int
deriving DecidableEq, Repr

/-- Numbers from `2 ^ 52` on have 53 significant bits. -/
def hiddenBit : Nat := wholePower 2 52

/-- The exponent of the smallest numbers. -/
def leastExponent : Int := -1074

/-- The bit that negative numbers have set. -/
def signBit : Nat := wholePower 2 63

def isNegative (x : Float) : Bool := signBit ≤ x.toBits.toNat

/-- What a number stands for, unless it is infinite or not a number. -/
def binary? (x : Float) : Option Binary :=
  let bits := x.toBits.toNat
  let field := bits / hiddenBit % 2048
  let fraction := bits % hiddenBit
  if field = 2047 then none
  else if field = 0 then some ⟨isNegative x, fraction, leastExponent⟩
  else some ⟨isNegative x, hiddenBit + fraction, (field : Int) - 1075⟩

/-! ## To a number -/

def infinityBits : Nat := 2047 * hiddenBit

/-- The exponent with which `n / d` has 53 significant bits, or the least
exponent if that is larger. -/
def exponentOf (n d : Nat) : Int :=
  let guess : Int := (n.log2 : Int) - d.log2 - 52
  let scaled := scaleDown n d guess
  max leastExponent (if scaled.1 < hiddenBit * scaled.2 then guess - 1 else guess)

/-- The bits of the number nearest to `n / d`. Halfway cases go to the even
mantissa, and what is too large becomes infinite. -/
def nearestBits (n d : Nat) : Nat :=
  if n = 0 then 0
  else
    let e := exponentOf n d
    let scaled := scaleDown n d e
    let mantissa := roundDiv scaled.1 scaled.2
    min infinityBits ((e - leastExponent).toNat * hiddenBit + mantissa)

/-- The number with the given sign and bits below the sign. -/
def ofMagnitude (negative : Bool) (bits : Nat) : Float :=
  Float.ofBits (UInt64.ofNat ((if negative then signBit else 0) + bits))

def nearest (negative : Bool) (n d : Nat) : Float := ofMagnitude negative (nearestBits n d)

/-- The number nearest to a whole number, if that is not too large. -/
def ofInt? (i : Int) : Option Float :=
  if nearestBits i.natAbs 1 = infinityBits then none else some (nearest (i < 0) i.natAbs 1)

/-- What is said of a whole number that is too large. -/
def tooLargeMessage : String := "int too large to convert to float"

/-- The whole number that `x` is, if it is one. -/
def wholeNumber? (x : Float) : Option Int :=
  match binary? x with
  | none => none
  | some b =>
    let magnitude? : Option Nat :=
      if 0 ≤ b.exponent then some (b.mantissa * wholePower 2 b.exponent)
      else
        let divisor := wholePower 2 (-b.exponent)
        if b.mantissa % divisor = 0 then some (b.mantissa / divisor) else none
    magnitude?.map fun n => if b.negative then -(n : Int) else n

end Variability.Decimal
