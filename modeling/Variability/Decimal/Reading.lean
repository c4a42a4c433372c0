-- Decimal fractions in a text, read as the nearest double-precision number.
import Variability.Decimal.Binary64
import Variability.Text.Digit

namespace Variability.Decimal

/-- A whole number times a power of ten above this one is infinite, and one
below the reciprocal rounds to zero. -/
def powerLimit : Nat := 400

/-- The bits of the number nearest to `n · 10 ^ power`. -/
def scaledBits (n : Nat) (power : Int) : Nat :=
  if n = 0 then 0
  else if powerLimit < power then infinityBits
  else if power < -(powerLimit + n.log2 : Nat) then 0
  else if 0 ≤ power then nearestBits (n * wholePower 10 power) 1
  else nearestBits n (wholePower 10 (-power))

/-- The number nearest to `± whole.fraction · 10 ^ exponent`, where `whole` and
`fraction` are runs of digits. -/
def ofDigits (negative : Bool) (whole fraction : List Nat) (exponent : Int) : Float :=
  ofMagnitude negative
    (scaledBits (Text.numberOf (whole ++ fraction)) (exponent - fraction.length))

end Variability.Decimal
