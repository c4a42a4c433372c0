-- Numbers with one decimal place.
import Variability.Decimal.Binary64

namespace Variability.Decimal

/-- `10 · mantissa · 2 ^ exponent`, rounded to a whole number; a half goes to
the even neighbour. -/
def tenths (mantissa : Nat) (exponent : Int) : Nat :=
  roundDiv (10 * mantissa * wholePower 2 exponent) (wholePower 2 (-exponent))

/-- A number with one place behind the point, rounded from its exact value. -/
def onePlace (x : Float) : String :=
  match binary? x with
  | none => if x.isNaN then "nan" else if isNegative x then "-inf" else "inf"
  | some b =>
    let n := tenths b.mantissa b.exponent
    (if b.negative then "-" else "") ++ toString (n / 10) ++ "." ++ toString (n % 10)

end Variability.Decimal
