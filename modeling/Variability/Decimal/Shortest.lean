-- The shortest decimal text that reads back as the same number.
import Variability.Decimal.Binary64

namespace Variability.Decimal

/-! ## The digits -/

/-- A positive fraction and the bounds between which a decimal reads back as
it. The bounds belong to the range if `closed`. -/
structure Range where
  value : Nat
  low : Nat
  high : Nat
  denominator : Nat
  closed : Bool

/-- The range of a number `mantissa · 2 ^ exponent`. Below a power of two the
neighbour is nearer than above. -/
def rangeOf (mantissa : Nat) (exponent : Int) : Range :=
  let narrow := mantissa = hiddenBit ∧ leastExponent < exponent
  let up := wholePower 2 exponent
  let down := wholePower 2 (-exponent)
  { value := 4 * mantissa * up
    low := (4 * mantissa - if narrow then 1 else 2) * up
    high := (4 * mantissa + 2) * up
    denominator := 4 * down
    closed := mantissa % 2 = 0 }

/-- Whether `n / d` lies in the range. -/
def Range.holds (r : Range) (n d : Nat) : Bool :=
  let x := n * r.denominator
  let low := r.low * d
  let high := r.high * d
  if r.closed then low ≤ x && x ≤ high else low < x && x < high

/-- The largest `k` with `10 ^ k ≤ n / d`, looked for upwards from `start`
with `steps` steps. -/
def decimalExponent (n d : Nat) : Nat → Int → Int
  | 0, k => k
  | steps + 1, k =>
    let next := k + 1
    let reached :=
      if 0 ≤ next then decide (d * wholePower 10 next ≤ n)
      else decide (d ≤ n * wholePower 10 (-next))
    if reached then decimalExponent n d steps next else k

/-- A power of ten that is at most `n / d` and at least a tenth of a tenth
of it. -/
def exponentGuess (n d : Nat) : Int := ((n.log2 : Int) - d.log2 - 1) * 30103 / 100000 - 1

/-- Decimal digits, and the power of ten of the last one. -/
structure Digits where
  number : Nat
  power : Int
deriving DecidableEq, Repr

/-- The point of the grid of multiples of `10 ^ power` that lies in the range
and is nearest to its value; of two equally near the even one. -/
def gridPoint? (r : Range) (power : Int) : Option Digits :=
  let up := wholePower 10 power
  let down := wholePower 10 (-power)
  let below := r.value * down / (r.denominator * up)
  let holds := fun n : Nat => r.holds (n * up) down
  match holds below, holds (below + 1) with
  | false, false => none
  | true, false => some ⟨below, power⟩
  | false, true => some ⟨below + 1, power⟩
  | true, true => some ⟨roundDiv (r.value * down) (r.denominator * up), power⟩

/-- Tries ever finer grids, from `10 ^ power` down. -/
def shortestFrom (r : Range) : Nat → Int → Digits
  | 0, power => ⟨r.value * wholePower 10 (-power) / (r.denominator * wholePower 10 power), power⟩
  | steps + 1, power =>
    match gridPoint? r power with
    | some digits => digits
    | none => shortestFrom r steps (power - 1)

/-- The shortest decimal that reads back as `mantissa · 2 ^ exponent`. -/
def shortest (mantissa : Nat) (exponent : Int) : Digits :=
  let r := rangeOf mantissa exponent
  shortestFrom r 17 (decimalExponent r.value r.denominator 4 (exponentGuess r.value r.denominator))

/-! ## The text -/

/-- Drops zeros at the end. -/
def dropTrailingZeros (cs : List Char) : List Char := (cs.reverse.dropWhile (· = '0')).reverse

/-- Numbers from `10 ^ -4` up to `10 ^ 16` are written with all their places,
others with a power of ten of at least two digits. -/
def positional (point : Int) : Bool := -4 < point && point ≤ 16

/-- The digits `0.ds · 10 ^ point` as text. -/
def digitsText (ds : List Char) (point : Int) : List Char :=
  if positional point then
    if point ≤ 0 then "0.".toList ++ List.replicate (-point).toNat '0' ++ ds
    else if ds.length ≤ point then
      ds ++ List.replicate (point.toNat - ds.length) '0' ++ ".0".toList
    else ds.take point.toNat ++ '.' :: ds.drop point.toNat
  else
    let power := point - 1
    let places := (toString power.natAbs).toList
    ds.take 1 ++ (if ds.length = 1 then [] else '.' :: ds.drop 1) ++
      ['e', if power < 0 then '-' else '+'] ++ List.replicate (2 - places.length) '0' ++ places

/-- The text of a number. -/
def text (x : Float) : String :=
  match binary? x with
  | none =>
    if x.isNaN then "nan" else if isNegative x then "-inf" else "inf"
  | some b =>
    let magnitude :=
      if b.mantissa = 0 then "0.0".toList
      else
        let digits := shortest b.mantissa b.exponent
        let all := (toString digits.number).toList
        digitsText (dropTrailingZeros all) (all.length + digits.power)
    String.ofList (if b.negative then '-' :: magnitude else magnitude)

end Variability.Decimal
