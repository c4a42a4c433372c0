-- Readings of a clock, and the time between two of them.
import Variability.Decimal.Fixed

namespace Variability

/-! ## Numbers -/

/-- A whole number, or a number of double precision. -/
inductive Number
  | whole (i : Int)
  | float (x : Float)

namespace Number

/-- The nearest number of double precision, if a whole number is not too
large. -/
def toFloat? : Number → Option Float
  | whole i => Decimal.ofInt? i
  | float x => some x

/-- Whole numbers are computed with exactly; if one of two numbers is not whole,
both are taken in double precision. -/
def combine? (onWhole : Int → Int → Int) (onFloat : Float → Float → Float) :
    Number → Number → Option Number
  | whole i, whole j => some (whole (onWhole i j))
  | a, b => do return float (onFloat (← a.toFloat?) (← b.toFloat?))

def sub? : Number → Number → Option Number := combine? (· - ·) (· - ·)

def mul? : Number → Number → Option Number := combine? (· * ·) (· * ·)

end Number

/-! ## Measurements -/

/-- A clock reading in seconds. A difference of readings knows the seconds
between them. -/
structure Measurement where
  timestamp : Number
  elapsed : Option Number

namespace Measurement

/-- The reading with the time since an earlier one, unless a number is too
large for it. -/
def difference? (m earlier : Measurement) : Option Measurement :=
  (m.timestamp.sub? earlier.timestamp).map fun elapsed => ⟨m.timestamp, some elapsed⟩

/-- Readings of a running clock always have a difference. -/
@[simp] theorem difference?_float (ended began : Float) (a b : Option Number) :
    difference? ⟨.float ended, a⟩ ⟨.float began, b⟩ =
      some ⟨.float ended, some (.float (ended - began))⟩ := rfl

/-- The elapsed time in milliseconds with one place, unless it is too large. -/
def text? (m : Measurement) : Option String :=
  match m.elapsed with
  | none => some "no measurement"
  | some seconds =>
    ((seconds.mul? (.whole 1000)).bind Number.toFloat?).map fun x => Decimal.onePlace x ++ "ms"

end Measurement

end Variability
