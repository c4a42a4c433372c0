-- Whole numbers in a text: an optional sign, decimal digits of any script,
-- and single underscores between digits.
import Variability.Text.Digit

namespace Variability.Text

/-- The most digits a written whole number may have. -/
def integerDigitLimit : Nat := 4300

inductive IntegerFault
  | malformed
  | tooLong (digits : Nat)
deriving DecidableEq, Repr

/-- What is said of a whole number with too many digits. `found` tells how
many there are, where that is known. -/
def digitLimitMessage (found : String) : String :=
  s!"Exceeds the limit ({integerDigitLimit} digits) for integer string conversion" ++ found ++
    "; use sys.set_int_max_str_digits() to increase the limit"

def IntegerFault.message : IntegerFault → String
  | .malformed => "not a whole number"
  | .tooLong digits => digitLimitMessage s!": value has {digits} digits"

/-- The digit values of a number without its sign. An underscore stands
between two digits only. -/
def digitValues? : List Char → Option (List Nat)
  | [] => none
  | c :: rest =>
    match digitValue? c with
    | none => none
    | some d =>
      match rest with
      | [] => some [d]
      | '_' :: more => (digitValues? more).map (d :: ·)
      | next :: more => (digitValues? (next :: more)).map (d :: ·)

/-- Splits the sign off a number: whether it is negative, and the rest. -/
def splitSign : List Char → Bool × List Char
  | '-' :: rest => (true, rest)
  | '+' :: rest => (false, rest)
  | cs => (false, cs)

/-- Splits a minus off a number: whether there is one, and the rest. -/
def splitMinus : List Char → Bool × List Char
  | '-' :: rest => (true, rest)
  | cs => (false, cs)

def signed (negative : Bool) (n : Nat) : Int := if negative then -n else n

/-- The value of a number without its sign, within the digit limit. -/
def readNatural (cs : List Char) : Except IntegerFault Nat :=
  match digitValues? cs with
  | none => .error .malformed
  | some digits =>
    if integerDigitLimit < digits.length then .error (.tooLong digits.length)
    else .ok (numberOf digits)

def readInteger (cs : List Char) : Except IntegerFault Int :=
  (readNatural (splitSign cs).2).map (signed (splitSign cs).1)

end Variability.Text
