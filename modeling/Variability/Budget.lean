-- Time budgets: numbers of seconds, or texts with a unit.
import Variability.Decimal.Reading
import Variability.Raw.Value
import Variability.Text.Blank

namespace Variability

/-! ## Errors -/

/-- Why a value is no budget. The texts show the value; a text with surrogates
cannot be shown, nor can every list and map. -/
inductive BudgetFault
  | unreadable (shown : String)
  | unshown (fault : Value.ShowFault)
  | unencodable (points : List Nat)
  | negative (shown : String)
  | tooLarge
deriving DecidableEq, Repr

def unreadableWords : String := "Invalid time limit "

def BudgetFault.message : BudgetFault → String
  | .unreadable shown => unreadableWords ++ shown
  | .unshown fault => fault.message
  | .unencodable points =>
    Text.surrogateMessage ((unreadableWords ++ "'").toList.map Char.toNat ++ points)
  | .negative shown => "Time limit must not be negative, got " ++ shown
  | .tooLarge => Decimal.tooLargeMessage

/-- Whether a fault is one of the value's own, as a record lists them. Any
other stops whoever reads the value. -/
def BudgetFault.isListed : BudgetFault → Bool
  | .unreadable _ | .unshown .longInteger | .negative _ => true
  | .unshown .tooDeep | .unencodable _ | .tooLarge => false

namespace Budget

open Text

/-! ## Texts -/

/-- The seconds of a unit. Without a unit a number means seconds. -/
def unitSeconds? (unit : List Char) : Option Float :=
  if unit = "ms".toList then some 0.001
  else if unit = [] ∨ unit = ['s'] then some 1.0
  else if unit = ['m'] then some 60.0
  else if unit = ['h'] then some 3600.0
  else none

def digitsOf (cs : List Char) : List Nat := cs.filterMap digitValue?

/-- Splits decimal digits of any script off the start. -/
def takeDigits (cs : List Char) : List Char × List Char :=
  (cs.takeWhile isDecimalDigit, cs.dropWhile isDecimalDigit)

/-- The digits before and behind the point, and the rest. A point has a digit
on either side. -/
def takeNumber? (cs : List Char) : Option (List Nat × List Nat × List Char) :=
  let (whole, rest) := takeDigits cs
  if whole = [] then none
  else
    match rest with
    | '.' :: more =>
      let (fraction, rest) := takeDigits more
      if fraction = [] then none else some (digitsOf whole, digitsOf fraction, rest)
    | _ => some (digitsOf whole, [], rest)

/-- The seconds that a text such as `500ms`, `1.5 m` or `30` names. -/
def ofText? (s : String) : Option Float :=
  match takeNumber? (trim s.toList) with
  | none => none
  | some (whole, fraction, rest) =>
    (unitSeconds? (trimStart rest)).map (Decimal.ofDigits false whole fraction 0 * ·)

/-! ## Values -/

/-- The fault of a value that names no seconds: a text with the value in it, if
that can be shown with others `room` deep in it. -/
def unreadable (room : Nat) (v : Value) : BudgetFault :=
  match v.showFault? room with
  | some fault => .unshown fault
  | none => .unreadable v.text

/-- The seconds that a value names; `null` means no budget. -/
def seconds? (room : Nat) : Value → Except BudgetFault (Option Float)
  | .null => .ok none
  | .int i =>
    match Decimal.ofInt? i with
    | some x => .ok (some x)
    | none => .error .tooLarge
  | .float x => .ok (some x)
  | .string s =>
    match ofText? s with
    | some x => .ok (some x)
    | none => .error (.unreadable ("'" ++ s ++ "'"))
  | .unpaired points => .error (.unencodable points)
  | v => .error (unreadable room v)

/-- The budget of a value. It is not negative. -/
def ofValue (room : Nat) (v : Value) : Except BudgetFault (Option Float) :=
  match seconds? room v with
  | .ok (some x) => if x < 0.0 then .error (.negative v.text) else .ok (some x)
  | r => r

/-- Whether a budget is spent as soon as it starts. -/
def isSpent : Option Float → Bool
  | some x => x ≤ 0.0
  | none => false

end Budget

end Variability
