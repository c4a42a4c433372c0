-- Whole numbers as settings spell them: with blanks, a sign, zeros in front,
-- underscores and a fraction that is zero.
import Variability.Data.Word
import Variability.Raw.Fault
import Variability.Text.Blank
import Variability.Text.Integer

namespace Variability.WholeNumber

open Text

/-! ## Plain numbers -/

/-- A number in its plain form: ASCII digits, behind a minus or not, that
start with a zero only if there is no other. -/
def readPlain? (cs : List Char) : Option Int :=
  let (negative, digits) := splitMinus cs
  if digits.length ≤ integerDigitLimit && digits.all Char.isDigit &&
      (digits.head? ≠ some '0' || digits = ['0']) then
    (readNatural digits).toOption.map (signed negative)
  else none

/-- Whether a text starts with a number in its plain form that is too long,
whatever may follow. -/
def startsTooLong (cs : List Char) : Bool :=
  let digits := (splitMinus cs).2.takeWhile Char.isDigit
  digits.head? ≠ some '0' && integerDigitLimit < digits.length

/-! ## Other spellings -/

/-- The characters that may stand around a number: blanks, without the
information separators. -/
def isSpace (c : Char) : Bool := isBlank c && !(28 ≤ c.toNat && c.toNat ≤ 31)

def trimSpace (cs : List Char) : List Char :=
  ((cs.dropWhile isSpace).reverse.dropWhile isSpace).reverse

/-- Goes on dropping zeros, and any underscores among them, behind `last`. A
minus may follow them. Before a point, and at the end, the last one stays. -/
def dropZerosBehind (last : Char) : List Char → Option (List Char)
  | [] => some [last]
  | c :: rest =>
    if c = '0' ∨ c = '_' then dropZerosBehind c rest
    else if c.isDigit ∨ c = '-' then some (c :: rest)
    else if c = '.' then some (last :: c :: rest)
    else none

/-- Drops the zeros in front of a number, which starts with a digit. -/
def dropZeros? : List Char → Option (List Char)
  | [] => none
  | c :: rest =>
    if c = '0' then dropZerosBehind c rest
    else if c.isDigit then some (c :: rest)
    else none

/-- Drops a fraction that is zero: a point and at least one zero. -/
def dropZeroFraction (cs : List Char) : List Char :=
  match cs.dropWhile (· ≠ '.') with
  | '.' :: '0' :: zeros => if zeros.all (· = '0') then cs.takeWhile (· ≠ '.') else cs
  | _ => cs

/-- Whether two underscores follow each other. -/
def hasDoubleUnderscore : List Char → Bool
  | '_' :: '_' :: _ => true
  | _ :: rest => hasDoubleUnderscore rest
  | [] => false

/-- Drops underscores; they stand one by one, and at neither end. -/
def dropUnderscores? (cs : List Char) : Option (List Char) :=
  if cs.head? = some '_' ∨ cs.getLast? = some '_' ∨ hasDoubleUnderscore cs then none
  else some (cs.filter (· ≠ '_'))

/-- The plain form of a number, if it is one. -/
def plainForm? (cs : List Char) : Option (List Char) := do
  let (negative, body) := splitSign (trimSpace cs)
  let digits ← dropUnderscores? (dropZeroFraction (← dropZeros? body))
  return if negative then '-' :: digits else digits

/-! ## Reading -/

/-- The whole number that a text spells. -/
def ofText (s : String) : Checked Int :=
  if startsTooLong s.toList then Checked.fail .intParsingSize
  else
    match (plainForm? s.toList).bind readPlain? with
    | some i => .ok i
    | none => Checked.fail .intParsing

/-- The whole number that a float is. It lies strictly between the least word
and the first number above all words. -/
def ofFloat (x : Float) : Checked Int :=
  if x.isNaN || x.isInf then Checked.fail .finiteNumber
  else
    match Decimal.wholeNumber? x with
    | none => Checked.fail .intFromFloat
    | some i =>
      if isWord i && i ≠ -0x8000000000000000 then .ok i else Checked.fail .intParsingSize

end Variability.WholeNumber
