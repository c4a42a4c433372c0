-- Quoted texts, as messages show a name or a path.
import Variability.Text.CodePoint
import Variability.Text.Printable

namespace Variability.Text

/-! ## Quoting -/

/-- A single quote, unless the text holds one and holds no double quote. -/
def quoteFor (cs : List Char) : Char :=
  if cs.contains '\'' && !cs.contains '"' then '"' else '\''

/-- The hexadecimal digits of `n`, padded with zeros to `width`. -/
def hexPadded (width n : Nat) : List Char :=
  let digits := Nat.toDigits 16 n
  List.replicate (width - digits.length) '0' ++ digits

/-- How a character is written between the quotes `quote`. -/
def quotedChar (quote c : Char) : List Char :=
  if c = quote || c = '\\' then ['\\', c]
  else if c = '\n' then ['\\', 'n']
  else if c = '\r' then ['\\', 'r']
  else if c = '\t' then ['\\', 't']
  else if isPrintable c then [c]
  else if c.toNat < 0x100 then '\\' :: 'x' :: hexPadded 2 c.toNat
  else if c.toNat < 0x10000 then '\\' :: 'u' :: hexPadded 4 c.toNat
  else '\\' :: 'U' :: hexPadded 8 c.toNat

/-- The text between quotes, on one line. -/
def quoted (s : String) : String :=
  let quote := quoteFor s.toList
  String.ofList (quote :: s.toList.flatMap (quotedChar quote) ++ [quote])

/-- How a code point is written between the quotes `quote`. -/
def quotedPoint (quote : Char) (n : Nat) : List Char :=
  match charOf? n with
  | some c => quotedChar quote c
  | none => '\\' :: 'u' :: hexPadded 4 n

/-- Code points between quotes, on one line. -/
def quotedPoints (points : List Nat) : String :=
  let quote := quoteFor (points.filterMap charOf?)
  String.ofList (quote :: points.flatMap (quotedPoint quote) ++ [quote])

/-- What is said of code points that cannot be encoded: the first surrogates,
or their places if there are several. -/
def surrogateMessage (points : List Nat) : String :=
  match firstSurrogates points with
  | (place, [n]) =>
    s!"'utf-8' codec can't encode character {quotedPoints [n]} in position {place}: " ++
      "surrogates not allowed"
  | (place, ns) =>
    s!"'utf-8' codec can't encode characters in position {place}-{place + ns.length - 1}: " ++
      "surrogates not allowed"

end Variability.Text
