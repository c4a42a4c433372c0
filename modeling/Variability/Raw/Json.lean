-- Reading settings files: JSON, with words for the three numbers that are
-- not finite.
import Variability.Data.Table
import Variability.Decimal.Reading
import Variability.Raw.Value
import Variability.Text.Integer
import Variability.Text.Split

namespace Variability.Json

open Text

/-- What holds other values. -/
inductive Container
  | array
  | object
deriving DecidableEq, Repr

def Container.name : Container → String
  | .array => "array"
  | .object => "object"

/-- Why a text is not JSON, or is more than is read of it: a whole number may
be too long, and a value in too many others. -/
inductive JsonFault
  | malformed
  | longInteger (fault : IntegerFault)
  | tooDeep (container : Container)
deriving DecidableEq, Repr

/-! ## Blanks -/

def isSpace (c : Char) : Bool := c == ' ' || c == '\t' || c == '\n' || c == '\r'

def skipSpace (cs : List Char) : List Char := cs.dropWhile isSpace

/-! ## Strings -/

def hexValue? (c : Char) : Option Nat :=
  if c.isDigit then some (c.toNat - '0'.toNat)
  else if 'a' ≤ c ∧ c ≤ 'f' then some (c.toNat - 'a'.toNat + 10)
  else if 'A' ≤ c ∧ c ≤ 'F' then some (c.toNat - 'A'.toNat + 10)
  else none

/-- The value of four hexadecimal digits. -/
def hexUnit? (a b c d : Char) : Option Nat := do
  let a ← hexValue? a
  let b ← hexValue? b
  let c ← hexValue? c
  let d ← hexValue? d
  return ((a * 16 + b) * 16 + c) * 16 + d

def isHighSurrogate (n : Nat) : Bool := 0xd800 ≤ n && n < 0xdc00

def isLowSurrogate (n : Nat) : Bool := 0xdc00 ≤ n && n < 0xe000

def joinSurrogates (high low : Nat) : Nat := 0x10000 + (high - 0xd800) * 0x400 + (low - 0xdc00)

/-- The character after a backslash. -/
def escaped? : Char → Option Char
  | '"' => some '"'
  | '\\' => some '\\'
  | '/' => some '/'
  | 'b' => some '\x08'
  | 'f' => some '\x0c'
  | 'n' => some '\n'
  | 'r' => some '\r'
  | 't' => some '\t'
  | _ => none

/-- Reads a string behind its opening quote: its code points and what follows
the closing quote. `done` are the code points so far, last first. A surrogate
without its partner stays by itself. -/
def readString (done : List Nat) : List Char → Option (List Nat × List Char)
  | [] => none
  | '"' :: rest => some (done.reverse, rest)
  | '\\' :: 'u' :: a :: b :: c :: d :: '\\' :: 'u' :: e :: f :: g :: h :: rest =>
    match hexUnit? a b c d, hexUnit? e f g h with
    | none, _ => none
    | some high, some low =>
      if isHighSurrogate high && isLowSurrogate low then
        readString (joinSurrogates high low :: done) rest
      else readString (high :: done) ('\\' :: 'u' :: e :: f :: g :: h :: rest)
    | some high, none =>
      readString (high :: done) ('\\' :: 'u' :: e :: f :: g :: h :: rest)
  | '\\' :: 'u' :: a :: b :: c :: d :: rest =>
    match hexUnit? a b c d with
    | none => none
    | some n => readString (n :: done) rest
  | '\\' :: c :: rest =>
    match escaped? c with
    | none => none
    | some e => readString (e.toNat :: done) rest
  | c :: rest =>
    if c = '\\' ∨ c.toNat < 0x20 then none else readString (c.toNat :: done) rest

/-! ## Numbers -/

def digitsOf (cs : List Char) : List Nat := cs.map fun c => c.toNat - '0'.toNat

/-- Splits leading ASCII digits off. -/
def takeDigits (cs : List Char) : List Char × List Char :=
  (cs.takeWhile Char.isDigit, cs.dropWhile Char.isDigit)

/-- A fraction with at least one digit, if the text starts with one. -/
def takeFraction (cs : List Char) : List Char × List Char :=
  match cs with
  | '.' :: rest => if (takeDigits rest).1 = [] then ([], cs) else takeDigits rest
  | _ => ([], cs)

/-- An exponent with at least one digit, if the text starts with one. -/
def takeExponent (cs : List Char) : Option Int × List Char :=
  match cs with
  | c :: rest =>
    let (negative, body) := splitSign rest
    let (digits, after) := takeDigits body
    if (c = 'e' ∨ c = 'E') ∧ digits ≠ [] then
      (some (signed negative (numberOf (digitsOf digits))), after)
    else (none, cs)
  | [] => (none, cs)

/-- The whole part of a number: a zero alone, or digits that start with
another one. -/
def takeWhole (cs : List Char) : List Char × List Char :=
  match cs with
  | '0' :: rest => (['0'], rest)
  | _ => takeDigits cs

/-- A number is whole unless it is written with a fraction or an exponent. -/
def readNumber (cs : List Char) : Except JsonFault (Value × List Char) :=
  let (negative, body) := splitMinus cs
  let (whole, afterWhole) := takeWhole body
  let (fraction, afterFraction) := takeFraction afterWhole
  let (exponent?, rest) := takeExponent afterFraction
  if whole = [] then .error .malformed
  else if fraction = [] ∧ exponent? = none then
    match readNatural whole with
    | .ok n => .ok (.int (signed negative n), rest)
    | .error fault => .error (.longInteger fault)
  else
    .ok (.float (Decimal.ofDigits negative (digitsOf whole) (digitsOf fraction) (exponent?.getD 0)),
      rest)

/-! ## Values -/

/-- The words of the language and what they stand for. -/
def wordValues : List (List Char × Value) :=
  [("null".toList, .null), ("true".toList, .bool true), ("false".toList, .bool false),
    ("NaN".toList, .float (0.0 / 0.0)), ("Infinity".toList, .float (1.0 / 0.0)),
    ("-Infinity".toList, .float (-1.0 / 0.0))]

def readWord? (cs : List Char) : Option (Value × List Char) :=
  wordValues.findSome? fun p => (afterWord? p.1 cs).map fun rest => (p.2, rest)

/-- A map of string keys, given by their code points. Of several values of a
key the last counts. -/
def mapOf (entries : List (List Nat × Value)) : Value :=
  .map ((Table.ofList entries).entries.map fun p => (.ofPoints p.1, p.2))

mutual

/-- Reads a value that starts with the first character, with `fuel` steps. It
may nest `room` deep. -/
def readValue : Nat → Nat → List Char → Except JsonFault (Value × List Char)
  | 0, _, _ => .error .malformed
  | fuel + 1, room, cs =>
    match cs with
    | '"' :: rest =>
      match readString [] rest with
      | some (points, rest) => .ok (.ofPoints points, rest)
      | none => .error .malformed
    | '[' :: rest =>
      match room, skipSpace rest with
      | 0, _ => .error (.tooDeep .array)
      | _, ']' :: rest => .ok (.list [], rest)
      | room + 1, rest => (readItems fuel room rest).map fun p => (.list p.1, p.2)
    | '{' :: rest =>
      match room, skipSpace rest with
      | 0, _ => .error (.tooDeep .object)
      | _, '}' :: rest => .ok (.map [], rest)
      | room + 1, rest => (readEntries fuel room rest).map fun p => (mapOf p.1, p.2)
    | _ =>
      match readWord? cs with
      | some found => .ok found
      | none => readNumber cs

/-- Reads the items of a list up to its end. -/
def readItems : Nat → Nat → List Char → Except JsonFault (List Value × List Char)
  | 0, _, _ => .error .malformed
  | fuel + 1, room, cs =>
    match readValue fuel room cs with
    | .error e => .error e
    | .ok (v, rest) =>
      match skipSpace rest with
      | ']' :: rest => .ok ([v], rest)
      | ',' :: rest => (readItems fuel room (skipSpace rest)).map fun p => (v :: p.1, p.2)
      | _ => .error .malformed

/-- Reads the entries of a map up to its end. -/
def readEntries : Nat → Nat → List Char → Except JsonFault (List (List Nat × Value) × List Char)
  | 0, _, _ => .error .malformed
  | fuel + 1, room, cs =>
    match cs with
    | '"' :: rest =>
      match readString [] rest with
      | none => .error .malformed
      | some (key, rest) =>
        match skipSpace rest with
        | ':' :: rest =>
          match readValue fuel room (skipSpace rest) with
          | .error e => .error e
          | .ok (v, rest) =>
            match skipSpace rest with
            | '}' :: rest => .ok ([(key, v)], rest)
            | ',' :: rest =>
              (readEntries fuel room (skipSpace rest)).map fun p => ((key, v) :: p.1, p.2)
            | _ => .error .malformed
        | _ => .error .malformed
    | _ => .error .malformed

end

/-- The value that a text spells. Arrays and objects may stand `room` deep in
each other. Every step takes at least one character, so the steps suffice. -/
def parse (room : Nat) (cs : List Char) : Except JsonFault Value :=
  match readValue (cs.length + 1) room (skipSpace cs) with
  | .error e => .error e
  | .ok (v, rest) => if skipSpace rest = [] then .ok v else .error .malformed

end Variability.Json
