-- Raw values: what a settings file, an environment or a caller hands over
-- before anybody has checked it.
import Variability.Decimal.Shortest
import Variability.Text.Integer
import Variability.Text.Quoted
import Variability.Text.Utf8

namespace Variability

/-- A raw value. A string with a surrogate that has no partner is `unpaired`,
given by its code points. The keys of a map are all different. -/
inductive Value
  | null
  | bool (b : Bool)
  | int (i : Int)
  | float (x : Float)
  | string (s : String)
  | unpaired (points : List Nat)
  | list (items : List Value)
  | tuple (items : List Value)
  | map (entries : List (Value × Value))
deriving Inhabited

namespace Value

/-! ## Names of the kinds -/

def kindName : Value → String
  | null => "NoneType"
  | bool _ => "bool"
  | int _ => "int"
  | float _ => "float"
  | string _ | unpaired _ => "str"
  | list _ => "list"
  | tuple _ => "tuple"
  | map _ => "dict"

/-! ## Values as messages show them -/

def boolText (b : Bool) : String := if b then "True" else "False"

mutual

def text : Value → String
  | null => "None"
  | bool b => boolText b
  | int i => toString i
  | float x => Decimal.text x
  | string s => Text.quoted s
  | unpaired points => Text.quotedPoints points
  | list items => "[" ++ ", ".intercalate (texts items) ++ "]"
  | tuple [item] => "(" ++ text item ++ ",)"
  | tuple items => "(" ++ ", ".intercalate (texts items) ++ ")"
  | map entries => "\x7b" ++ ", ".intercalate (entryTexts entries) ++ "\x7d"

def texts : List Value → List String
  | [] => []
  | v :: rest => text v :: texts rest

def entryTexts : List (Value × Value) → List String
  | [] => []
  | (k, v) :: rest => (text k ++ ": " ++ text v) :: entryTexts rest

end

/-! ## Values that no message can show -/

/-- Why a value cannot be shown: a value in it stands in too many others, or a
whole number has too many digits. -/
inductive ShowFault
  | tooDeep
  | longInteger
deriving DecidableEq, Repr

def ShowFault.message : ShowFault → String
  | .tooDeep => "maximum recursion depth exceeded while getting the repr of an object"
  | .longInteger => Text.digitLimitMessage ""

def hasTooManyDigits (i : Int) : Bool :=
  Text.integerDigitLimit < (Nat.toDigits 10 i.natAbs).length

mutual

/-- Why a value cannot be shown if others may stand `room` deep in it. What
comes first in the text stops it. -/
def showFault? : Nat → Value → Option ShowFault
  | _, int i => if hasTooManyDigits i then some .longInteger else none
  | room, list items => itemsFault? room items
  | room, tuple items => itemsFault? room items
  | room, map entries => entriesFault? room entries
  | _, _ => none

def itemsFault? : Nat → List Value → Option ShowFault
  | _, [] => none
  | 0, _ :: _ => some .tooDeep
  | room + 1, v :: rest => (showFault? room v).or (itemsFault? (room + 1) rest)

def entriesFault? : Nat → List (Value × Value) → Option ShowFault
  | _, [] => none
  | 0, _ :: _ => some .tooDeep
  | room + 1, (k, v) :: rest =>
    ((showFault? room k).or (showFault? room v)).or (entriesFault? (room + 1) rest)

end

/-! ## Strings -/

/-- The string of code points. -/
def ofPoints (points : List Nat) : Value :=
  match Text.exactText? points with
  | some s => .string s
  | none => .unpaired points

/-- The string of bytes; those that belong to no character are surrogates in
it. -/
def ofBytes (bytes : List UInt8) : Value := ofPoints (Text.escapedPoints bytes)

/-! ## Numbers -/

/-- The whole number that a value equals: truth values count as 0 and 1. -/
def whole? : Value → Option Int
  | int i => some i
  | bool b => some (if b then 1 else 0)
  | float x => Decimal.wholeNumber? x
  | _ => none

/-- Whether a number is below zero; other values are not compared with it. -/
def isNegative? : Value → Option Bool
  | int i => some (i < 0)
  | bool _ => some false
  | float x => some (x < 0.0)
  | _ => none

/-- What is said of values whose kinds cannot be compared. -/
def incomparableMessage (operator left right : String) : String :=
  "'" ++ operator ++ "' not supported between instances of '" ++ left ++ "' and '" ++ right ++ "'"

/-! ## Maps -/

mutual

/-- Whether two values are one key. Numbers are compared by what they are
worth; lists and maps are no keys. -/
def sameKey (v w : Value) : Bool :=
  match whole? v, whole? w with
  | some i, some j => i == j
  | none, none =>
    match v, w with
    | null, null => true
    | float x, float y => x == y
    | string s, string t => s == t
    | unpaired s, unpaired t => s == t
    | tuple vs, tuple ws => sameKeys vs ws
    | _, _ => false
  | _, _ => false

def sameKeys : List Value → List Value → Bool
  | [], [] => true
  | v :: vs, w :: ws => sameKey v w && sameKeys vs ws
  | _, _ => false

end

/-- Replaces the value of a key where it stands, or puts the key last. -/
def insertEntry (k v : Value) : List (Value × Value) → List (Value × Value)
  | [] => [(k, v)]
  | p :: rest => if sameKey p.1 k then (p.1, v) :: rest else p :: insertEntry k v rest

/-- A map of entries. Of entries with one key, the first has its place and the
last its value. -/
def ofEntries (entries : List (Value × Value)) : Value :=
  .map (entries.foldl (fun es p => insertEntry p.1 p.2 es) [])

/-! ## Fields -/

/-- The value under a string key; of several the last. -/
def field? (entries : List (Value × Value)) (name : String) : Option Value :=
  (entries.reverse.find? fun p =>
    match p.1 with
    | string s => s = name
    | _ => false).map Prod.snd

end Value

end Variability
