-- Reading raw values as numbers, texts, truth values, lists and tables. A
-- value of another kind is taken where nothing is lost.
import Variability.Data.Table
import Variability.Raw.WholeNumber

namespace Variability.Value

/-! ## Numbers -/

def readInt : Value → Checked Int
  | .int i => .ok i
  | .bool b => .ok (if b then 1 else 0)
  | .float x => WholeNumber.ofFloat x
  | .string s => WholeNumber.ofText s
  | .unpaired _ => Checked.fail .stringUnicode
  | _ => Checked.fail .intType

/-- A whole number that is not negative. -/
def readCount (v : Value) : Checked Nat :=
  match readInt v with
  | .error ds => .error ds
  | .ok i => if i < 0 then Checked.fail .greaterThanEqual else .ok i.toNat

/-! ## Texts and truth values -/

/-- A text. The texts of records have no surrogates: one without a partner
has a replacement there. -/
def readString : Value → Checked String
  | .string s => .ok s
  | .unpaired points => .ok (Text.lossyText points)
  | _ => Checked.fail .stringType

/-- A text, or nothing. -/
def readOptionalString : Value → Checked (Option String)
  | .null => .ok none
  | v => (readString v).map some

def falseWords : List String := ["0", "off", "f", "false", "n", "no"]

def trueWords : List String := ["1", "on", "t", "true", "y", "yes"]

/-- The text with small letters for the capital ones of ASCII. -/
def asciiLower (s : String) : String := String.ofList (s.toList.map Char.toLower)

/-- The truth value of a number: no for 0, yes for 1. -/
def boolOfInt (i : Int) : Checked Bool :=
  if i = 0 then .ok false else if i = 1 then .ok true else Checked.fail .boolParsing

/-- Numbers beyond a word are not taken for truth values at all. -/
def readBool : Value → Checked Bool
  | .bool b => .ok b
  | .int i => if isWord i then boolOfInt i else Checked.fail .boolType
  | .float x =>
    match WholeNumber.ofFloat x with
    | .ok i => boolOfInt i
    | .error _ => Checked.fail .boolType
  | .string s =>
    if asciiLower s ∈ falseWords then .ok false
    else if asciiLower s ∈ trueWords then .ok true
    else Checked.fail .boolParsing
  | .unpaired _ => Checked.fail .stringUnicode
  | _ => Checked.fail .boolType

/-! ## Lists and tables -/

def readList {α : Type} (read : Value → Checked α) : Value → Checked (List α)
  | .list items | .tuple items =>
    Checked.collect (items.zipIdx.map fun p => (read p.1).below (.index p.2))
  | _ => Checked.fail .listType

/-- A key as a step on the way to its value. A number within a word stands for
itself, a truth value for 0 or 1, any other value for its text. -/
def keyStep : Value → Step
  | .string s => .field s
  | .unpaired points => .field (Text.lossyText points)
  | .int i => if isWord i then .index i else .field (toString i)
  | .bool b => .index (if b then 1 else 0)
  | v => .field v.text

/-- An entry of a table. A bad key is told apart from a bad value by a last
step of its own. -/
def readEntry {α β : Type} (readKey : Value → Checked α) (readValue : Value → Checked β)
    (p : Value × Value) : Checked (α × β) :=
  let key := ((readKey p.1).below (.field "[key]")).below (keyStep p.1)
  let value := (readValue p.2).below (keyStep p.1)
  match key, value with
  | .ok a, .ok b => .ok (a, b)
  | key, value => .error (key.details ++ value.details)

def readTable {α β : Type} [DecidableEq α] [Hashable α] (readKey : Value → Checked α)
    (readValue : Value → Checked β) : Value → Checked (Table α β)
  | .map entries =>
    (Checked.collect (entries.map (readEntry readKey readValue))).map Table.ofList
  | _ => Checked.fail .dictType

/-! ## Fields -/

/-- Reads a field that has to be there. -/
def required {α : Type} (entries : List (Value × Value)) (name : String)
    (read : Value → Checked α) : Checked α :=
  match field? entries name with
  | some v => (read v).below (.field name)
  | none => (Checked.fail .missing).below (.field name)

/-- Reads a field, or takes `fallback` where it is missing. -/
def optional {α : Type} (entries : List (Value × Value)) (name : String) (fallback : α)
    (read : Value → Checked α) : Checked α :=
  match field? entries name with
  | some v => (read v).below (.field name)
  | none => .ok fallback

end Variability.Value
