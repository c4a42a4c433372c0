-- What is wrong with raw values, and where.
import Variability.Raw.Value

namespace Variability

/-- Why a value cannot be taken. `rule` is a rule of the record itself, with
its message. -/
inductive Fault
  | missing
  | stringType
  | stringUnicode
  | boolType
  | boolParsing
  | intType
  | intParsing
  | intParsingSize
  | intFromFloat
  | finiteNumber
  | greaterThanEqual
  | listType
  | dictType
  | frozenInstance
  | rule (message : String)
deriving DecidableEq, Repr

def Fault.code : Fault → String
  | .missing => "missing"
  | .stringType => "string_type"
  | .stringUnicode => "string_unicode"
  | .boolType => "bool_type"
  | .boolParsing => "bool_parsing"
  | .intType => "int_type"
  | .intParsing => "int_parsing"
  | .intParsingSize => "int_parsing_size"
  | .intFromFloat => "int_from_float"
  | .finiteNumber => "finite_number"
  | .greaterThanEqual => "greater_than_equal"
  | .listType => "list_type"
  | .dictType => "dict_type"
  | .frozenInstance => "frozen_instance"
  | .rule _ => "value_error"

/-- What a fault says beyond its code. -/
def Fault.note? : Fault → Option String
  | .rule message => some ("Value error, " ++ message)
  | _ => none

/-- One step on the way to a faulty value. -/
inductive Step
  | field (name : String)
  | index (i : Int)
deriving DecidableEq, Repr

/-- A fault and the way to it. -/
structure Detail where
  place : List Step
  fault : Fault
deriving DecidableEq, Repr

/-- What reading a raw value gives: the value, or all that is wrong with it. -/
abbrev Checked (α : Type) := Except (List Detail) α

namespace Checked

def fail {α : Type} (f : Fault) : Checked α := .error [⟨[], f⟩]

/-- The faults of a value that stands one step further down. -/
def below {α : Type} (s : Step) (c : Checked α) : Checked α :=
  c.mapError fun details => details.map fun d => { d with place := s :: d.place }

def details {α : Type} : Checked α → List Detail
  | .ok _ => []
  | .error ds => ds

/-- The values of a list whose members have all been read, or the faults of
all of them. -/
def collect {α : Type} : List (Checked α) → Checked (List α)
  | [] => .ok []
  | c :: rest =>
    match c, collect rest with
    | .ok a, .ok as => .ok (a :: as)
    | c, r => .error (c.details ++ r.details)

end Checked

end Variability
