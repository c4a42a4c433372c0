-- Condition readers: one written condition gives one condition per dialect.
import Variability.Condition.Parser

namespace Variability

/-- Reads build conditions for the tools of several dialects. -/
structure ConditionReader where
  name : String
  dialects : List Dialect
  numericConstants : Bool
  dialects_ne_nil : dialects ≠ []

namespace ConditionReader

/-- A reader, if there is a dialect to read for. -/
def ofDialects? (name : String) (dialects : List Dialect) (numericConstants : Bool) :
    Option ConditionReader :=
  if h : dialects ≠ [] then some ⟨name, dialects, numericConstants, h⟩ else none

/-- What a list without dialects is answered with. -/
def noDialectMessage : String := "Implementation requires at least one dialect"

/-- Reads for tools of the plain dialect. -/
def plain : ConditionReader := ⟨"kmax", [.plain], true, by simp⟩

/-- Reads for tools of either dialect. -/
def multi : ConditionReader := ⟨"kmax-multi", [.plain, .defined], true, by simp⟩

/-- One condition per dialect, in the order of the dialects. A blank text
holds unconditionally and gives none. -/
def read (r : ConditionReader) (text : String) : Except ParseError (List Condition) :=
  if Text.trim text.toList = [] then .ok []
  else
    (Condition.parseTerms r.numericConstants text).map fun ts =>
      r.dialects.map fun d => Condition.ofTerms d ts

def describe (r : ConditionReader) : String :=
  "Implementation(" ++ Text.quoted r.name ++ ", [" ++
    ", ".intercalate (r.dialects.map fun d => Text.quoted d.name) ++ "])"

end ConditionReader

end Variability
