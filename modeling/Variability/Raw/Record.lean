-- Records from raw values: literals, conditions, formulas, configurations and
-- spaces that a caller spells out field by field.
import Variability.Raw.Reading
import Variability.Space.Enumeration

namespace Variability

/-! ## Literals -/

/-- A literal from a name and a mark for negation. -/
def Literal.ofValues (name negated : Value) : Checked Literal :=
  let name : Checked { s : String // isFeatureName s = true } :=
    match (Value.readString name) with
    | .error ds => .error ds
    | .ok s =>
      if h : isFeatureName s then .ok ⟨s, h⟩ else Checked.fail (.rule (invalidNameMessage s))
  let negated := Value.readBool negated
  match name.below (.field "name"), negated.below (.field "neg") with
  | .ok s, .ok n => .ok ⟨s.1, n, s.2⟩
  | name, negated => .error (name.details ++ negated.details)

/-! ## Conditions -/

/-- A literal as a caller writes it: a name behind marks for negation, or a
name and whether it is negated. -/
inductive LiteralSpelling
  | marked (text : String)
  | pair (name negated : Value)

/-- However many marks there are, the literal is negated if there is one. -/
def LiteralSpelling.read : LiteralSpelling → Checked Literal
  | .marked text =>
    let name := String.ofList (text.toList.dropWhile (· = '!'))
    Literal.ofValues (.string name) (.bool (text.toList.head? = some '!'))
  | .pair name negated => Literal.ofValues name negated

/-- Reads literals up to the first that is none. -/
def readSpellings : List LiteralSpelling → Checked (List Literal)
  | [] => .ok []
  | s :: rest =>
    match s.read with
    | .error ds => .error ds
    | .ok l => (readSpellings rest).map (l :: ·)

def readTermSpellings : List (List LiteralSpelling) → Checked (List Term)
  | [] => .ok []
  | s :: rest =>
    match readSpellings s with
    | .error ds => .error ds
    | .ok ls => (readTermSpellings rest).map (Term.ofList ls :: ·)

/-- A condition from lists of literals. -/
def Condition.ofSpellings (d : Dialect) (terms : List (List LiteralSpelling)) :
    Checked Condition :=
  (readTermSpellings terms).map (Condition.ofTerms d)

/-! ## Formulas -/

/-- The field that a violation concerns, and the violation as its fault. -/
def Cnf.Violation.detail : Cnf.Violation → Detail
  | .negativeCount => ⟨[.field "num_vars"], .greaterThanEqual⟩
  | .nameOutside v count => ⟨[.field "names"], .rule (Cnf.Violation.nameOutside v count).message⟩
  | v => ⟨[.field "clauses"], .rule v.message⟩

/-- A value whose reading succeeded, unless it breaks a rule. -/
def Checked.obeying {α : Type} (c : Checked α) (violation? : α → Option Cnf.Violation) :
    Checked α :=
  match c with
  | .error ds => .error ds
  | .ok a =>
    match violation? a with
    | some v => .error [v.detail]
    | none => .ok a

/-- A formula from its fields. All fields are looked at; a count that is not
valid bounds nothing. -/
def Cnf.Document.ofFields (fields : List (Value × Value)) : Checked Cnf.Document :=
  let count := (Value.required fields "num_vars" Value.readInt).obeying fun n =>
    if n < 0 then some .negativeCount else none
  let clauses :=
    (Value.required fields "clauses" (Value.readList (Value.readList Value.readInt))).obeying
      (Cnf.clausesViolation? count.toOption)
  let names :=
    (Value.optional fields "names" Table.empty
      (Value.readTable Value.readInt Value.readString)).obeying
      fun names => Cnf.namesViolation? count.toOption names.keys
  match count, clauses, names with
  | .ok n, .ok cs, .ok ns => (Cnf.Document.ofParts n cs ns).mapError (·.map (·.detail))
  | count, clauses, names => .error (count.details ++ clauses.details ++ names.details)

/-! ## Configurations and spaces -/

/-- A configuration from a map of names to truth values. -/
def Configuration.ofValue (selection : Value) : Checked Configuration :=
  ((Value.readTable Value.readString Value.readBool selection).below (.field "selection")).map
    fun t => ⟨t⟩

/-- A space from its condition text, its configurations and its limit. -/
def Space.ofValues (condition : Value) (configurations : List Configuration) (limit : Value) :
    Checked Space :=
  match (Value.readString condition).below (.field "presence_condition"),
      (Value.readCount limit).below (.field "limit") with
  | .ok c, .ok n => .ok { Space.start c n with configurations := configurations }
  | condition, limit => .error (condition.details ++ limit.details)

end Variability
