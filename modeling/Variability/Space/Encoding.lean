-- Encodings: a condition and a feature model as one formula, with the
-- variables whose values make up a configuration.
import Variability.Condition.Basic
import Variability.FeatureModel.Basic

namespace Variability

/-- Clauses, and the variables to enumerate with their names, in ascending
order of the variables. -/
structure Encoding where
  clauses : List Clause
  projection : List (Int × String)
deriving DecidableEq, Repr

namespace Encoding

/-! ## Variables -/

/-- The features of a condition that a model does not have, in order. -/
def unknownFeatures (c : Condition) (m : FeatureModel) : List String :=
  let known := m.index
  c.sortedFeatures.filter fun name => !known.contains name

/-- Names with consecutive variables from `first` on. -/
def numberFrom (first : Int) (names : List String) : List (String × Int) :=
  names.zipIdx.map fun p => (p.1, first + p.2)

/-- The features of the model, then those that only the condition has, with
variables of their own behind those of the model. -/
def variableTable (c : Condition) (m : FeatureModel) : List (String × Int) :=
  m.features ++ numberFrom (m.varCount + 1) (unknownFeatures c m)

/-- The first variable behind those of the model and of the features. -/
def firstSelector (c : Condition) (m : FeatureModel) : Int :=
  m.varCount + 1 + (unknownFeatures c m).length

def variableOf (index : Index String Int) (name : String) : Int :=
  (index.get? name).getD 0

def literalOf (index : Index String Int) (l : Literal) : Int :=
  if l.negated then -variableOf index l.name else variableOf index l.name

/-! ## Clauses -/

/-- Each literal of the term follows from the selector. -/
def selectedClauses (index : Index String Int) (selector : Int) (t : Term) : List Clause :=
  t.literals.map fun l => [-selector, literalOf index l]

/-- The clauses of a condition. A single term becomes unit clauses. Of several
terms each has a selector, and one of the selectors is true. -/
def conditionClauses (index : Index String Int) (first : Int) (c : Condition) :
    List Clause :=
  if c.isTrue then []
  else
    match c.terms with
    | [t] => t.literals.map fun l => [literalOf index l]
    | ts =>
      let selected := ts.zipIdx.map fun p => (p.1, first + p.2)
      selected.flatMap (fun p => selectedClauses index p.2 p.1) ++ [selected.map Prod.snd]

def projectionOf (table : List (String × Int)) : List (Int × String) :=
  (table.map fun p => (p.2, p.1)).mergeSort fun p q => decide (p.1 ≤ q.1)

end Encoding

/-- The condition on top of the feature model. -/
def Condition.encode (c : Condition) (m : FeatureModel) : Encoding :=
  let table := Encoding.variableTable c m
  let index := Index.ofList table
  ⟨m.clauses ++ Encoding.conditionClauses index (Encoding.firstSelector c m) c,
    Encoding.projectionOf table⟩

end Variability
