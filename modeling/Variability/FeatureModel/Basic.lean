-- Feature models: formulas whose variables are features.
import Variability.Cnf.Dimacs
import Variability.Data.Index
import Variability.Text.Quoted

namespace Variability

structure FeatureModel where
  document : Cnf.Document
  source : String

namespace FeatureModel

/-- The named variables in ascending order. -/
def sortedNames (d : Cnf.Document) : List (Int × String) :=
  d.names.entries.mergeSort fun p q => decide (p.1 ≤ q.1)

/-- The variables `1..n` under their own numbers. -/
def numberedFeatures (n : Nat) : List (String × Int) :=
  (List.range n).map fun i => (toString (i + 1), (i + 1 : Nat))

/-- The features and their variables. Of several variables with one name the
last has it; the name keeps the place of the first. A model without names has
all its variables as features. -/
def features (m : FeatureModel) : List (String × Int) :=
  if m.document.names.entries = [] then numberedFeatures m.document.varCount
  else (Table.ofList ((sortedNames m.document).map fun p => (p.2, p.1))).entries

def varCount (m : FeatureModel) : Nat := m.document.varCount

def clauses (m : FeatureModel) : List Clause := m.document.clauses

/-- The features prepared for look-ups. -/
def index (m : FeatureModel) : Index String Int := Index.ofList m.features

def describe (m : FeatureModel) : String :=
  "FeatureModel(" ++ Text.quoted m.source ++
    s!", features={m.features.length}, clauses={m.clauses.length})"

end FeatureModel

end Variability
