-- Configurations: one selection of features each.
import Variability.Condition.Term
import Variability.Data.Table

namespace Variability

structure Configuration where
  selection : Table String Bool
deriving DecidableEq

namespace Configuration

/-- Whether a feature is selected, if the configuration decides on it. -/
def value? (c : Configuration) (name : String) : Option Bool := c.selection.get? name

/-- The entries in the order of their names. -/
def sortedEntries (c : Configuration) : List (String × Bool) :=
  c.selection.entries.mergeSort fun p q => decide (p.1 ≤ q.1)

/-- The selected features in order. -/
def selected (c : Configuration) : List String :=
  (c.sortedEntries.filter Prod.snd).map Prod.fst

/-- A feature, with a mark in front unless it is selected. -/
def entryText (p : String × Bool) : String := if p.2 then p.1 else "!" ++ p.1

def text (c : Configuration) : String := " ".intercalate (c.sortedEntries.map entryText)

/-- The features that the configuration does not decide on are deselected. -/
def assignment (c : Configuration) : Assignment := fun name => (c.value? name).getD false

end Configuration

end Variability
