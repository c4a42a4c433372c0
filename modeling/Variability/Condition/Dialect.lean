-- Dialects: how a feature is written in a presence condition.
import Variability.Text.Quoted

namespace Variability

/-- Conditions of different dialects range over different features and never
mix. -/
inductive Dialect
  | plain
  | defined
deriving DecidableEq, Repr

namespace Dialect

def all : List Dialect := [plain, defined]

def name : Dialect → String
  | plain => "plain"
  | defined => "defined"

def ofName? (s : String) : Option Dialect := all.find? (·.name = s)

@[simp] theorem ofName?_name (d : Dialect) : ofName? d.name = some d := by
  cases d <;> decide

/-- What a name that belongs to no dialect is answered with. -/
def unknownMessage (s : String) : String := Text.quoted s ++ " is not a valid Dialect"

/-- A feature as the dialect writes it. -/
def renderFeature (d : Dialect) (feature : String) : String :=
  match d with
  | plain => feature
  | defined => "defined(" ++ feature ++ ")"

def renderLiteral (d : Dialect) (feature : String) (negated : Bool) : String :=
  (if negated then "!" else "") ++ d.renderFeature feature

end Dialect

end Variability
