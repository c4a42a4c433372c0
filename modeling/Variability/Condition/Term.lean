-- Literals and terms: a possibly negated feature, and a conjunction of such.
import Variability.Condition.Dialect
import Variability.Data.Index

namespace Variability

/-- A selection of features. A feature that nobody mentions is deselected. -/
abbrev Assignment := String → Bool

/-- A selection in which some features are neither selected nor deselected. -/
abbrev PartialAssignment := String → Option Bool

/-! ## Feature names -/

/-- ASCII letters, digits and the underscore. -/
def isNameChar (c : Char) : Bool := c.isAlphanum || c = '_'

/-- A feature name without the line feed that may end it. -/
def nameBody (cs : List Char) : List Char :=
  if cs.getLast? = some '\n' then cs.dropLast else cs

/-- A feature name has at least one name character and nothing else, except
that one line feed may end it. -/
def isFeatureName (s : String) : Bool :=
  !(nameBody s.toList).isEmpty && (nameBody s.toList).all isNameChar

/-! ## Literals -/

/-- A possibly negated feature. -/
structure Literal where
  name : String
  negated : Bool
  valid : isFeatureName name = true
deriving DecidableEq

namespace Literal

instance : Hashable Literal := ⟨fun l => hash (l.name, l.negated)⟩

def ofName? (name : String) (negated : Bool) : Option Literal :=
  if h : isFeatureName name then some ⟨name, negated, h⟩ else none

/-- What a name that no feature may have is answered with. -/
def invalidNameMessage (name : String) : String := "Invalid feature name '" ++ name ++ "'"

def negate (l : Literal) : Literal := { l with negated := !l.negated }

def holds (a : Assignment) (l : Literal) : Bool := a l.name != l.negated

/-- A literal is not contradicted: by a feature without a truth value it is
not, whether negated or not. -/
def agrees (a : PartialAssignment) (l : Literal) : Bool := a l.name != some l.negated

def render (d : Dialect) (l : Literal) : String := d.renderLiteral l.name l.negated

/-- The name, with a mark in front if it is negated. -/
def spelling (l : Literal) : String := (if l.negated then "!" else "") ++ l.name

@[simp] theorem negate_negate (l : Literal) : l.negate.negate = l := by
  simp [negate]

theorem agrees_some (a : Assignment) (l : Literal) :
    l.agrees (fun name => some (a name)) = l.holds a := by
  unfold agrees holds
  cases h : a l.name <;> cases l.negated <;> simp [h]

theorem holds_negate (a : Assignment) (l : Literal) : l.negate.holds a = !l.holds a := by
  unfold holds negate
  cases a l.name <;> cases l.negated <;> rfl

end Literal

/-! ## Terms -/

/-- A conjunction of different literals. The empty term is true. -/
structure Term where
  literals : List Literal
  nodup : literals.Nodup
deriving DecidableEq

namespace Term

instance : Hashable Term := ⟨fun t => hash t.literals⟩

def empty : Term := ⟨[], List.nodup_nil⟩

/-- Repeated literals count once. -/
def ofList (ls : List Literal) : Term := ⟨distinct ls, nodup_distinct ls⟩

def isEmpty (t : Term) : Bool := t.literals.isEmpty

/-- Some feature occurs both negated and not. -/
def isContradictory (t : Term) : Bool :=
  let all := Index.ofKeys t.literals
  t.literals.any fun l => all.contains l.negate

theorem isContradictory_eq (t : Term) :
    t.isContradictory = t.literals.any fun l => t.literals.contains l.negate := by
  simp only [isContradictory, Index.contains_ofKeys]

def holds (a : Assignment) (t : Term) : Bool := t.literals.all (·.holds a)

/-- No literal is contradicted. -/
def agrees (a : PartialAssignment) (t : Term) : Bool := t.literals.all (·.agrees a)

theorem agrees_some (a : Assignment) (t : Term) :
    t.agrees (fun name => some (a name)) = t.holds a := by
  simp [agrees, holds, Literal.agrees_some]

def render (d : Dialect) (t : Term) : String :=
  " && ".intercalate (t.literals.map (·.render d))

theorem ext {s t : Term} (h : s.literals = t.literals) : s = t := by
  cases s; cases t; cases h; rfl

theorem ofList_literals (t : Term) : ofList t.literals = t :=
  ext (distinct_eq_self t.nodup)

theorem isEmpty_iff {t : Term} : t.isEmpty = true ↔ t = empty := by
  rw [isEmpty, List.isEmpty_iff]
  exact ⟨fun h => ext h, fun h => h ▸ rfl⟩

theorem empty_not_contradictory : empty.isContradictory = false := rfl

end Term

end Variability
