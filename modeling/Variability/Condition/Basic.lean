-- Presence conditions: disjunctions of terms in one dialect, kept in a
-- normal form. Conjunction distributes over the terms.
import Variability.Condition.Term

namespace Variability

/-! ## Normal form -/

/-- The terms are different and none contradicts itself; the empty term
stands alone. -/
structure NormalTerms (ts : List Term) : Prop where
  nodup : ts.Nodup
  consistent : ∀ t ∈ ts, t.isContradictory = false
  empty_alone : Term.empty ∈ ts → ts = [Term.empty]

/-- The terms that no feature contradicts, each once. -/
def consistentTerms (ts : List Term) : List Term :=
  distinct (ts.filter fun t => !t.isContradictory)

/-- Drops contradictory and repeated terms. With an empty term among them the
whole disjunction is true. -/
def normalizeTerms (ts : List Term) : List Term :=
  if (consistentTerms ts).any Term.isEmpty then [Term.empty] else consistentTerms ts

theorem normalTerms_true : NormalTerms [Term.empty] where
  nodup := by simp
  consistent := by simp [Term.empty_not_contradictory]
  empty_alone := fun _ => rfl

theorem normalTerms_false : NormalTerms [] where
  nodup := by simp
  consistent := by simp
  empty_alone := by simp

theorem mem_consistentTerms {t : Term} {ts : List Term} :
    t ∈ consistentTerms ts ↔ t ∈ ts ∧ t.isContradictory = false := by
  simp [consistentTerms, mem_distinct]

theorem normalTerms_normalize (ts : List Term) : NormalTerms (normalizeTerms ts) := by
  unfold normalizeTerms
  split
  · exact normalTerms_true
  · rename_i h
    refine ⟨nodup_distinct _, fun t ht => (mem_consistentTerms.1 ht).2, fun he => ?_⟩
    exact absurd (List.any_eq_true.2 ⟨_, he, rfl⟩) h

/-! ## Conditions -/

/-- A disjunction of terms. One empty term means true, no term means false. -/
structure Condition where
  dialect : Dialect
  terms : List Term
  normal : NormalTerms terms

/-- The dialects of two conditions that cannot be conjoined. -/
structure Incompatible where
  left : Dialect
  right : Dialect
deriving DecidableEq, Repr

def Incompatible.message (e : Incompatible) : String :=
  "Cannot conjoin " ++ e.left.name ++ " condition with " ++ e.right.name ++ " condition"

namespace Condition

theorem ext {a b : Condition} (hd : a.dialect = b.dialect) (ht : a.terms = b.terms) : a = b := by
  cases a; cases b; cases hd; cases ht; rfl

instance : DecidableEq Condition := fun a b =>
  if h : a.dialect = b.dialect ∧ a.terms = b.terms then isTrue (ext h.1 h.2)
  else isFalse fun hab => h (hab ▸ ⟨rfl, rfl⟩)

def ofTerms (d : Dialect) (ts : List Term) : Condition :=
  ⟨d, normalizeTerms ts, normalTerms_normalize ts⟩

/-- The condition that always holds. -/
def always (d : Dialect) : Condition := ⟨d, [Term.empty], normalTerms_true⟩

/-- The condition that never holds. -/
def never (d : Dialect) : Condition := ⟨d, [], normalTerms_false⟩

def isTrue (c : Condition) : Bool := c.terms = [Term.empty]

def isFalse (c : Condition) : Bool := c.terms.isEmpty

def holds (a : Assignment) (c : Condition) : Bool := c.terms.any (·.holds a)

/-- Some term is not contradicted. -/
def agrees (a : PartialAssignment) (c : Condition) : Bool := c.terms.any (·.agrees a)

theorem agrees_some (a : Assignment) (c : Condition) :
    c.agrees (fun name => some (a name)) = c.holds a := by
  simp [agrees, holds, Term.agrees_some]

/-- The names of the features that occur, each once, in order of occurrence. -/
def features (c : Condition) : List String :=
  distinct (c.terms.flatMap fun t => t.literals.map (·.name))

/-- The names of the features that occur, each once, in order of code points. -/
def sortedFeatures (c : Condition) : List String :=
  c.features.mergeSort fun s t => decide (s ≤ t)

def compatible (a b : Condition) : Bool := a.dialect = b.dialect

/-! ## Conjunction -/

/-- Every term of the one list with every term of the other. -/
def termProducts (ss ts : List Term) : List Term :=
  ss.flatMap fun s => ts.map fun t => Term.ofList (s.literals ++ t.literals)

/-- Both conditions hold. A condition that is true leaves the other as it is. -/
def conjoin (a b : Condition) : Except Incompatible Condition :=
  if a.dialect ≠ b.dialect then .error ⟨a.dialect, b.dialect⟩
  else if a.isTrue then .ok b
  else if b.isTrue then .ok a
  else .ok (ofTerms a.dialect (termProducts a.terms b.terms))

/-! ## Text -/

/-- A term among others: in parentheses unless it is a single literal. -/
def renderOperand (d : Dialect) (t : Term) : String :=
  if 1 < t.literals.length then "(" ++ t.render d ++ ")" else t.render d

def render (c : Condition) : String :=
  if c.isTrue then "True"
  else
    match c.terms with
    | [] => "False"
    | [t] => t.render c.dialect
    | ts => " || ".intercalate (ts.map (renderOperand c.dialect))

end Condition

end Variability
