-- Bad settings: which of them are reported as bad settings, and which errors
-- reach the caller as they arose.
import Mathlib.Data.List.Basic
import Variability.Proofs.Files
import Variability.Proofs.JsonLimits
import Variability.Proofs.LexicalForms
import Variability.Settings

namespace Variability

/-! ## Values that cannot be shown -/

namespace Value

mutual

/-- A value and what stands in it, each with the number of values around it, in
the order of the text that shows the value. -/
def visits (depth : Nat) : Value → List (Nat × Value)
  | list items => (depth, list items) :: itemVisits (depth + 1) items
  | tuple items => (depth, tuple items) :: itemVisits (depth + 1) items
  | map entries => (depth, map entries) :: entryVisits (depth + 1) entries
  | v => [(depth, v)]

def itemVisits (depth : Nat) : List Value → List (Nat × Value)
  | [] => []
  | v :: rest => visits depth v ++ itemVisits depth rest

def entryVisits (depth : Nat) : List (Value × Value) → List (Nat × Value)
  | [] => []
  | (k, v) :: rest => (visits depth k ++ visits depth v) ++ entryVisits depth rest

end

/-- A whole number with too many digits. -/
def IsLong : Value → Prop
  | int i => hasTooManyDigits i = true
  | _ => False

/-- What is wrong with one of the values that a text shows, by itself. -/
def visitFault? (room : Nat) (p : Nat × Value) : Option ShowFault :=
  if room < p.1 then some .tooDeep
  else
    match p.2 with
    | int i => if hasTooManyDigits i then some .longInteger else none
    | _ => none

/-- More than `room` values stand around one that the text comes to before any
whole number with too many digits. -/
def NestsBeyond (room : Nat) (v : Value) : Prop :=
  ∃ before depth inner after, v.visits 0 = before ++ (depth, inner) :: after ∧
    room < depth ∧ ∀ p ∈ before, ¬ p.2.IsLong

section Visits

variable {depth room : Nat}

theorem visits_eq_cons (depth : Nat) (v : Value) :
    ∃ rest, v.visits depth = (depth, v) :: rest := by
  cases v <;> exact ⟨_, rfl⟩

/-- With no room left the next value is too deep. -/
theorem findSome?_visits_of_lt (h : room < depth) (v : Value) (more : List (Nat × Value)) :
    (v.visits depth ++ more).findSome? (visitFault? room) = some .tooDeep := by
  obtain ⟨rest, hrest⟩ := visits_eq_cons depth v
  rw [hrest, List.cons_append]
  simp [visitFault?, h]

mutual

/-- Showing a value stops at the first of its values with which something is
wrong. -/
theorem showFault?_eq (depth room : Nat) : ∀ v : Value,
    showFault? room v = (v.visits depth).findSome? (visitFault? (depth + room))
  | .null | .bool _ | .float _ | .string _ | .unpaired _ => by
    simp [showFault?, visits, visitFault?]
  | .int i => by
    by_cases hi : hasTooManyDigits i = true <;> simp [showFault?, visits, visitFault?, hi]
  | .list items => by
    simp [showFault?, visits, visitFault?, itemsFault?_eq depth room items]
  | .tuple items => by
    simp [showFault?, visits, visitFault?, itemsFault?_eq depth room items]
  | .map entries => by
    simp [showFault?, visits, visitFault?, entriesFault?_eq depth room entries]

theorem itemsFault?_eq (depth room : Nat) : ∀ items : List Value,
    itemsFault? room items =
      (itemVisits (depth + 1) items).findSome? (visitFault? (depth + room))
  | [] => by simp [itemsFault?, itemVisits]
  | v :: rest => by
    cases room with
    | zero => exact (findSome?_visits_of_lt (Nat.lt_succ_self depth) v _).symm
    | succ room =>
      have hroom : depth + 1 + room = depth + (room + 1) := by omega
      have hfirst := showFault?_eq (depth + 1) room v
      rw [hroom] at hfirst
      rw [itemsFault?, itemVisits, List.findSome?_append, hfirst,
        itemsFault?_eq depth (room + 1) rest]

theorem entriesFault?_eq (depth room : Nat) : ∀ entries : List (Value × Value),
    entriesFault? room entries =
      (entryVisits (depth + 1) entries).findSome? (visitFault? (depth + room))
  | [] => by simp [entriesFault?, entryVisits]
  | (k, v) :: rest => by
    cases room with
    | zero =>
      rw [entryVisits, List.append_assoc]
      exact (findSome?_visits_of_lt (Nat.lt_succ_self depth) k _).symm
    | succ room =>
      have hroom : depth + 1 + room = depth + (room + 1) := by omega
      have hkey := showFault?_eq (depth + 1) room k
      have hvalue := showFault?_eq (depth + 1) room v
      rw [hroom] at hkey hvalue
      rw [entriesFault?, entryVisits, List.findSome?_append, List.findSome?_append, hkey,
        hvalue, entriesFault?_eq depth (room + 1) rest]

end

end Visits

section Faults

variable {room : Nat} {p : Nat × Value} {v : Value}

end Faults

end Value

/-! ## Budgets -/

namespace Budget

open Settings

/-- Values that stop whoever reads them as a budget: a whole number that is too
large to be rounded, a text with surrogates, and what cannot be shown because it
nests too deep. -/
inductive Stops (room : Nat) : Value → Prop
  | large {i : Int} (h : 2 ^ 1024 - 2 ^ 970 ≤ i.natAbs) : Stops room (.int i)
  | unpaired (points : List Nat) : Stops room (.unpaired points)
  | deep {v : Value} (h : v.NestsBeyond room) : Stops room v

section Faults

variable {room : Nat} {v : Value} {fault : BudgetFault}

end Faults

end Budget

namespace Settings

/-! ## Fields -/

/-- The budget among the fields stops whoever reads it. -/
def BudgetEscapes (room : Nat) (fields : List (Value × Value)) : Prop :=
  ∃ v, Value.field? fields "time_limit" = some v ∧ Budget.Stops room v

section Fields

variable {room : Nat} {fields : List (Value × Value)} {e : SettingsError}

end Fields

/-! ## Settings files -/

/-- What is wrong with a settings file and is not reported as bad settings. -/
inductive FileEscapes (w : Workspace) (path : List Nat) : Prop
  | nullCharacter (h : 0 ∈ path)
  | notUtf8 {bytes : List UInt8} (hread : w.readAt path = .ok bytes)
      (h : Text.utf8Text? bytes = none)
  | longInteger {bytes : List UInt8} {text : List Char} {fault : Text.IntegerFault}
      (hread : w.readAt path = .ok bytes) (htext : Text.utf8Text? bytes = some text)
      (h : Json.parse w.depths.json text = .error (.longInteger fault))
  | tooDeep {bytes : List UInt8} {text : List Char} {container : Json.Container}
      (hread : w.readAt path = .ok bytes) (htext : Text.utf8Text? bytes = some text)
      (h : Json.parse w.depths.json text = .error (.tooDeep container))

section File

variable {w : Workspace} {path : List Nat} {e : SettingsError} {fault : FileFault}

end File

/-! ## Layers -/

/-- What is wrong with the layers and is not reported as bad settings: with the
file that the environment names, or with the budget that the layers give
together. -/
inductive Escapes (w : Workspace) (env : Environment) (overrides : List (String × Value)) : Prop
  | file {path : List UInt8} (hpath : setVariable? env filePathWord = some path)
      (h : FileEscapes w (Text.escapedPoints path))
  | budget {file : List (String × Value)} (hfile : lowestLayer w env = .ok file)
      (h : BudgetEscapes w.depths.values
        (overlay [file, environmentLayer env, overrideLayer overrides]))

section Layers

variable {w : Workspace} {env : Environment} {overrides : List (String × Value)}
  {e : SettingsError}

end Layers

end Settings

end Variability
