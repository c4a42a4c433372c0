-- Lists without repetition, in the order of first occurrence.
import Std.Data.HashSet

namespace Variability

/-- Lists of at most this length are searched from end to end. Longer ones are
hashed. -/
def searchLimit : Nat := 32

/-! ## First occurrences -/

/-- The members of a list, each once, at the place where it first occurs. -/
def firsts {α : Type} [DecidableEq α] : List α → List α
  | [] => []
  | a :: l => a :: (firsts l).filter (· ≠ a)

/-- The members of a list that have not been seen, each once, at the place where
it first occurs. -/
def firstsUnseen {α : Type} [BEq α] [Hashable α] (seen : Std.HashSet α) : List α → List α
  | [] => []
  | a :: l =>
    if seen.contains a then firstsUnseen seen l else a :: firstsUnseen (seen.insert a) l

/-- The members of a list, each once, at the place where it first occurs. -/
def distinct {α : Type} [DecidableEq α] [Hashable α] (l : List α) : List α :=
  if l.length ≤ searchLimit then firsts l else firstsUnseen ∅ l

theorem firstsUnseen_eq_filter {α : Type} [DecidableEq α] [Hashable α] (seen : Std.HashSet α)
    (l : List α) : firstsUnseen seen l = (firsts l).filter fun a => !seen.contains a := by
  induction l generalizing seen with
  | nil => rfl
  | cons a l ih =>
    simp only [firstsUnseen, firsts, List.filter_cons, List.filter_filter]
    cases h : seen.contains a with
    | true =>
      simp only [if_true, Bool.not_true, Bool.false_eq_true, if_false, ih]
      refine List.filter_congr fun b _ => ?_
      by_cases hb : b = a
      · simp [hb, h]
      · simp [hb]
    | false =>
      simp only [Bool.false_eq_true, if_false, Bool.not_false, if_true, ih]
      congr 1
      refine List.filter_congr fun b _ => ?_
      rw [Std.HashSet.contains_insert]
      by_cases hb : b = a
      · simp [hb]
      · simp [hb, Ne.symm hb]

theorem distinct_eq_firsts {α : Type} [DecidableEq α] [Hashable α] (l : List α) :
    distinct l = firsts l := by
  unfold distinct
  split
  · rfl
  · rw [firstsUnseen_eq_filter]
    exact List.filter_eq_self.2 fun a _ => by simp

theorem mem_firsts {α : Type} [DecidableEq α] {a : α} {l : List α} : a ∈ firsts l ↔ a ∈ l := by
  induction l with
  | nil => simp [firsts]
  | cons b l ih =>
    by_cases h : a = b <;> simp [firsts, ih, h]

theorem nodup_firsts {α : Type} [DecidableEq α] (l : List α) : (firsts l).Nodup := by
  induction l with
  | nil => simp [firsts]
  | cons b l ih =>
    simp only [firsts, List.nodup_cons, List.mem_filter]
    exact ⟨by simp, ih.filter _⟩

theorem firsts_eq_self {α : Type} [DecidableEq α] {l : List α} (h : l.Nodup) : firsts l = l := by
  induction l with
  | nil => rfl
  | cons b l ih =>
    obtain ⟨hb, hl⟩ := List.nodup_cons.1 h
    rw [firsts, ih hl]
    congr 1
    refine List.filter_eq_self.2 fun a ha => ?_
    simpa using fun hab : a = b => hb (hab ▸ ha)

/-- One member more stands last, unless it is there already. -/
theorem firsts_concat {α : Type} [DecidableEq α] (l : List α) (a : α) :
    firsts (l ++ [a]) = if a ∈ l then firsts l else firsts l ++ [a] := by
  induction l with
  | nil => simp [firsts]
  | cons b l ih =>
    rw [List.cons_append, firsts, ih]
    by_cases hab : a = b
    · subst hab
      by_cases h : a ∈ l <;> simp [firsts, h]
    · by_cases h : a ∈ l <;> simp [firsts, h, hab]

theorem mem_distinct {α : Type} [DecidableEq α] [Hashable α] {a : α} {l : List α} :
    a ∈ distinct l ↔ a ∈ l := by
  rw [distinct_eq_firsts, mem_firsts]

theorem nodup_distinct {α : Type} [DecidableEq α] [Hashable α] (l : List α) :
    (distinct l).Nodup := by
  rw [distinct_eq_firsts]
  exact nodup_firsts l

theorem distinct_eq_self {α : Type} [DecidableEq α] [Hashable α] {l : List α} (h : l.Nodup) :
    distinct l = l := by
  rw [distinct_eq_firsts, firsts_eq_self h]

end Variability
