-- A search for satisfying literals: take a literal of a shortest clause, try
-- it, and try its negation if that fails.
import Variability.Cnf.Document

namespace Variability.Sat

/-! ## Committing to a literal -/

/-- What is left of the clauses once `l` is true. -/
def assign (l : Int) (cs : List Clause) : List Clause :=
  (cs.filter fun c => !c.contains l).map fun c => c.filter (· ≠ -l)

/-- The number of literals. -/
def size : List Clause → Nat
  | [] => 0
  | c :: cs => c.length + size cs

theorem assign_cons (l : Int) (c : Clause) (cs : List Clause) :
    assign l (c :: cs) =
      if l ∈ c then assign l cs else c.filter (· ≠ -l) :: assign l cs := by
  by_cases h : l ∈ c <;> simp [assign, h]

theorem size_assign_le (l : Int) (cs : List Clause) : size (assign l cs) ≤ size cs := by
  induction cs with
  | nil => simp [assign, size]
  | cons c cs ih =>
    rw [assign_cons]
    have := List.length_filter_le (fun x => decide (x ≠ -l)) c
    split <;> simp only [size] <;> omega

theorem size_assign_lt {l : Int} {c : Clause} {cs : List Clause} (hc : c ∈ cs)
    (hl : l ∈ c ∨ -l ∈ c) : size (assign l cs) < size cs := by
  induction cs with
  | nil => cases hc
  | cons d cs ih =>
    rw [assign_cons]
    have hle := size_assign_le l cs
    have hfilter := List.length_filter_le (fun x => decide (x ≠ -l)) d
    rcases List.mem_cons.1 hc with rfl | hc
    · split
      · rename_i h
        have := List.length_pos_of_mem h
        simp only [size]
        omega
      · rename_i h
        have hm : -l ∈ c := hl.resolve_left h
        have : (c.filter fun x => decide (x ≠ -l)).length < c.length :=
          List.length_filter_lt_length_iff_exists.2 ⟨-l, hm, by simp⟩
        simp only [size]
        omega
    · have := ih hc
      split <;> simp only [size] <;> omega

/-! ## The search -/

/-- A clause with the fewest literals; of several the first. -/
def shortest? : List Clause → Option Clause
  | [] => none
  | c :: cs =>
    match shortest? cs with
    | some d => if d.length < c.length then some d else some c
    | none => some c

theorem mem_of_shortest? {c : Clause} {cs : List Clause} (h : shortest? cs = some c) : c ∈ cs := by
  induction cs with
  | nil => simp [shortest?] at h
  | cons d cs ih =>
    unfold shortest? at h
    split at h
    · rename_i e he
      split at h
      · exact List.mem_cons_of_mem _ (ih (he.trans h))
      · cases h
        exact List.mem_cons_self
    · cases h
      exact List.mem_cons_self

/-- Literals that make every clause true, if there are such. -/
def search (cs : List Clause) : Option (List Int) :=
  match _h : shortest? cs with
  | none => some []
  | some [] => none
  | some (l :: _) =>
    match search (assign l cs) with
    | some found => some (l :: found)
    | none => (search (assign (-l) cs)).map (-l :: ·)
termination_by size cs
decreasing_by
  · exact size_assign_lt (mem_of_shortest? _h) (.inl List.mem_cons_self)
  · exact size_assign_lt (mem_of_shortest? _h) (.inr (by simp))

end Variability.Sat
