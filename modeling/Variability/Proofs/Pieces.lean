-- Texts in pieces: what trimming takes off, and how a text is cut at an
-- operator.
import Mathlib.Data.List.TakeWhile
import Variability.Text.Split

namespace Variability.Text

/-! ## Runs of characters -/

section Runs

variable {p : Char → Bool} {run rest : List Char}

/-- A run ends where what follows does not go on with it. -/
theorem takeWhile_append_of_stop (hrun : ∀ c ∈ run, p c = true)
    (hstop : ∀ c, rest.head? = some c → p c = false) : (run ++ rest).takeWhile p = run := by
  rw [List.takeWhile_append_of_pos hrun]
  cases rest with
  | nil => simp
  | cons c rest => simp [hstop c rfl]

theorem dropWhile_append_of_stop (hrun : ∀ c ∈ run, p c = true)
    (hstop : ∀ c, rest.head? = some c → p c = false) : (run ++ rest).dropWhile p = rest := by
  rw [List.dropWhile_append_of_pos hrun]
  cases rest with
  | nil => rfl
  | cons c rest => simp [hstop c rfl]

end Runs

/-! ## Trimming -/

/-- No blank stands at either end. -/
structure Trimmed (cs : List Char) : Prop where
  head : ∀ c, cs.head? = some c → isBlank c = false
  last : ∀ c, cs.getLast? = some c → isBlank c = false

theorem exists_blanks_trimStart (cs : List Char) :
    ∃ front, cs = front ++ trimStart cs ∧ ∀ c ∈ front, isBlank c = true := by
  refine ⟨cs.takeWhile isBlank, List.takeWhile_append_dropWhile.symm, ?_⟩
  intro c hc
  exact List.mem_takeWhile_imp hc

theorem exists_blanks_trimEnd (cs : List Char) :
    ∃ back, cs = trimEnd cs ++ back ∧ ∀ c ∈ back, isBlank c = true := by
  refine ⟨(cs.reverse.takeWhile isBlank).reverse, ?_, ?_⟩
  · rw [trimEnd_eq_reverse, ← List.reverse_append, List.takeWhile_append_dropWhile,
      List.reverse_reverse]
  · intro c hc
    exact List.mem_takeWhile_imp (List.mem_reverse.mp hc)

/-- Trimming takes blanks off either end. -/
theorem exists_blanks_trim (cs : List Char) :
    ∃ front back, cs = front ++ trim cs ++ back ∧ (∀ c ∈ front, isBlank c = true) ∧
      ∀ c ∈ back, isBlank c = true := by
  obtain ⟨front, hfront, hf⟩ := exists_blanks_trimStart cs
  obtain ⟨back, hback, hb⟩ := exists_blanks_trimEnd (trimStart cs)
  refine ⟨front, back, ?_, hf, hb⟩
  rw [List.append_assoc, trim, ← hback]
  exact hfront

theorem head?_trimStart (cs : List Char) (c : Char) (h : (trimStart cs).head? = some c) :
    isBlank c = false := by
  have := List.head?_dropWhile_not isBlank cs
  rw [← trimStart, h] at this
  simpa using this

theorem getLast?_trimEnd (cs : List Char) (c : Char) (h : (trimEnd cs).getLast? = some c) :
    isBlank c = false := by
  rw [trimEnd_eq_reverse, List.getLast?_reverse] at h
  exact head?_trimStart cs.reverse c h

theorem trimmed_trim (cs : List Char) : Trimmed (trim cs) := by
  refine ⟨?_, getLast?_trimEnd _⟩
  intro c hc
  obtain ⟨back, hback, _⟩ := exists_blanks_trimEnd (trimStart cs)
  apply head?_trimStart cs c
  rw [hback]
  unfold trim at hc
  rw [List.head?_append, hc]
  rfl

theorem Trimmed.trimStart_eq {cs : List Char} (h : Trimmed cs) : trimStart cs = cs := by
  cases cs with
  | nil => rfl
  | cons c rest => exact List.dropWhile_cons_of_neg (by simp [h.head c rfl])

theorem Trimmed.trim_eq {cs : List Char} (h : Trimmed cs) : trim cs = cs := by
  rw [trim, h.trimStart_eq, trimEnd, if_neg]
  cases hlast : cs.getLast? with
  | none => simp
  | some c => simp [h.last c hlast]

theorem trimStart_blanks_append {blanks cs : List Char} (hb : ∀ c ∈ blanks, isBlank c = true)
    (hcs : ∀ c, cs.head? = some c → isBlank c = false) : trimStart (blanks ++ cs) = cs :=
  dropWhile_append_of_stop hb hcs

theorem trim_of_blanks_append {front : List Char} (hf : ∀ c ∈ front, isBlank c = true)
    (cs : List Char) : trim (front ++ cs) = trim cs := by
  unfold trim trimStart
  rw [List.dropWhile_append_of_pos hf]

theorem trim_of_append_blanks {back : List Char} (hb : ∀ c ∈ back, isBlank c = true)
    (cs : List Char) : trim (cs ++ back) = trim cs := by
  have hreverse : ∀ c ∈ back.reverse, isBlank c = true := by simpa using hb
  unfold trim trimStart
  rw [List.dropWhile_append]
  split
  · rename_i hnone
    rw [List.isEmpty_iff.mp hnone, List.dropWhile_eq_nil_iff.mpr hb]
  · rw [trimEnd_eq_reverse, trimEnd_eq_reverse, List.reverse_append,
      List.dropWhile_append_of_pos hreverse]

/-- A text of blanks has nothing between them. -/
theorem trim_eq_nil_iff {cs : List Char} : trim cs = [] ↔ ∀ c ∈ cs, isBlank c = true := by
  constructor
  · intro h
    obtain ⟨front, back, hcs, hf, hb⟩ := exists_blanks_trim cs
    rw [h, List.append_nil] at hcs
    rw [hcs]
    intro c hc
    rcases List.mem_append.mp hc with hc | hc
    · exact hf c hc
    · exact hb c hc
  · intro h
    have hstart : trimStart cs = [] := List.dropWhile_eq_nil_iff.mpr h
    rw [trim, hstart]
    rfl

/-! ## Marks -/

section Marks

variable {p : Char → Bool} {cs : List Char}

/-- What lies before the first mark has no mark in it. -/
theorem not_mem_takeWhile {c : Char} (hc : p c = true) (cs : List Char) :
    c ∉ cs.takeWhile (!p ·) := by
  intro hmem
  simpa [hc] using List.mem_takeWhile_imp hmem

theorem takeWhile_of_dropWhile_nil (h : cs.dropWhile (!p ·) = []) : cs.takeWhile (!p ·) = cs := by
  simpa [h] using List.takeWhile_append_dropWhile (p := (!p ·)) (l := cs)

/-- What comes behind is a mark and the rest. -/
theorem mark_of_dropWhile_cons {c : Char} {rest : List Char} (h : cs.dropWhile (!p ·) = c :: rest) :
    p c = true ∧ cs.takeWhile (!p ·) ++ c :: rest = cs := by
  have hhead := List.head?_dropWhile_not (!p ·) cs
  rw [h] at hhead
  exact ⟨by simpa using hhead, h ▸ List.takeWhile_append_dropWhile⟩

theorem cutWhere_eq_splitOn (a : Char) (cs : List Char) : cutWhere (· = a) cs = cs.splitOn a := by
  fun_induction cutWhere (fun c => decide (c = a)) cs with
  | case1 cs hnone =>
    have hall := takeWhile_of_dropWhile_nil hnone
    have hfree := hall ▸ not_mem_takeWhile (decide_eq_true rfl) cs
    rw [hall, List.splitOn_eq_singleton hfree]
  | case2 cs c rest hsome ih =>
    obtain ⟨hc, hcs⟩ := mark_of_dropWhile_cons hsome
    obtain rfl := of_decide_eq_true hc
    have hfree := not_mem_takeWhile (p := fun d => decide (d = c)) (decide_eq_true rfl) cs
    have hsplit := List.splitOn_append_cons_self_of_not_mem hfree rest
    rw [hcs] at hsplit
    rw [ih, hsplit]

/-- No piece between marks has a mark in it. -/
theorem not_mem_of_mem_splitOn {a : Char} {piece : List Char} (h : piece ∈ cs.splitOn a) :
    a ∉ piece := by
  rw [← cutWhere_eq_splitOn] at h
  fun_induction cutWhere (fun c => decide (c = a)) cs with
  | case1 cs hnone =>
    rw [List.mem_singleton] at h
    exact h ▸ not_mem_takeWhile (decide_eq_true rfl) cs
  | case2 cs c rest hsome ih =>
    rcases List.mem_cons.mp h with rfl | h
    · exact not_mem_takeWhile (decide_eq_true rfl) cs
    · exact ih h

end Marks

/-! ## Operands -/

section Operands

variable {op : Char} {xs ys : List Char}

theorem operands_eq (op : Char) (cs : List Char) :
    operands op cs =
      match cs.dropWhile (· != op) with
      | [] => [cs.takeWhile (· != op)]
      | _ :: rest => cs.takeWhile (· != op) :: operands op (dropOne op rest) := by
  rw [operands]
  split <;> rename_i h <;> rw [h]

theorem ne_of_mem_of_not_mem (h : op ∉ xs) : ∀ c ∈ xs, (c != op) = true := by
  intro c hc
  rw [bne_iff_ne]
  rintro rfl
  exact h hc

theorem operands_of_not_mem (h : op ∉ xs) : operands op xs = [xs] := by
  have hall := ne_of_mem_of_not_mem h
  rw [operands_eq, List.dropWhile_eq_nil_iff.mpr hall, List.takeWhile_eq_self_iff.mpr hall]

/-- The first operand ends before the first operator. -/
theorem operands_append_cons (h : op ∉ xs) (ys : List Char) :
    operands op (xs ++ op :: ys) = xs :: operands op (dropOne op ys) := by
  have hall := ne_of_mem_of_not_mem h
  have hstop : ∀ c, (op :: ys).head? = some c → (c != op) = false := by
    rintro c ⟨⟩
    exact bne_self_eq_false op
  rw [operands_eq, dropWhile_append_of_stop hall hstop, takeWhile_append_of_stop hall hstop]

theorem dropOne_of_ne (h : ys.head? ≠ some op) : dropOne op ys = ys := by
  cases ys with
  | nil => rfl
  | cons c ys =>
    rw [dropOne, if_neg]
    rintro rfl
    exact h rfl

theorem dropOne_self (op : Char) (ys : List Char) : dropOne op (op :: ys) = ys := by
  rw [dropOne, if_pos rfl]

/-- What stands behind an operator is cut for itself, whatever stands before. -/
theorem operands_behind {op : Char} {ys : List Char} (hys : ys.head? ≠ some op) (xs : List Char) :
    ∃ front, operands op (xs ++ op :: ys) = front ++ operands op ys := by
  by_cases hop : op ∈ xs
  · obtain ⟨a, b, hxs, ha⟩ := List.eq_append_cons_of_mem hop
    have hlength : b.length < xs.length := by
      rw [hxs, List.length_append, List.length_cons]
      omega
    have hrest : ∃ front, operands op (dropOne op (b ++ op :: ys)) = front ++ operands op ys := by
      cases b with
      | nil =>
        rw [List.nil_append, dropOne_self]
        exact ⟨[], rfl⟩
      | cons c b =>
        rw [List.length_cons] at hlength
        by_cases hc : c = op
        · rw [hc, List.cons_append, dropOne_self]
          exact operands_behind hys b
        · rw [dropOne_of_ne (by simpa using hc)]
          exact operands_behind hys (c :: b)
    obtain ⟨front, hfront⟩ := hrest
    refine ⟨a :: front, ?_⟩
    rw [hxs, List.append_assoc, List.cons_append, operands_append_cons ha, hfront,
      List.cons_append]
  · rw [operands_append_cons hop, dropOne_of_ne hys]
    exact ⟨[xs], rfl⟩
termination_by xs.length
decreasing_by
  all_goals
    simp only [List.length_cons] at *
    omega

/-- A text that does not end in the operator is cut for itself. -/
theorem operands_append {op : Char} {xs : List Char} (hxs : xs.getLast? ≠ some op)
    (ys : List Char) :
    operands op (xs ++ op :: ys) = operands op xs ++ operands op (dropOne op ys) := by
  by_cases hop : op ∈ xs
  · obtain ⟨a, b, hab, ha⟩ := List.eq_append_cons_of_mem hop
    have hlength : b.length < xs.length := by
      rw [hab, List.length_append, List.length_cons]
      omega
    have hb : (op :: b).getLast? ≠ some op := by
      rw [hab, List.getLast?_append, Option.or_of_isSome (by simp)] at hxs
      exact hxs
    rw [hab, List.append_assoc, List.cons_append, operands_append_cons ha,
      operands_append_cons ha, List.cons_append]
    congr 1
    cases b with
    | nil => simp at hb
    | cons c b =>
      rw [List.length_cons] at hlength
      rw [List.getLast?_cons_cons] at hb
      by_cases hc : c = op
      · rw [hc, List.cons_append, dropOne_self, dropOne_self]
        apply operands_append
        cases b with
        | nil => simp
        | cons d b => rwa [List.getLast?_cons_cons] at hb
      · rw [dropOne_of_ne (by simpa using hc), dropOne_of_ne (by simpa using hc)]
        exact operands_append hb ys
  · rw [operands_append_cons hop, operands_of_not_mem hop]
    rfl
termination_by xs.length
decreasing_by
  all_goals
    simp only [List.length_cons] at *
    omega

end Operands

end Variability.Text
