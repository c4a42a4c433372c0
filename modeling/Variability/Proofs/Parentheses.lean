-- Parentheses: how deep a text is in them, and what a text loses with the
-- pair around it.
import Variability.Condition.Parser
import Variability.Proofs.Pieces

namespace Variability.Condition

open Text

/-! ## Depth -/

/-- How many parentheses are open after a text, if `depth` are before it and it
closes none that is not open. -/
def depth? (depth : Nat) : List Char → Option Nat
  | [] => some depth
  | c :: rest =>
    if c = '(' then depth? (depth + 1) rest
    else if c = ')' then
      match depth with
      | 0 => none
      | above + 1 => depth? above rest
    else depth? depth rest

/-- Every parenthesis has its partner. -/
def Balanced (cs : List Char) : Prop := depth? 0 cs = some 0

theorem depth?_open (d : Nat) (cs : List Char) : depth? d ('(' :: cs) = depth? (d + 1) cs := by
  simp [depth?]

theorem depth?_close_zero (cs : List Char) : depth? 0 (')' :: cs) = none := by
  simp [depth?]

theorem depth?_close_succ (d : Nat) (cs : List Char) :
    depth? (d + 1) (')' :: cs) = depth? d cs := by
  simp [depth?]

theorem depth?_cons {c : Char} (hopen : c ≠ '(') (hclose : c ≠ ')') (d : Nat) (cs : List Char) :
    depth? d (c :: cs) = depth? d cs := by
  simp [depth?, hopen, hclose]

theorem depth?_append (d : Nat) (xs ys : List Char) :
    depth? d (xs ++ ys) = (depth? d xs).bind fun e => depth? e ys := by
  induction xs generalizing d with
  | nil => rfl
  | cons c xs ih =>
    rw [List.cons_append]
    by_cases hopen : c = '('
    · rw [hopen, depth?_open, depth?_open, ih]
    · by_cases hclose : c = ')'
      · cases d with
        | zero => rw [hclose, depth?_close_zero, depth?_close_zero, Option.bind_none]
        | succ d => rw [hclose, depth?_close_succ, depth?_close_succ, ih]
      · rw [depth?_cons hopen hclose, depth?_cons hopen hclose, ih]

/-- More open parentheses before a text are open after it. -/
theorem depth?_add {d e : Nat} {cs : List Char} (h : depth? d cs = some e) (k : Nat) :
    depth? (d + k) cs = some (e + k) := by
  induction cs generalizing d with
  | nil =>
    cases h
    rfl
  | cons c cs ih =>
    by_cases hopen : c = '('
    · rw [hopen, depth?_open] at h ⊢
      have := ih h
      rwa [show d + k + 1 = d + 1 + k by omega]
    · by_cases hclose : c = ')'
      · cases d with
        | zero =>
          rw [hclose, depth?_close_zero] at h
          cases h
        | succ d =>
          rw [hclose, depth?_close_succ] at h
          rw [hclose, show d + 1 + k = d + k + 1 by omega, depth?_close_succ]
          exact ih h
      · rw [depth?_cons hopen hclose] at h ⊢
        exact ih h

theorem depth?_of_noParens {cs : List Char} (h : ∀ c ∈ cs, c ≠ '(' ∧ c ≠ ')') (d : Nat) :
    depth? d cs = some d := by
  induction cs with
  | nil => rfl
  | cons c cs ih =>
    have hc := h c List.mem_cons_self
    rw [depth?_cons hc.1 hc.2]
    exact ih fun b hb => h b (List.mem_cons_of_mem _ hb)

theorem not_paren_of_isBlank {c : Char} (h : isBlank c = true) : c ≠ '(' ∧ c ≠ ')' := by
  constructor <;>
  · rintro rfl
    revert h
    decide

theorem depth?_of_blanks {cs : List Char} (h : ∀ c ∈ cs, isBlank c = true) (d : Nat) :
    depth? d cs = some d :=
  depth?_of_noParens (fun c hc => not_paren_of_isBlank (h c hc)) d

theorem exists_depth?_of_append {d e : Nat} {xs ys : List Char}
    (h : depth? d (xs ++ ys) = some e) : ∃ k, depth? d xs = some k := by
  rw [depth?_append] at h
  cases hx : depth? d xs with
  | none =>
    rw [hx] at h
    cases h
  | some k => exact ⟨k, rfl⟩

/-! ## Balance -/

theorem Balanced.depth? {cs : List Char} (h : Balanced cs) (d : Nat) :
    Condition.depth? d cs = some d := by
  have := depth?_add h d
  rwa [Nat.zero_add] at this

theorem balanced_nil : Balanced [] := rfl

theorem Balanced.append {xs ys : List Char} (hx : Balanced xs) (hy : Balanced ys) :
    Balanced (xs ++ ys) := by
  unfold Balanced
  rw [depth?_append, hx.depth? 0]
  exact hy

theorem balanced_of_noParens {cs : List Char} (h : ∀ c ∈ cs, c ≠ '(' ∧ c ≠ ')') : Balanced cs :=
  depth?_of_noParens h 0

theorem balanced_of_blanks {cs : List Char} (h : ∀ c ∈ cs, isBlank c = true) : Balanced cs :=
  depth?_of_blanks h 0

theorem Balanced.parens {cs : List Char} (h : Balanced cs) :
    Balanced ('(' :: (cs ++ [')'])) := by
  unfold Balanced
  rw [depth?_open, depth?_append, h.depth?]
  rfl

theorem Balanced.cons {c : Char} {cs : List Char} (h : Balanced cs) (hopen : c ≠ '(')
    (hclose : c ≠ ')') : Balanced (c :: cs) := by
  unfold Balanced
  rw [depth?_cons hopen hclose]
  exact h

/-- A balanced text is not balanced with a parenthesis that closes behind it. -/
theorem Balanced.not_close {cs : List Char} (h : Balanced cs) (rest : List Char) :
    ¬ Balanced (cs ++ ')' :: rest) := by
  unfold Balanced
  rw [depth?_append, h.depth? 0]
  simp [depth?_close_zero]

/-- Before a closing parenthesis of a balanced text one is open. -/
theorem exists_depth?_before_close {front back : List Char} (h : Balanced (front ++ ')' :: back)) :
    ∃ k, Condition.depth? 0 front = some (k + 1) := by
  unfold Balanced at h
  rw [depth?_append] at h
  cases hfront : Condition.depth? 0 front with
  | none =>
    rw [hfront] at h
    cases h
  | some k =>
    rw [hfront, Option.bind_some] at h
    cases k with
    | zero =>
      rw [depth?_close_zero] at h
      cases h
    | succ k => exact ⟨k, rfl⟩

theorem depth?_trim (cs : List Char) : depth? 0 (trim cs) = depth? 0 cs := by
  obtain ⟨front, back, hcs, hf, hb⟩ := exists_blanks_trim cs
  have hdepth := congrArg (depth? 0) hcs
  rw [depth?_append, depth?_append, depth?_of_blanks hf, Option.bind_some] at hdepth
  rw [hdepth]
  cases depth? 0 (trim cs) with
  | none => rfl
  | some e => exact (depth?_of_blanks hb e).symm

theorem balanced_trim {cs : List Char} : Balanced (trim cs) ↔ Balanced cs := by
  unfold Balanced
  rw [depth?_trim]

/-! ## The pair around a text -/

/-- Where a text stays inside an open parenthesis, none closes early. -/
theorem closesEarly_append {d e : Nat} {cs : List Char} (h : depth? d cs = some e)
    (rest : List Char) : closesEarly (d + 1) (cs ++ rest) = closesEarly (e + 1) rest := by
  induction cs generalizing d with
  | nil =>
    cases h
    rfl
  | cons c cs ih =>
    rw [List.cons_append, closesEarly]
    by_cases hopen : c = '('
    · rw [hopen, depth?_open] at h
      rw [if_pos hopen, ih h]
    · rw [if_neg hopen]
      by_cases hclose : c = ')'
      · cases d with
        | zero =>
          rw [hclose, depth?_close_zero] at h
          cases h
        | succ d =>
          rw [hclose, depth?_close_succ] at h
          have hdepth : ¬ d + 1 + 1 = 1 := by omega
          rw [if_pos hclose, decide_eq_false hdepth, Bool.false_and, Bool.false_or]
          exact ih h
      · rw [depth?_cons hopen hclose] at h
        rw [if_neg hclose, ih h]

/-- Behind the parenthesis that closes the first one there is nothing. -/
theorem eq_nil_of_not_closesEarly {cs rest : List Char} (h : Balanced cs)
    (hearly : closesEarly 1 (cs ++ ')' :: rest) = false) : rest = [] := by
  rw [closesEarly_append h, closesEarly, if_neg (by decide), if_pos rfl] at hearly
  cases rest with
  | nil => rfl
  | cons c rest => simp at hearly

theorem exists_inner_of_isEnclosed {cs : List Char} (h : isEnclosed cs = true) :
    ∃ inner, cs = '(' :: (inner ++ [')']) ∧ closesEarly 1 (inner ++ [')']) = false := by
  unfold isEnclosed at h
  simp only [Bool.and_eq_true, decide_eq_true_eq, Bool.not_eq_true'] at h
  obtain ⟨⟨hhead, hlast⟩, hearly⟩ := h
  obtain ⟨rest, rfl⟩ := List.head?_eq_some_iff.mp hhead
  cases rest with
  | nil => simp at hlast
  | cons c rest =>
    rw [List.getLast?_cons_cons] at hlast
    obtain ⟨inner, hinner⟩ := List.getLast?_eq_some_iff.mp hlast
    rw [closesEarly, if_pos rfl, hinner] at hearly
    exact ⟨inner, by rw [hinner], hearly⟩

/-- Unwrapping trims, and takes one pair of parentheses off if the first one is
not closed before the end. -/
theorem unwrap_cases (cs : List Char) :
    unwrap cs = trim cs ∨ ∃ inner, trim cs = '(' :: (inner ++ [')']) ∧
      closesEarly 1 (inner ++ [')']) = false ∧ unwrap cs = trim inner := by
  unfold unwrap
  simp only
  split
  · rename_i henclosed
    obtain ⟨inner, hinner, hearly⟩ := exists_inner_of_isEnclosed henclosed
    exact Or.inr ⟨inner, hinner, hearly, by rw [hinner, List.tail_cons, List.dropLast_concat]⟩
  · exact Or.inl rfl

theorem balanced_of_unwrap {cs : List Char} (h : Balanced (unwrap cs)) : Balanced cs := by
  rcases unwrap_cases cs with hu | ⟨inner, hcs, _, hu⟩
  · rw [hu] at h
    exact balanced_trim.mp h
  · rw [hu] at h
    rw [← balanced_trim, hcs]
    exact (balanced_trim.mp h).parens

end Variability.Condition
