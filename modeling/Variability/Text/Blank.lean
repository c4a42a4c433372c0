-- Blank characters: what separates the words of a condition, of a model
-- and of a build index, and what is cut off at the ends of a text.

namespace Variability.Text

/-! ## The characters -/

/-- The ASCII blanks with the four information separators, the next-line
character, and the space, line and paragraph separators of Unicode. -/
def isBlank (c : Char) : Bool :=
  let n := c.toNat
  (9 ≤ n && n ≤ 13) || (28 ≤ n && n ≤ 32) || n == 0x85 || n == 0xa0 || n == 0x1680 ||
    (0x2000 ≤ n && n ≤ 0x200a) || n == 0x2028 || n == 0x2029 || n == 0x202f || n == 0x205f ||
    n == 0x3000

/-- Every character that core calls white space is blank. -/
theorem isBlank_of_isWhitespace {c : Char} (h : c.isWhitespace = true) : isBlank c = true := by
  simp only [Char.isWhitespace, Bool.or_eq_true, decide_eq_true_eq] at h
  rcases h with ((h | h) | h) | h <;> subst h <;> decide

/-! ## Lengths -/

theorem length_dropWhile_le {α : Type} (p : α → Bool) (l : List α) :
    (l.dropWhile p).length ≤ l.length :=
  (List.dropWhile_sublist p).length_le

/-! ## Trimming -/

def trimStart (cs : List Char) : List Char := cs.dropWhile isBlank

/-- A text that does not end in a blank stays as it is. -/
def trimEnd (cs : List Char) : List Char :=
  if cs.getLast?.any isBlank then (cs.reverse.dropWhile isBlank).reverse else cs

theorem trimEnd_eq_reverse (cs : List Char) :
    trimEnd cs = (cs.reverse.dropWhile isBlank).reverse := by
  unfold trimEnd
  split
  · rfl
  · rename_i h
    cases hr : cs.reverse with
    | nil => simp [List.reverse_eq_nil_iff.1 hr]
    | cons c rest =>
      have hl : cs.getLast? = some c := by rw [← List.head?_reverse, hr]; rfl
      have hc : isBlank c = false := by simpa [hl] using h
      rw [List.dropWhile_cons, if_neg (by simp [hc]), ← hr, List.reverse_reverse]

/-- The text without the blanks at either end. -/
def trim (cs : List Char) : List Char := trimEnd (trimStart cs)

theorem length_trimEnd_le (cs : List Char) : (trimEnd cs).length ≤ cs.length := by
  simpa [trimEnd_eq_reverse] using length_dropWhile_le isBlank cs.reverse

theorem length_trim_le (cs : List Char) : (trim cs).length ≤ cs.length :=
  Nat.le_trans (length_trimEnd_le _) (length_dropWhile_le isBlank cs)

/-! ## Words -/

/-- The maximal runs of characters that are not blank, in order. -/
def words (cs : List Char) : List (List Char) :=
  match _h : trimStart cs with
  | [] => []
  | c :: rest => (c :: rest.takeWhile (!isBlank ·)) :: words (rest.dropWhile (!isBlank ·))
termination_by cs.length
decreasing_by
  have h1 := length_dropWhile_le isBlank cs
  have h2 := length_dropWhile_le (!isBlank ·) rest
  rw [show cs.dropWhile isBlank = c :: rest from _h] at h1
  simp only [List.length_cons] at h1
  omega

/-- The words with one space between neighbours. -/
def unwords (ws : List (List Char)) : List Char := List.intercalate [' '] ws

end Variability.Text
