-- Cutting a text at marks: at single characters, at operators that may be
-- written once or twice, and at line ends.
import Variability.Text.Blank

namespace Variability.Text

/-! ## Cutting a word off -/

/-- What follows `word` at the start of the text. -/
def afterWord? : List Char → List Char → Option (List Char)
  | [], cs => some cs
  | _ :: _, [] => none
  | w :: word, c :: cs => if w = c then afterWord? word cs else none

theorem afterWord?_eq_some_iff {word cs rest : List Char} :
    afterWord? word cs = some rest ↔ cs = word ++ rest := by
  induction word generalizing cs with
  | nil => simp [afterWord?]
  | cons w word ih =>
    cases cs with
    | nil => simp [afterWord?]
    | cons c cs =>
      by_cases h : w = c
      · simp [afterWord?, h, ih]
      · simp [afterWord?, h, Ne.symm h]

/-! ## Cutting at a character -/

/-- The pieces between the characters that satisfy `p`. There is one more
piece than there are such characters. -/
def cutWhere (p : Char → Bool) (cs : List Char) : List (List Char) :=
  match _h : cs.dropWhile (!p ·) with
  | [] => [cs.takeWhile (!p ·)]
  | _ :: rest => cs.takeWhile (!p ·) :: cutWhere p rest
termination_by cs.length
decreasing_by
  have h1 := length_dropWhile_le (!p ·) cs
  rw [_h] at h1
  simp only [List.length_cons] at h1
  omega

/-! ## Cutting at an operator -/

/-- Drops one leading `c`, if there is one. -/
def dropOne (c : Char) : List Char → List Char
  | [] => []
  | d :: rest => if d = c then rest else d :: rest

theorem length_dropOne_le (c : Char) (cs : List Char) : (dropOne c cs).length ≤ cs.length := by
  cases cs with
  | nil => simp [dropOne]
  | cons d rest =>
    simp only [dropOne]
    split <;> simp

/-- The operands of an operator whose sign `op` is written once or twice. -/
def operands (op : Char) (cs : List Char) : List (List Char) :=
  match _h : cs.dropWhile (· != op) with
  | [] => [cs.takeWhile (· != op)]
  | _ :: rest => cs.takeWhile (· != op) :: operands op (dropOne op rest)
termination_by cs.length
decreasing_by
  have h1 := length_dropWhile_le (· != op) cs
  have h2 := length_dropOne_le op rest
  rw [_h] at h1
  simp only [List.length_cons] at h1
  omega

/-! ## Lines -/

/-- The characters that end a line of a text: line feed, carriage return,
the vertical tab and the form feed, three information separators, the
next-line character, and the line and paragraph separators. -/
def isLineEnd (c : Char) : Bool :=
  let n := c.toNat
  (10 ≤ n && n ≤ 13) || (28 ≤ n && n ≤ 30) || n == 0x85 || n == 0x2028 || n == 0x2029

/-- The characters that end a line of a file. -/
def isFileLineEnd (c : Char) : Bool := c == '\n' || c == '\r'

/-- What follows a line end: a carriage return takes a line feed with it. -/
def afterLineEnd (c : Char) (rest : List Char) : List Char :=
  if c = '\r' then dropOne '\n' rest else rest

theorem length_afterLineEnd_le (c : Char) (cs : List Char) :
    (afterLineEnd c cs).length ≤ cs.length := by
  unfold afterLineEnd
  split
  · exact length_dropOne_le _ _
  · exact Nat.le_refl _

/-- The lines of a text whose line ends are the characters of `ends`. A
last line without an end counts, an empty one does not. -/
def linesAt (ends : Char → Bool) (cs : List Char) : List (List Char) :=
  match _h : cs.dropWhile (!ends ·) with
  | [] => if cs = [] then [] else [cs]
  | c :: rest => cs.takeWhile (!ends ·) :: linesAt ends (afterLineEnd c rest)
termination_by cs.length
decreasing_by
  have h1 := length_dropWhile_le (!ends ·) cs
  have h2 := length_afterLineEnd_le c rest
  rw [_h] at h1
  simp only [List.length_cons] at h1
  omega

/-- The lines that are known to be complete while more text may follow: each
has its end, and a carriage return at the very end is not yet one, since a
line feed may belong to it. -/
def closedLinesAt (ends : Char → Bool) (cs : List Char) : List (List Char) :=
  match _h : cs.dropWhile (!ends ·) with
  | [] => []
  | c :: rest =>
    if c = '\r' ∧ rest = [] then []
    else cs.takeWhile (!ends ·) :: closedLinesAt ends (afterLineEnd c rest)
termination_by cs.length
decreasing_by
  have h1 := length_dropWhile_le (!ends ·) cs
  have h2 := length_afterLineEnd_le c rest
  rw [_h] at h1
  simp only [List.length_cons] at h1
  omega

/-- The lines of a text. -/
def lines (cs : List Char) : List (List Char) := linesAt isLineEnd cs

end Variability.Text
