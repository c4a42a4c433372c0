-- How a line is made of words and blanks, and a text of lines.
import Mathlib.Data.List.TakeWhile
import Variability.Proofs.Pieces

namespace Variability.Text

/-! ## Words -/

/-- A word has a character, and no blank. -/
structure IsWord (word : List Char) : Prop where
  ne_nil : word ≠ []
  not_blank : ∀ c ∈ word, isBlank c = false

/-- The line has the words, with any blanks around them and at least one between
neighbours. -/
inductive Spaced : List Char → List (List Char) → Prop
  | nil {blanks : List Char} (hblanks : ∀ c ∈ blanks, isBlank c = true) : Spaced blanks []
  | cons {front word rest : List Char} {ws : List (List Char)}
      (hfront : ∀ c ∈ front, isBlank c = true) (hword : IsWord word)
      (hstop : ∀ c, rest.head? = some c → isBlank c = true) (hrest : Spaced rest ws) :
      Spaced (front ++ word ++ rest) (word :: ws)

section Words

variable {line front back word : List Char} {ws : List (List Char)}

theorem spaced_words (line : List Char) : Spaced line (words line) := by
  fun_induction words line with
  | case1 line hnone => exact .nil (List.dropWhile_eq_nil_iff.mp hnone)
  | case2 line c rest hsome ih =>
    obtain ⟨front, hline, hfront⟩ := exists_blanks_trimStart line
    have hc : isBlank c = false := head?_trimStart line c (hsome ▸ rfl)
    have hword : IsWord (c :: rest.takeWhile (!isBlank ·)) := by
      refine ⟨by simp, ?_⟩
      rintro d (_ | ⟨_, hd⟩)
      · exact hc
      · simpa using List.mem_takeWhile_imp hd
    have hstop : ∀ d, (rest.dropWhile (!isBlank ·)).head? = some d → isBlank d = true := by
      intro d hd
      have := List.head?_dropWhile_not (!isBlank ·) rest
      rw [hd] at this
      simpa using this
    have hsplit : front ++ (c :: rest.takeWhile (!isBlank ·)) ++ rest.dropWhile (!isBlank ·) =
        line := by
      rw [hline, hsome, List.append_assoc, List.cons_append, List.takeWhile_append_dropWhile]
    exact hsplit ▸ .cons hfront hword hstop ih

theorem Spaced.words_eq (h : Spaced line ws) : words line = ws := by
  induction h with
  | nil hblanks =>
    rw [words, show trimStart _ = [] from List.dropWhile_eq_nil_iff.mpr hblanks]
  | @cons front word rest ws hfront hword hstop hrest ih =>
    obtain ⟨c, cs, rfl⟩ := List.exists_cons_of_ne_nil hword.ne_nil
    obtain ⟨hc, hcs⟩ := List.forall_mem_cons.mp hword.not_blank
    have hstart : trimStart (front ++ (c :: cs) ++ rest) = c :: (cs ++ rest) := by
      rw [List.append_assoc]
      refine trimStart_blanks_append hfront ?_
      rintro d ⟨⟩
      exact hc
    have hrun : ∀ d ∈ cs, (!isBlank d) = true := fun d hd => by simp [hcs d hd]
    have hend : ∀ d, rest.head? = some d → (!isBlank d) = false := fun d hd => by
      simp [hstop d hd]
    rw [words, hstart]
    simp only
    rw [takeWhile_append_of_stop hrun hend, dropWhile_append_of_stop hrun hend, ih]

/-- The words of a line are the only ones that it has. -/
theorem words_eq_iff : words line = ws ↔ Spaced line ws :=
  ⟨fun h => h ▸ spaced_words line, Spaced.words_eq⟩

theorem Spaced.isWord (h : Spaced line ws) : ∀ word ∈ ws, IsWord word := by
  induction h with
  | nil => nofun
  | cons _ hword _ _ ih =>
    rintro _ (_ | ⟨_, hmem⟩)
    · exact hword
    · exact ih _ hmem

theorem Spaced.blanks_append (hfront : ∀ c ∈ front, isBlank c = true) (h : Spaced line ws) :
    Spaced (front ++ line) ws := by
  cases h with
  | nil hblanks => exact .nil (List.forall_mem_append.mpr ⟨hfront, hblanks⟩)
  | cons hinner hword hstop hrest =>
    rw [← List.append_assoc, ← List.append_assoc]
    exact .cons (List.forall_mem_append.mpr ⟨hfront, hinner⟩) hword hstop hrest

theorem Spaced.append_blanks (hback : ∀ c ∈ back, isBlank c = true) (h : Spaced line ws) :
    Spaced (line ++ back) ws := by
  induction h with
  | nil hblanks => exact .nil (List.forall_mem_append.mpr ⟨hblanks, hback⟩)
  | @cons front word rest ws hfront hword hstop hrest ih =>
    rw [List.append_assoc]
    refine .cons hfront hword ?_ ih
    intro c hc
    cases rest with
    | nil => exact hback c (List.mem_of_head? hc)
    | cons d rest => exact hstop c hc

/-- Trimming takes no word away. -/
theorem words_trim (line : List Char) : words (trim line) = words line := by
  obtain ⟨front, back, hline, hfront, hback⟩ := exists_blanks_trim line
  have hspaced : Spaced (front ++ trim line ++ back) (words (trim line)) :=
    ((spaced_words _).blanks_append hfront).append_blanks hback
  rw [← hline] at hspaced
  exact hspaced.words_eq.symm

/-- What is not blank and first in a line stays first when the line is
trimmed. -/
theorem head?_trim_eq_some_iff {c : Char} :
    (trim line).head? = some c ↔ isBlank c = false ∧
      ∃ front rest, line = front ++ c :: rest ∧ ∀ b ∈ front, isBlank b = true := by
  obtain ⟨front, back, hline, hfront, hback⟩ := exists_blanks_trim line
  constructor
  · intro h
    obtain ⟨rest, hrest⟩ := List.head?_eq_some_iff.mp h
    refine ⟨(trimmed_trim line).head c h, front, rest ++ back, ?_, hfront⟩
    rw [← List.cons_append, ← hrest, ← List.append_assoc]
    exact hline
  · rintro ⟨hc, front, rest, rfl, hfront⟩
    obtain ⟨back, hback, hblanks⟩ := exists_blanks_trimEnd (c :: rest)
    rw [trim_of_blanks_append hfront, trim, trimStart, List.dropWhile_cons_of_neg (by simp [hc])]
    cases hend : trimEnd (c :: rest) with
    | nil =>
      rw [hend, List.nil_append] at hback
      simp [hblanks c (hback ▸ List.mem_cons_self)] at hc
    | cons d cs =>
      rw [hend, List.cons_append] at hback
      rw [(List.cons.inj hback).1]
      rfl

/-- A trimmed line starts as its first word does. -/
theorem Spaced.head?_trim (h : Spaced line (word :: ws)) : (trim line).head? = word.head? := by
  cases h with
  | @cons front _ rest _ hfront hword _ _ =>
    obtain ⟨c, cs, rfl⟩ := List.exists_cons_of_ne_nil hword.ne_nil
    refine head?_trim_eq_some_iff.mpr ⟨hword.not_blank c (by simp), front, cs ++ rest, ?_, hfront⟩
    simp

theorem Spaced.word_append {rest : List Char} (hword : IsWord word)
    (hstop : ∀ c, rest.head? = some c → isBlank c = true) (hrest : Spaced rest ws) :
    Spaced (word ++ rest) (word :: ws) := by
  have hnone : ∀ c ∈ ([] : List Char), isBlank c = true := nofun
  exact Spaced.cons hnone hword hstop hrest

/-- Words with one space between neighbours are the words of the line. -/
theorem spaced_unwords {ws : List (List Char)} (h : ∀ word ∈ ws, IsWord word) :
    Spaced (unwords ws) ws := by
  unfold unwords
  induction ws with
  | nil => exact .nil (by simp)
  | cons word ws ih =>
    obtain ⟨hword, hws⟩ := List.forall_mem_cons.mp h
    cases ws with
    | nil =>
      have hline : Spaced (word ++ []) [word] := .word_append hword nofun (.nil nofun)
      simpa using hline
    | cons next ws =>
      have hspace : ∀ c ∈ [' '], isBlank c = true := List.forall_mem_singleton.mpr rfl
      rw [List.intercalate_cons_cons, List.append_assoc]
      refine .word_append hword ?_ ((ih hws).blanks_append hspace)
      rintro c ⟨⟩
      decide

end Words

/-! ## Lines -/

/-- A line end is blank, so there is none in a word. -/
theorem isBlank_of_isLineEnd {c : Char} (h : isLineEnd c = true) : isBlank c = true := by
  simp only [isLineEnd, isBlank, Bool.or_eq_true, Bool.and_eq_true, decide_eq_true_eq,
    beq_iff_eq] at h ⊢
  omega

theorem not_isLineEnd_unwords {ws : List (List Char)} (h : ∀ word ∈ ws, IsWord word) :
    ∀ c ∈ unwords ws, isLineEnd c = false := by
  have hword : ∀ word, IsWord word → ∀ c ∈ word, isLineEnd c = false := by
    intro word hword c hc
    by_contra hend
    have := isBlank_of_isLineEnd (by simpa using hend)
    rw [hword.not_blank c hc] at this
    cases this
  unfold unwords
  induction ws with
  | nil => simp
  | cons word ws ih =>
    obtain ⟨hfirst, hws⟩ := List.forall_mem_cons.mp h
    cases ws with
    | nil => simpa using hword word hfirst
    | cons next ws =>
      rw [List.intercalate_cons_cons, List.forall_mem_append, List.forall_mem_append]
      exact ⟨⟨hword word hfirst, List.forall_mem_singleton.mpr rfl⟩, ih hws⟩

/-- A line ends here, and the rest follows: a line feed behind a carriage return
belongs to it. -/
inductive EndsLine : List Char → List Char → Prop
  | mark {c : Char} {rest : List Char} (hend : isLineEnd c = true) (hc : c ≠ '\r') :
      EndsLine (c :: rest) rest
  | carriage {rest : List Char} (hrest : rest.head? ≠ some '\n') : EndsLine ('\r' :: rest) rest
  | both {rest : List Char} : EndsLine ('\r' :: '\n' :: rest) rest

/-- The text has the lines. The last one may lack its end. -/
inductive WritesLines : List Char → List (List Char) → Prop
  | nil : WritesLines [] []
  | last {line : List Char} (hne : line ≠ []) (hline : ∀ c ∈ line, isLineEnd c = false) :
      WritesLines line [line]
  | cons {line cs rest : List Char} {ls : List (List Char)}
      (hline : ∀ c ∈ line, isLineEnd c = false) (hend : EndsLine cs rest)
      (hrest : WritesLines rest ls) : WritesLines (line ++ cs) (line :: ls)

theorem EndsLine.eq_cons {cs rest : List Char} (h : EndsLine cs rest) :
    ∃ c after, cs = c :: after ∧ isLineEnd c = true ∧ afterLineEnd c after = rest := by
  cases h with
  | @mark c _ hend hc => exact ⟨c, rest, rfl, hend, if_neg hc⟩
  | carriage hrest =>
    refine ⟨'\r', rest, rfl, rfl, ?_⟩
    rw [afterLineEnd, if_pos rfl]
    cases rest with
    | nil => rfl
    | cons d rest =>
      rw [dropOne, if_neg]
      rintro rfl
      exact hrest rfl
  | both => exact ⟨'\r', '\n' :: rest, rfl, rfl, rfl⟩

theorem WritesLines.lines_eq {text : List Char} {ls : List (List Char)}
    (h : WritesLines text ls) : lines text = ls := by
  induction h with
  | nil => rw [lines, linesAt]; rfl
  | @last line hne hline =>
    have hnone : line.dropWhile (!isLineEnd ·) = [] := by
      simpa [List.dropWhile_eq_nil_iff] using hline
    rw [lines, linesAt, hnone, if_neg hne]
  | @cons line cs rest ls hline hend hrest ih =>
    obtain ⟨c, after, rfl, hc, hafter⟩ := hend.eq_cons
    have hrun : ∀ d ∈ line, (!isLineEnd d) = true := fun d hd => by simp [hline d hd]
    have hstop : ∀ d, (c :: after).head? = some d → (!isLineEnd d) = false := by
      rintro d ⟨⟩
      simp [hc]
    rw [lines, linesAt, dropWhile_append_of_stop hrun hstop]
    simp only
    rw [takeWhile_append_of_stop hrun hstop, hafter, ← lines, ih]

/-- What a line end takes off a text is one. -/
theorem endsLine_afterLineEnd {c : Char} (h : isLineEnd c = true) (after : List Char) :
    EndsLine (c :: after) (afterLineEnd c after) := by
  unfold afterLineEnd
  split
  · rename_i hc
    subst hc
    cases after with
    | nil => exact .carriage (by simp)
    | cons d after =>
      by_cases hd : d = '\n'
      · subst hd
        exact .both
      · rw [dropOne, if_neg hd]
        exact .carriage (by simpa using hd)
  · rename_i hc
    exact .mark h hc

theorem writesLines_lines (text : List Char) : WritesLines text (lines text) := by
  unfold lines
  fun_induction linesAt isLineEnd text with
  | case1 => exact .nil
  | case2 text hnone hne =>
    refine .last hne ?_
    simpa [List.dropWhile_eq_nil_iff] using hnone
  | case3 text c after hsome ih =>
    obtain ⟨hc, htext⟩ := mark_of_dropWhile_cons hsome
    have hline : ∀ d ∈ text.takeWhile (!isLineEnd ·), isLineEnd d = false := by
      intro d hd
      simpa using List.mem_takeWhile_imp hd
    have hwrites := WritesLines.cons hline (endsLine_afterLineEnd hc after) ih
    rwa [htext] at hwrites

/-- The lines of a text are the only ones that it has. -/
theorem lines_eq_iff {text : List Char} {ls : List (List Char)} :
    lines text = ls ↔ WritesLines text ls :=
  ⟨fun h => h ▸ writesLines_lines text, WritesLines.lines_eq⟩

/-- Lines without line ends in them, each closed by a line feed. -/
theorem writesLines_flatMap {ls : List (List Char)}
    (h : ∀ line ∈ ls, ∀ c ∈ line, isLineEnd c = false) :
    WritesLines (ls.flatMap (· ++ ['\n'])) ls := by
  induction ls with
  | nil => exact .nil
  | cons line ls ih =>
    obtain ⟨hline, hls⟩ := List.forall_mem_cons.mp h
    rw [List.flatMap_cons, List.append_assoc]
    exact .cons hline (.mark (by decide) (by decide)) (ih hls)

end Variability.Text
