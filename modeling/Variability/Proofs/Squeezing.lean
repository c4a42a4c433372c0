-- The layout of a condition: a run of blanks is as good as one space, wherever
-- it stands, and the blanks at the ends count for nothing. So a condition reads
-- from its line of an index, where its words stand with single spaces between
-- them, as it reads in the line itself.
import Mathlib.Data.List.DropRight
import Variability.BuildIndex.Scan
import Variability.Proofs.Rejection
import Variability.Proofs.Spacing

namespace Variability.Text

/-! ## Squeezing -/

/-- The text with one space for each run of blanks. -/
def squeeze : List Char → List Char
  | [] => []
  | c :: rest => if isBlank c then ' ' :: trimStart (squeeze rest) else c :: squeeze rest

/-- The text with single spaces, and none at its ends. -/
def respaced (s : String) : String := String.ofList (squeeze (trim s.toList))

section Squeeze

variable {cs : List Char} {c : Char}

@[simp] theorem squeeze_nil : squeeze [] = [] := rfl

theorem squeeze_blank (h : isBlank c = true) (rest : List Char) :
    squeeze (c :: rest) = ' ' :: trimStart (squeeze rest) := by
  rw [squeeze, if_pos h]

theorem squeeze_cons (h : isBlank c = false) (rest : List Char) :
    squeeze (c :: rest) = c :: squeeze rest := by
  rw [squeeze, if_neg (by simp [h])]

theorem ne_of_isBlank {b : Char} (hb : isBlank b = true) (hc : isBlank c = false) : b ≠ c := by
  rintro rfl
  rw [hb] at hc
  cases hc

theorem trimStart_cons_blank (h : isBlank c = true) (rest : List Char) :
    trimStart (c :: rest) = trimStart rest :=
  List.dropWhile_cons_of_pos h

theorem trimStart_cons (h : isBlank c = false) (rest : List Char) :
    trimStart (c :: rest) = c :: rest :=
  List.dropWhile_cons_of_neg (by simp [h])

theorem trimStart_trimStart (cs : List Char) : trimStart (trimStart cs) = trimStart cs :=
  List.dropWhile_idempotent isBlank cs

theorem trimStart_append_cons (h : isBlank c = false) (xs ys : List Char) :
    trimStart (xs ++ c :: ys) = trimStart xs ++ c :: ys := by
  induction xs with
  | nil => exact trimStart_cons h ys
  | cons b xs ih =>
    cases hb : isBlank b with
    | true => rw [List.cons_append, trimStart_cons_blank hb, trimStart_cons_blank hb, ih]
    | false => rw [List.cons_append, trimStart_cons hb, trimStart_cons hb, List.cons_append]

/-- A character that is not blank stays where it is, and each side is squeezed
for itself. -/
theorem squeeze_append_cons (h : isBlank c = false) (xs ys : List Char) :
    squeeze (xs ++ c :: ys) = squeeze xs ++ c :: squeeze ys := by
  induction xs with
  | nil => exact squeeze_cons h ys
  | cons b xs ih =>
    cases hb : isBlank b with
    | true =>
      rw [List.cons_append, squeeze_blank hb, squeeze_blank hb, ih, trimStart_append_cons h,
        List.cons_append]
    | false => rw [List.cons_append, squeeze_cons hb, squeeze_cons hb, ih, List.cons_append]

theorem squeeze_eq_nil_iff : squeeze cs = [] ↔ cs = [] := by
  cases cs with
  | nil => simp
  | cons c rest =>
    rw [squeeze]
    split <;> simp

theorem trimStart_squeeze (cs : List Char) : trimStart (squeeze cs) = squeeze (trimStart cs) := by
  induction cs with
  | nil => rfl
  | cons c rest ih =>
    cases hc : isBlank c with
    | true =>
      rw [squeeze_blank hc, trimStart_cons_blank (by decide), trimStart_trimStart, ih,
        trimStart_cons_blank hc]
    | false => rw [squeeze_cons hc, trimStart_cons hc, trimStart_cons hc, squeeze_cons hc]

theorem isBlank_of_mem_squeeze (h : ∀ c ∈ cs, isBlank c = true) :
    ∀ c ∈ squeeze cs, isBlank c = true := by
  have hnone : squeeze (trimStart cs) = [] :=
    squeeze_eq_nil_iff.mpr (List.dropWhile_eq_nil_iff.mpr h)
  rw [← trimStart_squeeze] at hnone
  exact List.dropWhile_eq_nil_iff.mp hnone

theorem head?_squeeze (h : isBlank c = false) :
    (squeeze cs).head? = some c ↔ cs.head? = some c := by
  cases cs with
  | nil => simp
  | cons b rest =>
    cases hb : isBlank b with
    | true =>
      rw [squeeze_blank hb]
      simp [ne_of_isBlank hb h, ne_of_isBlank (b := ' ') rfl h]
    | false =>
      rw [squeeze_cons hb]
      simp

theorem Trimmed.getLast?_squeeze (h : Trimmed cs) : (squeeze cs).getLast? = cs.getLast? := by
  rcases List.eq_nil_or_concat' cs with rfl | ⟨xs, c, rfl⟩
  · rfl
  · have hc := h.last c List.getLast?_concat
    rw [squeeze_append_cons hc, squeeze_nil, List.getLast?_concat, List.getLast?_concat]

theorem Trimmed.squeeze (h : Trimmed cs) : Trimmed (Text.squeeze cs) where
  head := by
    cases cs with
    | nil => exact h.head
    | cons c rest =>
      rw [squeeze_cons (h.head c rfl)]
      exact h.head
  last := by
    rw [h.getLast?_squeeze]
    exact h.last

/-- Blanks are squeezed alike before and after the ends are trimmed. -/
theorem trim_squeeze (cs : List Char) : trim (squeeze cs) = squeeze (trim cs) := by
  obtain ⟨back, hback, hblanks⟩ := exists_blanks_trimEnd (trimStart cs)
  -- The blanks at the end are squeezed for themselves: what they follow is not
  -- blank.
  have hsplit : squeeze (trimStart cs) = squeeze (trim cs) ++ squeeze back := by
    rw [hback]
    rcases List.eq_nil_or_concat' (trim cs) with hnil | ⟨xs, c, hlast⟩
    · rw [← trim, hnil]
      rfl
    · have hc := (trimmed_trim cs).last c (by rw [hlast, List.getLast?_concat])
      rw [← trim, hlast, List.append_assoc, List.singleton_append, squeeze_append_cons hc,
        squeeze_append_cons hc, squeeze_nil, List.append_assoc, List.singleton_append]
  obtain ⟨front, hfront, hf⟩ := exists_blanks_trimStart (squeeze cs)
  rw [hfront, trim_of_blanks_append hf, trimStart_squeeze, hsplit,
    trim_of_append_blanks (isBlank_of_mem_squeeze hblanks), (trimmed_trim cs).squeeze.trim_eq]

theorem forall_not_isBlank {word : List Char} (h : word.all (!isBlank ·) = true) :
    ∀ c ∈ word, isBlank c = false := by
  simpa using h

/-- Where there is no blank there is nothing to squeeze. -/
theorem squeeze_eq_iff {word : List Char} (h : ∀ c ∈ word, isBlank c = false) :
    squeeze cs = word ↔ cs = word := by
  induction cs generalizing word with
  | nil => exact Iff.rfl
  | cons c rest ih =>
    cases word with
    | nil => simp [squeeze_eq_nil_iff]
    | cons d word =>
      obtain ⟨hd, hword⟩ := List.forall_mem_cons.mp h
      cases hc : isBlank c with
      | true =>
        rw [squeeze_blank hc]
        simp [ne_of_isBlank hc hd, ne_of_isBlank (b := ' ') rfl hd]
      | false => rw [squeeze_cons hc, List.cons.injEq, List.cons.injEq, ih hword]

end Squeeze

/-! ## Words with single spaces -/

theorem squeeze_word_append {word : List Char} (h : ∀ c ∈ word, isBlank c = false)
    (rest : List Char) : squeeze (word ++ rest) = word ++ squeeze rest := by
  induction word with
  | nil => rfl
  | cons c word ih =>
    obtain ⟨hc, hword⟩ := List.forall_mem_cons.mp h
    rw [List.cons_append, squeeze_cons hc, ih hword, List.cons_append]

theorem Spaced.blank {line : List Char} (h : Spaced line []) :
    ∀ c ∈ line, isBlank c = true := by
  cases h with
  | nil hblanks => exact hblanks

/-- A line that does not end in a blank is squeezed to its words with single
spaces between them, once the blanks at its start are gone. -/
theorem Spaced.squeeze_trimStart {line : List Char} {ws : List (List Char)} (h : Spaced line ws)
    (hlast : ∀ c, line.getLast? = some c → isBlank c = false) :
    squeeze (trimStart line) = unwords ws := by
  induction h with
  | nil hblanks =>
    rw [trimStart, List.dropWhile_eq_nil_iff.mpr hblanks]
    rfl
  | @cons front word rest ws hfront hword hstop hrest ih =>
    have hstart : trimStart (front ++ word ++ rest) = word ++ rest := by
      rw [List.append_assoc]
      apply trimStart_blanks_append hfront
      intro c hc
      rw [List.head?_append_of_ne_nil _ hword.ne_nil] at hc
      exact hword.not_blank c (List.mem_of_head? hc)
    rw [hstart, squeeze_word_append hword.not_blank]
    cases rest with
    | nil =>
      have hnone : words [] = [] := Spaced.words_eq (.nil forall_isBlank_nil)
      obtain rfl : [] = ws := hnone.symm.trans hrest.words_eq
      rw [squeeze_nil, List.append_nil, unwords, List.intercalate_singleton]
    | cons b rest =>
      rw [List.getLast?_append_of_ne_nil _ (List.cons_ne_nil b rest)] at hlast
      have hb := hstop b rfl
      have hspaced := ih hlast
      rw [trimStart_cons_blank hb] at hspaced
      rw [squeeze_blank hb, trimStart_squeeze, hspaced]
      cases ws with
      | nil =>
        have hne := List.cons_ne_nil b rest
        have hend := hlast _ (List.getLast?_eq_some_getLast hne)
        rw [hrest.blank _ (List.getLast_mem hne)] at hend
        cases hend
      | cons next ws =>
        rw [unwords, unwords, List.intercalate_cons_cons, List.append_assoc]
        rfl

/-- A line without blanks at its ends is squeezed to its words with single
spaces between. -/
theorem squeeze_trim (cs : List Char) : squeeze (trim cs) = unwords (words cs) := by
  have hspaced := spaced_words (trim cs)
  rw [words_trim] at hspaced
  have hsqueezed := hspaced.squeeze_trimStart (trimmed_trim cs).last
  rwa [(trimmed_trim cs).trimStart_eq] at hsqueezed

/-! ## Operands -/

theorem dropOne_squeeze {op : Char} (h : isBlank op = false) (cs : List Char) :
    dropOne op (squeeze cs) = squeeze (dropOne op cs) := by
  by_cases hhead : cs.head? = some op
  · obtain ⟨rest, rfl⟩ := List.head?_eq_some_iff.mp hhead
    rw [squeeze_cons h, dropOne_self, dropOne_self]
  · rw [dropOne_of_ne hhead, dropOne_of_ne (mt (head?_squeeze h).mp hhead)]

theorem not_mem_squeeze {c : Char} {cs : List Char} (h : isBlank c = false) (hcs : c ∉ cs) :
    c ∉ squeeze cs := by
  induction cs with
  | nil => exact hcs
  | cons b rest ih =>
    obtain ⟨hb, hrest⟩ := not_or.mp (mt List.mem_cons.mpr hcs)
    cases hblank : isBlank b with
    | true =>
      rw [squeeze_blank hblank, List.mem_cons, not_or]
      exact ⟨(ne_of_isBlank rfl h).symm,
        fun hmem => ih hrest ((List.dropWhile_sublist _).subset hmem)⟩
    | false =>
      rw [squeeze_cons hblank, List.mem_cons, not_or]
      exact ⟨hb, ih hrest⟩

/-- A text is cut at the same operators when it is squeezed. -/
theorem operands_squeeze {op : Char} (h : isBlank op = false) (cs : List Char) :
    operands op (squeeze cs) = (operands op cs).map squeeze := by
  by_cases hop : op ∈ cs
  · obtain ⟨front, rest, hcs, hfront⟩ := List.eq_append_cons_of_mem hop
    have hlength : (dropOne op rest).length < cs.length := by
      have hdropped := length_dropOne_le op rest
      rw [hcs, List.length_append, List.length_cons]
      omega
    rw [hcs, squeeze_append_cons h, operands_append_cons hfront,
      operands_append_cons (not_mem_squeeze h hfront), dropOne_squeeze h,
      operands_squeeze h (dropOne op rest), List.map_cons]
  · rw [operands_of_not_mem hop, operands_of_not_mem (not_mem_squeeze h hop)]
    rfl
termination_by cs.length

/-! ## Runs without blanks -/

section Runs

variable {p : Char → Bool} (hp : ∀ c, p c = true → isBlank c = false)
include hp

theorem takeWhile_squeeze (cs : List Char) : (squeeze cs).takeWhile p = cs.takeWhile p := by
  have hblanks : ∀ c, isBlank c = true → p c = false := by
    intro c hc
    by_contra h
    exact ne_of_isBlank hc (hp c (by simpa using h)) rfl
  induction cs with
  | nil => rfl
  | cons c rest ih =>
    cases hc : isBlank c with
    | true => simp [squeeze_blank hc, hblanks c hc, hblanks ' ' rfl]
    | false => rw [squeeze_cons hc, List.takeWhile_cons, List.takeWhile_cons, ih]

theorem dropWhile_squeeze (cs : List Char) :
    (squeeze cs).dropWhile p = squeeze (cs.dropWhile p) := by
  have hrun : ∀ c ∈ cs.takeWhile p, isBlank c = false := fun c hc =>
    hp c (List.mem_takeWhile_imp hc)
  have hsplit : (squeeze cs).takeWhile p ++ (squeeze cs).dropWhile p =
      cs.takeWhile p ++ squeeze (cs.dropWhile p) := by
    rw [List.takeWhile_append_dropWhile, ← squeeze_word_append hrun,
      List.takeWhile_append_dropWhile]
  rw [takeWhile_squeeze hp] at hsplit
  exact List.append_cancel_left hsplit

end Runs

theorem afterWord?_squeeze {word : List Char} (h : ∀ c ∈ word, isBlank c = false)
    (cs : List Char) : afterWord? word (squeeze cs) = (afterWord? word cs).map squeeze := by
  induction word generalizing cs with
  | nil => rfl
  | cons w word ih =>
    obtain ⟨hw, hword⟩ := List.forall_mem_cons.mp h
    cases cs with
    | nil => rfl
    | cons c rest =>
      cases hc : isBlank c with
      | true =>
        rw [squeeze_blank hc, afterWord?, afterWord?, if_neg (ne_of_isBlank hc hw).symm,
          if_neg (ne_of_isBlank rfl hw).symm]
        rfl
      | false =>
        rw [squeeze_cons hc, afterWord?, afterWord?, ih hword]
        split <;> rfl

end Variability.Text

namespace Variability

open Text

/-- The error that shows its texts respaced. -/
def ParseError.respaced : ParseError → ParseError
  | .emptyTerm source => .emptyTerm (Text.respaced source)
  | .emptyLiteral source => .emptyLiteral (Text.respaced source)
  | .unrecognisedLiteral literal source =>
    .unrecognisedLiteral (Text.respaced literal) (Text.respaced source)

end Variability

namespace Variability.Condition

open Text

/-! ## Parentheses -/

theorem closesEarly_trimStart (depth : Nat) (cs : List Char) :
    closesEarly depth (trimStart cs) = closesEarly depth cs := by
  induction cs with
  | nil => rfl
  | cons c rest ih =>
    cases hc : isBlank c with
    | true =>
      obtain ⟨hopen, hclose⟩ := not_paren_of_isBlank hc
      rw [trimStart_cons_blank hc, ih, closesEarly, if_neg hopen, if_neg hclose]
    | false => rw [trimStart_cons hc]

/-- The parentheses of a text close in the same places when it is squeezed. -/
theorem closesEarly_squeeze (depth : Nat) (cs : List Char) :
    closesEarly depth (squeeze cs) = closesEarly depth cs := by
  induction cs generalizing depth with
  | nil => rfl
  | cons c rest ih =>
    cases hc : isBlank c with
    | true =>
      obtain ⟨hopen, hclose⟩ := not_paren_of_isBlank hc
      rw [squeeze_blank hc, closesEarly, closesEarly, if_neg hopen, if_neg hclose,
        if_neg (by decide), if_neg (by decide), closesEarly_trimStart, ih]
    | false =>
      have hempty : (squeeze rest).isEmpty = rest.isEmpty := by
        rw [Bool.eq_iff_iff, List.isEmpty_iff, List.isEmpty_iff, squeeze_eq_nil_iff]
      rw [squeeze_cons hc, closesEarly, closesEarly, ih, ih, ih, hempty]

theorem isEnclosed_squeeze {cs : List Char} (h : Trimmed cs) :
    isEnclosed (squeeze cs) = isEnclosed cs := by
  unfold isEnclosed
  rw [closesEarly_squeeze, h.getLast?_squeeze, decide_eq_decide.mpr (head?_squeeze (by decide))]

/-- Unwrapping and squeezing do not get in the way of each other. -/
theorem unwrap_squeeze (cs : List Char) : unwrap (squeeze cs) = squeeze (unwrap cs) := by
  unfold unwrap
  simp only [trim_squeeze, isEnclosed_squeeze (trimmed_trim cs)]
  split
  · rename_i henclosed
    obtain ⟨inner, hinner, _⟩ := exists_inner_of_isEnclosed henclosed
    rw [hinner, squeeze_cons (by decide), squeeze_append_cons (by decide), squeeze_nil,
      List.tail_cons, List.tail_cons, List.dropLast_concat, List.dropLast_concat, trim_squeeze]
  · rfl

/-! ## Literals -/

theorem takeNegations_trimStart (negated : Bool) (cs : List Char) :
    takeNegations negated (trimStart cs) = takeNegations negated cs := by
  obtain ⟨front, hcs, hfront⟩ := exists_blanks_trimStart cs
  conv_rhs => rw [hcs, takeNegations_of_blanks hfront]

theorem not_isBlank_of_isNegation {c : Char} (h : isNegation c = true) : isBlank c = false := by
  unfold isNegation at h
  rw [Bool.or_eq_true, decide_eq_true_eq, decide_eq_true_eq] at h
  rcases h with rfl | rfl <;> decide

theorem takeNegations_squeeze (negated : Bool) (cs : List Char) :
    takeNegations negated (squeeze cs) =
      ((takeNegations negated cs).1, squeeze (takeNegations negated cs).2) := by
  fun_induction takeNegations negated cs with
  | case1 => rfl
  | case2 negated c rest hmark ih =>
    rw [squeeze_cons (not_isBlank_of_isNegation hmark), takeNegations_of_mark hmark, ih]
  | case3 negated c rest hmark hblank ih =>
    have hspace : ∀ c ∈ [' '], isBlank c = true := forall_isBlank_space
    rw [squeeze_blank hblank, ← List.singleton_append, takeNegations_of_blanks hspace,
      takeNegations_trimStart, ih]
  | case4 negated c rest hmark hblank =>
    have hblank' : isBlank c = false := by simpa using hblank
    rw [squeeze_cons hblank', takeNegations_of_head (by simpa using hmark) hblank']

/-- Behind the marks of a squeezed literal stands its atom, squeezed. -/
theorem stripNegations_squeeze (negated : Bool) (cs : List Char) :
    stripNegations negated (squeeze cs) =
      ((stripNegations negated cs).1, squeeze (stripNegations negated cs).2) := by
  have hhead : ∀ {cs c rest}, unwrap cs = c :: rest → isBlank c = false :=
    fun hunwrap => (trimmed_unwrap _).head _ (by rw [hunwrap]; rfl)
  fun_induction stripNegations negated cs with
  | case1 negated cs hunwrap =>
    rw [stripNegations_unwrap, unwrap_squeeze, hunwrap]
    rfl
  | case2 negated cs c rest hunwrap hmark odd inner htake ih =>
    rw [stripNegations_unwrap, unwrap_squeeze, hunwrap, squeeze_cons (hhead hunwrap)]
    simp only [if_pos hmark, takeNegations_squeeze, htake]
    rw [squeeze_cons (by decide)] at ih ⊢
    exact ih
  | case3 negated cs c rest hunwrap hmark hfound =>
    -- Squeezing puts no parenthesis behind the marks where there was none.
    have hbare : (takeNegations (!negated) rest).2.head? ≠ some '(' := by
      intro hopen
      obtain ⟨inner, hinner⟩ := List.head?_eq_some_iff.mp hopen
      exact hfound _ inner (Prod.ext rfl hinner)
    rw [stripNegations_unwrap, unwrap_squeeze, hunwrap, squeeze_cons (hhead hunwrap)]
    simp only [if_pos hmark, takeNegations_squeeze]
    exact behindMarks_of_head (mt (head?_squeeze (by decide)).mp hbare)
  | case4 negated cs c rest hunwrap hmark =>
    rw [stripNegations_unwrap, unwrap_squeeze, hunwrap, squeeze_cons (hhead hunwrap)]
    simp only [if_neg hmark]

theorem constant?_squeeze (numericConstants : Bool) (atom : List Char) :
    constant? numericConstants (squeeze atom) = constant? numericConstants atom := by
  have hword : ∀ word : String, word.toList.all (!isBlank ·) = true →
      (squeeze atom = word.toList ↔ atom = word.toList) :=
    fun _ h => squeeze_eq_iff (forall_not_isBlank h)
  unfold constant?
  simp only [hword "True" rfl, hword "true" rfl, hword "False" rfl, hword "false" rfl,
    hword "1" rfl, hword "0" rfl]

theorem bareName?_eq_some_iff {cs name : List Char} :
    bareName? cs = some name ↔ cs = name ∧ IsName name := by
  constructor
  · exact eq_of_bareName?
  · rintro ⟨rfl, hname⟩
    exact bareName?_of_isName hname

theorem bareName?_squeeze (cs : List Char) : bareName? (squeeze cs) = bareName? cs := by
  ext name
  rw [bareName?_eq_some_iff, bareName?_eq_some_iff]
  refine and_congr_left fun hname => squeeze_eq_iff ?_
  exact fun c hc => (isPlain_of_isNameChar (hname.chars c hc)).blank

theorem enclosedName?_squeeze (cs : List Char) : enclosedName? (squeeze cs) = enclosedName? cs := by
  have hname : ∀ c, isNameChar c = true → isBlank c = false :=
    fun c hc => (isPlain_of_isNameChar hc).blank
  by_cases hopen : (trimStart cs).head? = some '('
  · obtain ⟨inner, hinner⟩ := List.head?_eq_some_iff.mp hopen
    have hclose : ∀ c ∈ [')'], isBlank c = false := List.forall_mem_singleton.mpr rfl
    unfold enclosedName?
    rw [trimStart_squeeze, hinner, squeeze_cons (by decide)]
    simp only [trimStart_squeeze, takeWhile_squeeze hname, dropWhile_squeeze hname,
      squeeze_eq_iff hclose]
  · rw [enclosedName?_of_head hopen, enclosedName?_of_head]
    rw [trimStart_squeeze]
    exact mt (head?_squeeze (by decide)).mp hopen

theorem separateName?_squeeze (cs : List Char) : separateName? (squeeze cs) = separateName? cs := by
  cases cs with
  | nil => rfl
  | cons c rest =>
    cases hc : isBlank c with
    | true =>
      have hspace : isBlank ' ' = true := rfl
      rw [squeeze_blank hc, separateName?, separateName?, if_pos hspace, if_pos hc,
        trimStart_trimStart, trimStart_squeeze, bareName?_squeeze]
    | false => rw [squeeze_cons hc, separateName?, separateName?, hc]; rfl

theorem atomName?_squeeze (atom : List Char) : atomName? (squeeze atom) = atomName? atom := by
  have hdefinedEx : ∀ c ∈ "definedEx".toList, isBlank c = false := forall_not_isBlank rfl
  have hdefined : ∀ c ∈ "defined".toList, isBlank c = false := forall_not_isBlank rfl
  unfold atomName?
  rw [afterWord?_squeeze hdefinedEx, afterWord?_squeeze hdefined, bareName?_squeeze]
  simp only [Option.bind_map, Function.comp_def, enclosedName?_squeeze, separateName?_squeeze]

/-! ## Reading -/

theorem respaced_ofList (cs : List Char) :
    respaced (String.ofList cs) = String.ofList (squeeze (trim cs)) := by
  rw [respaced, String.toList_ofList]

theorem respaced_ofList_trim (cs : List Char) :
    respaced (String.ofList (trim cs)) = String.ofList (squeeze (trim cs)) := by
  rw [respaced_ofList, (trimmed_trim cs).trim_eq]

section Reading

variable (numericConstants : Bool) (source : String)

/-- A literal is squeezed before it is read or not: what is read is the same. -/
theorem readLiteral_squeeze (cs : List Char) :
    readLiteral numericConstants (respaced source) (squeeze cs) =
      (readLiteral numericConstants source cs).mapError ParseError.respaced := by
  unfold readLiteral
  rw [stripNegations_squeeze]
  cases stripNegations false cs with
  | mk negated atom =>
    simp only [squeeze_eq_nil_iff, constant?_squeeze, atomName?_squeeze, trim_squeeze,
      ← respaced_ofList_trim]
    split
    · rfl
    · split
      · rfl
      · split <;> rfl

theorem readLiterals_squeeze (pieces : List (List Char)) :
    readLiterals numericConstants (respaced source) (pieces.map squeeze) =
      (readLiterals numericConstants source pieces).mapError ParseError.respaced := by
  induction pieces with
  | nil => rfl
  | cons piece pieces ih =>
    rw [List.map_cons, readLiterals, readLiterals, readLiteral_squeeze, ih]
    cases readLiteral numericConstants source piece with
    | error e => rfl
    | ok r =>
      cases r with
      | constant value => cases value <;> rfl
      | literal l => cases readLiterals numericConstants source pieces <;> rfl

theorem readTerm_squeeze (cs : List Char) :
    readTerm numericConstants (respaced source) (squeeze cs) =
      (readTerm numericConstants source cs).mapError ParseError.respaced := by
  unfold readTerm
  rw [unwrap_squeeze, operands_squeeze (by decide), readLiterals_squeeze]
  simp only [squeeze_eq_nil_iff]
  split <;> rfl

theorem readTerms_squeeze (pieces : List (List Char)) :
    readTerms numericConstants (respaced source) (pieces.map squeeze) =
      (readTerms numericConstants source pieces).mapError ParseError.respaced := by
  induction pieces with
  | nil => rfl
  | cons piece pieces ih =>
    rw [List.map_cons, readTerms, readTerms, readTerm_squeeze, ih]
    cases readTerm numericConstants source piece with
    | error e => rfl
    | ok ls? =>
      cases ls? with
      | none => rfl
      | some ls => cases readTerms numericConstants source pieces <;> rfl

theorem parseTerms_respaced (text : String) :
    parseTerms numericConstants (respaced text) =
      (parseTerms numericConstants text).mapError ParseError.respaced := by
  have hsource : trim (respaced text).toList = squeeze (trim text.toList) := by
    rw [respaced, String.toList_ofList]
    exact (trimmed_trim _).squeeze.trim_eq
  unfold parseTerms
  simp only [hsource, squeeze_eq_nil_iff]
  split
  · rfl
  · rw [unwrap_squeeze, operands_squeeze (by decide), ← respaced_ofList_trim,
      readTerms_squeeze]

end Reading

/-! ## Lines of an index -/

/-- What is kept of a line is what follows its second word, respaced. -/
theorem exists_rest_of_entryOf? {line : List Char} {key : BuildIndex.Key} {stored : String}
    (h : BuildIndex.entryOf? line = some (key, stored)) :
    ∃ front rest, line = front ++ rest ∧ words front = [key.tag.toList, key.path.toList] ∧
      (∀ c, rest.head? = some c → isBlank c = true) ∧ stored = respaced (String.ofList rest) := by
  have hspaced := spaced_words line
  unfold BuildIndex.entryOf? at h
  match hwords : words line with
  | [] => simp [hwords] at h
  | [_] => simp [hwords] at h
  | tag :: path :: ws =>
    rw [hwords] at h hspaced
    cases h
    cases hspaced with
    | @cons indent _ behind _ hindent htag hbehind hmore =>
      cases hmore with
      | @cons gap _ rest _ hgap hpath hrest hwritten =>
        have hlast : Spaced (gap ++ path ++ []) [path] := .cons hgap hpath nofun (.nil nofun)
        have hstop : ∀ c, (gap ++ path ++ []).head? = some c → isBlank c = true := by
          intro c hc
          apply hbehind c
          rw [List.append_nil] at hc
          rw [List.head?_append_of_ne_nil _ (List.append_ne_nil_of_right_ne_nil gap hpath.ne_nil)]
          exact hc
        refine ⟨indent ++ tag ++ (gap ++ path ++ []), rest, ?_, ?_, hrest, ?_⟩
        · simp only [List.append_assoc, List.append_nil]
        · rw [String.toList_ofList, String.toList_ofList]
          exact (Spaced.cons hindent htag hstop hlast).words_eq
        · rw [respaced_ofList, squeeze_trim, hwritten.words_eq]

/-- A text and the same text with one space for each run of blanks and none at
its ends have the same terms, or are refused for the same reason. The second is
its words with single spaces between them, and so is what an index keeps of a
line: what follows the second word, respaced. -/
theorem the_layout_of_a_condition_does_not_matter (numericConstants : Bool) (text : String) :
    parseTerms numericConstants (respaced text) =
        (parseTerms numericConstants text).mapError ParseError.respaced ∧
      respaced text = String.ofList (unwords (words text.toList)) ∧
      ∀ line key stored, BuildIndex.entryOf? line = some (key, stored) →
        ∃ front rest, line = front ++ rest ∧ words front = [key.tag.toList, key.path.toList] ∧
          (∀ c, rest.head? = some c → isBlank c = true) ∧
          stored = respaced (String.ofList rest) := by
  refine ⟨parseTerms_respaced numericConstants text, ?_, fun _ _ _ => exists_rest_of_entryOf?⟩
  rw [respaced, squeeze_trim]

example : respaced " A\t&& !\n(B ) " = "A && ! (B )" := by
  decide

end Variability.Condition
