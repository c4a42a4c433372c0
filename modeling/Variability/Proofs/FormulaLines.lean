-- What the lines of a formula say: a line that can be read says one of four
-- things, and what has been read after it is what it adds to what was read
-- before.
import Mathlib.Data.List.Forall2
import Variability.Cnf.Dimacs
import Variability.Proofs.Numerals
import Variability.Proofs.Spacing

namespace Variability.Cnf

open Text

/-! ## Comments that name a variable -/

/-- The line is a comment of the form that names a variable: the letter, digits
that a dollar sign may follow, and a name. -/
structure NameForm (line digits name : List Char) : Prop where
  ne_nil : digits ≠ []
  decimal : ∀ c ∈ digits, isDecimalDigit c = true
  spaced : Spaced line [['c'], digits, name] ∨ Spaced line [['c'], digits ++ ['$'], name]

/-- The line names the variable with this number. -/
def NamesVariable (line : List Char) (id : Nat) (name : List Char) : Prop :=
  ∃ digits, NameForm line digits name ∧ WritesNatural digits id

section Names

variable {line digits name : List Char}

/-- The form is told by the words. -/
theorem namedVariable?_congr {other : List Char} (h : words line = words other) :
    namedVariable? line = namedVariable? other := by
  unfold namedVariable?
  rw [h]

theorem nameForm_of_namedVariable? (h : namedVariable? line = some (digits, name)) :
    NameForm line digits name := by
  unfold namedVariable? at h
  split at h
  · rename_i id found hwords
    obtain ⟨written, hwritten, hid⟩ : ∃ written,
        written = (if id.getLast? = some '$' then id.dropLast else id) ∧
          (id = written ∨ id = written ++ ['$']) := by
      refine ⟨_, rfl, ?_⟩
      split
      · rename_i hdollar
        exact .inr (List.dropLast_append_getLast? '$' hdollar).symm
      · exact .inl rfl
    simp only [← hwritten] at h
    split at h
    · rename_i hdigits
      cases h
      simp only [Bool.and_eq_true, Bool.not_eq_true', List.isEmpty_eq_false_iff,
        List.all_eq_true] at hdigits
      have hspaced := words_eq_iff.mp hwords
      refine ⟨hdigits.1, hdigits.2, ?_⟩
      rcases hid with rfl | rfl
      · exact .inl hspaced
      · exact .inr hspaced
    · cases h
  · cases h

theorem NameForm.namedVariable?_eq (h : NameForm line digits name) :
    namedVariable? line = some (digits, name) := by
  obtain ⟨hne, hdecimal, hspaced⟩ := h
  have hdigits : (!digits.isEmpty && digits.all isDecimalDigit) = true := by
    simpa [hne] using hdecimal
  have hplain : digits.getLast? ≠ some '$' := by
    intro hdollar
    exact absurd (hdecimal '$' (List.mem_of_getLast? hdollar)) (by decide)
  unfold namedVariable?
  rcases hspaced with hspaced | hspaced
  · simp only [hspaced.words_eq, if_neg hplain, hdigits, if_true]
  · simp only [hspaced.words_eq, List.getLast?_concat, List.dropLast_concat, hdigits, if_true]

theorem NameForm.exists_spaced (h : NameForm line digits name) :
    ∃ ws, Spaced line (['c'] :: ws) := by
  rcases h.spaced with hspaced | hspaced
  · exact ⟨_, hspaced⟩
  · exact ⟨_, hspaced⟩

theorem NameForm.head?_trim (h : NameForm line digits name) : (trim line).head? = some 'c' :=
  h.exists_spaced.elim fun _ hspaced => hspaced.head?_trim

end Names

/-! ## What a line says -/

/-- What a line adds to a formula. -/
inductive Saying
  | nothing
  | header (count : Int)
  | name (id : Nat) (name : String)
  | literals (ls : List Int)

/-- The line says this. Blanks at its front do not count. A line of blanks has
no literals. -/
inductive Says : List Char → Saying → Prop
  | percent {front rest : List Char} (hfront : ∀ c ∈ front, isBlank c = true) :
      Says (front ++ '%' :: rest) .nothing
  | comment {front rest : List Char} (hfront : ∀ c ∈ front, isBlank c = true)
      (hform : ∀ digits name, ¬ NameForm (front ++ 'c' :: rest) digits name) :
      Says (front ++ 'c' :: rest) .nothing
  | name {line name : List Char} {id : Nat} (h : NamesVariable line id name) :
      Says line (.name id (String.ofList name))
  | header {line letters count size : List Char} {more : List (List Char)} {n : Int}
      (h : Spaced line (('p' :: letters) :: "cnf".toList :: count :: size :: more))
      (hcount : WritesInteger count n) : Says line (.header n)
  | literals {line : List Char} {tokens : List (List Char)} {ls : List Int}
      (h : Spaced line tokens) (hls : List.Forall₂ WritesInteger tokens ls) :
      Says line (.literals ls)

/-! ## What has been read -/

/-- The clauses and the open clause, each last first, after one more literal. A
zero closes the open clause, which has to have a literal. -/
def addLiteral? (g : List Clause × List Int) (l : Int) : Option (List Clause × List Int) :=
  if l = 0 then if g.2 = [] then none else some (g.2.reverse :: g.1, [])
  else some (g.1, l :: g.2)

/-- What has been read after a line that says this, if that can be. -/
def Progress.after? (p : Progress) : Saying → Option Progress
  | .nothing => some p
  | .header n => some { p with header := n }
  | .name id name => some { p with names := p.names.insert id name }
  | .literals ls =>
    (ls.foldlM addLiteral? (p.clauses, p.current)).map fun g =>
      { p with clauses := g.1, current := g.2 }

section Reading

variable {number : Nat} {p q : Progress} {line : List Char}

/-- What has been read after one more literal of a line. -/
def Progress.afterLiteral? (p : Progress) (l : Int) : Option Progress :=
  (addLiteral? (p.clauses, p.current) l).map fun g => { p with clauses := g.1, current := g.2 }

theorem after?_literals_cons (p : Progress) (l : Int) (ls : List Int) :
    p.after? (.literals (l :: ls)) = (p.afterLiteral? l).bind (·.after? (.literals ls)) := by
  simp only [Progress.after?, Progress.afterLiteral?, List.foldlM_cons]
  cases addLiteral? (p.clauses, p.current) l <;> rfl

theorem readTokens_cons {token : List Char} {l : Int} (h : readInteger token = .ok l)
    (rest : List (List Char)) :
    readTokens number p (token :: rest) =
      match p.afterLiteral? l with
      | none => .error (.emptyClause number)
      | some next => readTokens number next rest := by
  rw [readTokens]
  unfold Progress.afterLiteral? addLiteral?
  by_cases hl : l = 0
  · subst hl
    by_cases hopen : p.current = [] <;> simp [h, hopen]
  · simp [h, hl]

theorem readTokens_eq_ok_iff {tokens : List (List Char)} :
    readTokens number p tokens = .ok q ↔
      ∃ ls, List.Forall₂ WritesInteger tokens ls ∧ p.after? (.literals ls) = some q := by
  induction tokens generalizing p with
  | nil =>
    constructor
    · rintro ⟨⟩
      exact ⟨[], .nil, rfl⟩
    · rintro ⟨_, ⟨⟩, ⟨⟩⟩
      rfl
  | cons token tokens ih =>
    constructor
    · intro h
      cases hread : readInteger token with
      | error fault => simp [readTokens, hread] at h
      | ok l =>
        rw [readTokens_cons hread] at h
        cases hnext : p.afterLiteral? l with
        | none => simp [hnext] at h
        | some next =>
          rw [hnext] at h
          obtain ⟨ls, hls, hafter⟩ := ih.mp h
          refine ⟨l :: ls, .cons (readInteger_eq_ok_iff.mp hread) hls, ?_⟩
          rw [after?_literals_cons, hnext]
          exact hafter
    · rintro ⟨_, hforall, hafter⟩
      cases hforall with
      | @cons _ l _ ls htoken hls =>
        rw [readTokens_cons (readInteger_eq_ok_iff.mpr htoken)]
        rw [after?_literals_cons] at hafter
        obtain ⟨next, hnext, hafter⟩ := Option.bind_eq_some_iff.mp hafter
        rw [hnext]
        exact ih.mpr ⟨ls, hls, hafter⟩

/-! ## Lines of five kinds -/

theorem says_of_readHeader (hhead : (trim line).head? = some 'p')
    (h : readHeader number p (trim line) = .ok q) : ∃ s, Says line s ∧ p.after? s = some q := by
  unfold readHeader at h
  rw [words_trim] at h
  split at h
  · rename_i first kind count size more hwords
    have hspaced := words_eq_iff.mp hwords
    obtain ⟨letters, rfl⟩ := List.head?_eq_some_iff.mp (hspaced.head?_trim ▸ hhead)
    split at h
    · rename_i hkind
      subst hkind
      split at h
      · rename_i n hcount
        cases h
        exact ⟨.header n, .header hspaced (readInteger_eq_ok_iff.mp hcount), rfl⟩
      · cases h
    · cases h
  · cases h

theorem says_of_readComment (hhead : (trim line).head? = some 'c')
    (h : readComment p (trim line) = .ok q) : ∃ s, Says line s ∧ p.after? s = some q := by
  unfold readComment at h
  rw [namedVariable?_congr (words_trim line)] at h
  cases hnamed : namedVariable? line with
  | none =>
    rw [hnamed] at h
    cases h
    obtain ⟨_, front, rest, rfl, hfront⟩ := head?_trim_eq_some_iff.mp hhead
    refine ⟨.nothing, .comment hfront ?_, rfl⟩
    intro digits name hform
    rw [hform.namedVariable?_eq] at hnamed
    cases hnamed
  | some found =>
    obtain ⟨digits, name⟩ := found
    simp only [hnamed] at h
    split at h
    · cases h
    · rename_i id hid
      cases h
      have hform := nameForm_of_namedVariable? hnamed
      exact ⟨_, .name ⟨digits, hform, readNatural_eq_ok_iff.mp hid⟩, rfl⟩

theorem says_of_readLine (h : readLine number p (trim line) = .ok q) :
    ∃ s, Says line s ∧ p.after? s = some q := by
  unfold readLine at h
  split at h
  · rename_i hnil
    cases h
    exact ⟨.literals [], .literals (.nil (trim_eq_nil_iff.mp hnil)) .nil, rfl⟩
  · rename_i rest hline
    cases h
    have hhead : (trim line).head? = some '%' := by rw [hline]; rfl
    obtain ⟨_, front, rest, rfl, hfront⟩ := head?_trim_eq_some_iff.mp hhead
    exact ⟨.nothing, .percent hfront, rfl⟩
  · rename_i rest hline
    exact says_of_readComment (by rw [hline]; rfl) h
  · rename_i rest hline
    exact says_of_readHeader (by rw [hline]; rfl) h
  · rw [words_trim] at h
    obtain ⟨ls, hls, hafter⟩ := readTokens_eq_ok_iff.mp h
    exact ⟨.literals ls, .literals (spaced_words line) hls, hafter⟩

theorem readLine_of_percent (hhead : line.head? = some '%') : readLine number p line = .ok p := by
  obtain ⟨rest, rfl⟩ := List.head?_eq_some_iff.mp hhead
  rfl

theorem readLine_of_comment (hhead : line.head? = some 'c') :
    readLine number p line = readComment p line := by
  obtain ⟨rest, rfl⟩ := List.head?_eq_some_iff.mp hhead
  rfl

theorem readLine_of_header (hhead : line.head? = some 'p') :
    readLine number p line = readHeader number p line := by
  obtain ⟨rest, rfl⟩ := List.head?_eq_some_iff.mp hhead
  rfl

theorem readLine_of_other {c : Char} (hhead : line.head? = some c) (hpercent : c ≠ '%')
    (hcomment : c ≠ 'c') (hheader : c ≠ 'p') :
    readLine number p line = readTokens number p (words line) := by
  obtain ⟨rest, rfl⟩ := List.head?_eq_some_iff.mp hhead
  unfold readLine
  split <;> simp_all

theorem readLine_of_tokens {tokens : List (List Char)} {ls : List Int}
    (h : Spaced line tokens) (hls : List.Forall₂ WritesInteger tokens ls) :
    readLine number p (trim line) = readTokens number p tokens := by
  cases hls with
  | nil =>
    cases h with
    | nil hblanks =>
      rw [trim_eq_nil_iff.mpr hblanks]
      rfl
  | cons htoken _ =>
    -- A number starts with a sign or a digit, and so the line is none of the
    -- other kinds.
    obtain ⟨c, rest, rfl, hc⟩ := htoken.exists_cons
    have hother : ∀ d, isDecimalDigit d = false → d ≠ '+' → d ≠ '-' → c ≠ d := by
      rintro d hdigit hplus hminus rfl
      simp [hdigit, hplus, hminus] at hc
    rw [readLine_of_other h.head?_trim (hother '%' (by decide) (by decide) (by decide))
      (hother 'c' (by decide) (by decide) (by decide))
      (hother 'p' (by decide) (by decide) (by decide)), words_trim, h.words_eq]

theorem Says.readLine_eq {s : Saying} (h : Says line s) (hafter : p.after? s = some q) :
    readLine number p (trim line) = .ok q := by
  cases h with
  | @percent front rest hfront =>
    cases hafter
    exact readLine_of_percent (head?_trim_eq_some_iff.mpr ⟨by decide, front, rest, rfl, hfront⟩)
  | @comment front rest hfront hform =>
    cases hafter
    have hhead : (trim (front ++ 'c' :: rest)).head? = some 'c' :=
      head?_trim_eq_some_iff.mpr ⟨by decide, front, rest, rfl, hfront⟩
    have hnone : namedVariable? (front ++ 'c' :: rest) = none := by
      rw [Option.eq_none_iff_forall_ne_some]
      rintro ⟨digits, name⟩ hnamed
      exact hform digits name (nameForm_of_namedVariable? hnamed)
    rw [readLine_of_comment hhead, readComment, namedVariable?_congr (words_trim _), hnone]
  | name h =>
    cases hafter
    obtain ⟨digits, hform, hid⟩ := h
    rw [readLine_of_comment hform.head?_trim, readComment, namedVariable?_congr (words_trim _),
      hform.namedVariable?_eq]
    simp only [readNatural_eq_ok_iff.mpr hid]
  | header h hcount =>
    cases hafter
    rw [readLine_of_header h.head?_trim, readHeader, words_trim, h.words_eq]
    simp only [if_true, readInteger_eq_ok_iff.mpr hcount]
  | literals h hls =>
    rw [readLine_of_tokens h hls]
    exact readTokens_eq_ok_iff.mpr ⟨_, hls, hafter⟩

/-- A line can be read exactly if it says something that can be added to what
was read. -/
theorem readLine_eq_ok_iff :
    readLine number p (trim line) = .ok q ↔ ∃ s, Says line s ∧ p.after? s = some q :=
  ⟨says_of_readLine, fun ⟨_, hs, hafter⟩ => hs.readLine_eq hafter⟩

theorem readLines_eq_ok_iff {ls : List (List Char)} :
    readLines number p ls = .ok q ↔
      ∃ sayings, List.Forall₂ Says ls sayings ∧ sayings.foldlM Progress.after? p = some q := by
  induction ls generalizing number p with
  | nil =>
    constructor
    · rintro ⟨⟩
      exact ⟨[], .nil, rfl⟩
    · rintro ⟨_, ⟨⟩, ⟨⟩⟩
      rfl
  | cons line ls ih =>
    unfold readLines
    constructor
    · intro h
      cases hline : readLine number p (trim line) with
      | error e => simp [hline] at h
      | ok next =>
        rw [hline] at h
        obtain ⟨s, hs, hnext⟩ := readLine_eq_ok_iff.mp hline
        obtain ⟨sayings, hsayings, hafter⟩ := ih.mp h
        exact ⟨s :: sayings, .cons hs hsayings, by rw [List.foldlM_cons, hnext]; exact hafter⟩
    · rintro ⟨_, hforall, hafter⟩
      cases hforall with
      | @cons _ s _ sayings hs hsayings =>
        rw [List.foldlM_cons] at hafter
        obtain ⟨next, hnext, hafter⟩ := Option.bind_eq_some_iff.mp hafter
        rw [readLine_eq_ok_iff.mpr ⟨s, hs, hnext⟩]
        exact ih.mpr ⟨sayings, hsayings, hafter⟩

end Reading

/-! ## What is wrong with a line -/

section Errors

variable {number : Nat} {p : Progress} {line : List Char} {e : DimacsError}

theorem readComment_error (h : readComment p line = .error e) : ∃ fault, e = .longId fault := by
  unfold readComment at h
  split at h
  · cases h
  · split at h
    · cases h
      exact ⟨_, rfl⟩
    · cases h

theorem readHeader_error (h : readHeader number p line = .error e) :
    e = .header number (String.ofList line) := by
  unfold readHeader at h
  split at h
  · split at h
    · split at h
      · cases h
      · cases h
        rfl
    · cases h
      rfl
  · cases h
    rfl

theorem readTokens_error {tokens : List (List Char)} (h : readTokens number p tokens = .error e) :
    (∃ token, e = .literal token number) ∨ e = .emptyClause number := by
  fun_induction readTokens number p tokens with
  | case1 => cases h
  | case2 =>
    cases h
    exact .inl ⟨_, rfl⟩
  | case3 =>
    cases h
    exact .inr rfl
  | case4 _ _ _ _ _ ih => exact ih h
  | case5 _ _ _ _ _ _ ih => exact ih h

end Errors

/-! ## What several lines say -/

/-- The header, as a list of at most one. -/
def Saying.counts : Saying → List Int
  | .header n => [n]
  | _ => []

/-- The named variable, as a list of at most one. -/
def Saying.names : Saying → List (Int × String)
  | .name id s => [(id, s)]
  | _ => []

def Saying.tokens : Saying → List Int
  | .literals ls => ls
  | _ => []

section Several

variable {line : List Char} {ls : List (List Char)} {sayings : List Saying} {v : Int}
  {name : String}

/-- A line names the variables that it says. -/
theorem Says.mem_names_iff {s : Saying} (h : Says line s) :
    (v, name) ∈ s.names ↔
      ∃ id chars, NamesVariable line id chars ∧ v = id ∧ name = String.ofList chars := by
  have hother : ∀ c, (trim line).head? = some c → c ≠ 'c' → ∀ id chars,
      ¬ NamesVariable line id chars := by
    rintro c hhead hc id chars ⟨digits, hform, _⟩
    rw [hform.head?_trim] at hhead
    exact hc (Option.some.inj hhead).symm
  cases h with
  | @percent front rest hfront =>
    have := hother '%' (head?_trim_eq_some_iff.mpr ⟨by decide, front, rest, rfl, hfront⟩)
      (by decide)
    simp [Saying.names, this]
  | comment hfront hform => simp [Saying.names, NamesVariable, hform]
  | @name _ found id h =>
    simp only [Saying.names, List.mem_singleton, Prod.mk.injEq]
    constructor
    · rintro ⟨rfl, rfl⟩
      exact ⟨id, found, h, rfl, rfl⟩
    · rintro ⟨id', found', h', rfl, rfl⟩
      obtain ⟨digits, hform, hid⟩ := h
      obtain ⟨digits', hform', hid'⟩ := h'
      have hsame := hform.namedVariable?_eq.symm.trans hform'.namedVariable?_eq
      simp only [Option.some.injEq, Prod.mk.injEq] at hsame
      obtain ⟨rfl, rfl⟩ := hsame
      have hids := (readNatural_eq_ok_iff.mpr hid).symm.trans (readNatural_eq_ok_iff.mpr hid')
      rw [Except.ok.inj hids]
      exact ⟨rfl, rfl⟩
  | header h _ =>
    have := hother 'p' h.head?_trim (by decide)
    simp [Saying.names, this]
  | literals h hls =>
    have hnone : ∀ id chars, ¬ NamesVariable line id chars := by
      rintro id chars ⟨digits, hform, _⟩
      obtain ⟨ws, hspaced⟩ := hform.exists_spaced
      rw [← h.words_eq, hspaced.words_eq] at hls
      cases hls with
      | cons hletter _ =>
        obtain ⟨c, rest, hcons, hc⟩ := hletter.exists_cons
        obtain ⟨rfl, _⟩ := List.cons.inj hcons
        exact absurd hc (by decide)
    simp [Saying.names, hnone]

/-- What several lines name is what one of them names. -/
theorem mem_names_iff (h : List.Forall₂ Says ls sayings) :
    (v, name) ∈ sayings.flatMap Saying.names ↔ ∃ line ∈ ls, ∃ id chars,
      NamesVariable line id chars ∧ v = id ∧ name = String.ofList chars := by
  induction h with
  | nil => simp
  | cons hline _ ih => simp [List.mem_append, hline.mem_names_iff, ih]

end Several

/-- After several lines, the header is the last one, the names are entered one
after the other, and the clauses are those of all the literals as if they stood
in one line. -/
theorem foldlM_after? (sayings : List Saying) (p : Progress) :
    sayings.foldlM Progress.after? p =
      ((sayings.flatMap Saying.tokens).foldlM addLiteral? (p.clauses, p.current)).map fun g =>
        ⟨(sayings.flatMap Saying.counts).getLastD p.header,
          (sayings.flatMap Saying.names).foldl (fun t n => t.insert n.1 n.2) p.names,
          g.1, g.2⟩ := by
  induction sayings generalizing p with
  | nil => rfl
  | cons s sayings ih =>
    rw [List.foldlM_cons, List.flatMap_cons, List.flatMap_cons, List.flatMap_cons]
    cases s with
    | nothing => exact ih p
    | header n =>
      have hlast : ([n] ++ sayings.flatMap Saying.counts).getLastD p.header =
          (sayings.flatMap Saying.counts).getLastD n := by simp [List.getLast?_cons]
      simp only [Saying.counts, hlast]
      exact ih { p with header := n }
    | name id name => exact ih { p with names := p.names.insert id name }
    | literals ls =>
      simp only [Saying.counts, Saying.names, Saying.tokens, List.foldlM_append,
        Progress.after?, List.nil_append]
      cases hread : ls.foldlM addLiteral? (p.clauses, p.current) with
      | none => rfl
      | some g => exact ih { p with clauses := g.1, current := g.2 }

end Variability.Cnf
