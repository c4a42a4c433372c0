-- What is written in disjunctive form is read as it is written: term by term,
-- literal by literal.
import Variability.Proofs.Conjunction
import Variability.Proofs.WrittenTerms

namespace Variability.Condition

open Text

/-! ## Marks of negation -/

/-- What is behind some marks of negation, further stripped if it is in
parentheses. -/
def behindMarks (found : Bool × List Char) : Bool × List Char :=
  match found with
  | (odd, '(' :: inner) => stripNegations odd ('(' :: inner)
  | found => found

theorem behindMarks_of_head {odd : Bool} {cs : List Char} (h : cs.head? ≠ some '(') :
    behindMarks (odd, cs) = (odd, cs) := by
  unfold behindMarks
  split
  · rename_i heq
    cases heq
    exact absurd rfl h
  · rfl

theorem takeNegations_of_mark {c : Char} (h : isNegation c = true) (negated : Bool)
    (cs : List Char) : takeNegations negated (c :: cs) = takeNegations (!negated) cs := by
  rw [takeNegations, if_pos h]

theorem takeNegations_of_head {c : Char} (hmark : isNegation c = false) (hblank : isBlank c = false)
    (negated : Bool) (cs : List Char) :
    takeNegations negated (c :: cs) = (negated, c :: cs) := by
  simp [takeNegations, hmark, hblank]

theorem takeNegations_of_blanks {front : List Char} (h : ∀ c ∈ front, isBlank c = true)
    (negated : Bool) (cs : List Char) :
    takeNegations negated (front ++ cs) = takeNegations negated cs := by
  induction front with
  | nil => rfl
  | cons b front ih =>
    have hb := h b List.mem_cons_self
    have hmark : isNegation b = false := by
      unfold isNegation
      simp only [Bool.or_eq_false_iff, decide_eq_false_iff_not]
      constructor <;>
      · rintro rfl
        exact absurd hb (by decide)
    rw [List.cons_append]
    simp only [takeNegations, hmark, hb, Bool.false_eq_true, if_false, if_true]
    exact ih fun c hc => h c (List.mem_cons_of_mem _ hc)

/-- Stripping goes on behind the marks of the unwrapped text, if there are
any. -/
theorem stripNegations_unwrap (negated : Bool) (cs : List Char) :
    stripNegations negated cs =
      match unwrap cs with
      | [] => (negated, [])
      | c :: rest =>
        if isNegation c then behindMarks (takeNegations (!negated) rest)
        else (negated, c :: rest) := by
  rw [stripNegations]
  split
  · rename_i hunwrap
    rw [hunwrap]
  · rename_i c rest hunwrap
    rw [hunwrap]
    by_cases hmark : isNegation c = true
    · simp only [if_pos hmark]
      split
      · rename_i htake
        rw [htake]
        rfl
      · rename_i hfound
        unfold behindMarks
        split
        · rename_i odd inner heq
          exact absurd heq (hfound odd inner)
        · rfl
    · simp only [if_neg hmark]

/-- Stripping takes the marks off the unwrapped text. -/
theorem stripNegations_eq {cs : List Char} (negated : Bool)
    (h : ∀ c, (unwrap cs).head? = some c → isBlank c = false ∧ c ≠ '(') :
    stripNegations negated cs = behindMarks (takeNegations negated (unwrap cs)) := by
  rw [stripNegations_unwrap]
  cases hunwrap : unwrap cs with
  | nil => rfl
  | cons c rest =>
    rw [hunwrap] at h
    obtain ⟨hblank, hopen⟩ := h c rfl
    by_cases hmark : isNegation c = true
    · simp only [if_pos hmark, takeNegations_of_mark hmark]
    · have hmark' : isNegation c = false := by simpa using hmark
      simp only [if_neg hmark]
      rw [takeNegations_of_head hmark' hblank, behindMarks_of_head]
      simpa using hopen

section Reading

variable {numericConstants : Bool} {source : String} {cs : List Char}

/-- Behind its marks an atom is found, negated as often as there are marks. -/
theorem WritesCore.behindMarks {l : WrittenLiteral} (h : WritesCore numericConstants cs l)
    (negated : Bool) : ∃ atom, WritesAtom numericConstants atom l.atom ∧
      Condition.behindMarks (takeNegations negated cs) = (negated != l.negated, atom) := by
  induction h generalizing negated with
  | @atom cs atom hatom =>
    refine ⟨cs, hatom, ?_⟩
    obtain ⟨c, rest, rfl⟩ := List.exists_cons_of_ne_nil hatom.isAtomText.ne_nil
    have hplain := hatom.isAtomText.head c rfl
    rw [takeNegations_of_head hplain.negation hplain.blank, behindMarks_of_head]
    · exact congrArg (·, c :: rest) (Bool.bne_false negated).symm
    · simpa using hplain.opening
  | @negation c front cs ds l hmark hfront hcs hbracketed ih =>
    have hnegation : isNegation c = true := by
      rcases hmark with rfl | rfl <;> decide
    have hparity : (negated != l.negate.negated) = ((!negated) != l.negated) := by
      rw [WrittenLiteral.negated_negate]
      cases negated <;> cases l.negated <;> rfl
    rw [takeNegations_of_mark hnegation, takeNegations_of_blanks hfront, hparity]
    have hunwrap := hcs.unwrap_bracketed hbracketed
    cases hbracketed with
    | bare => exact ih (!negated)
    | parens =>
      rw [takeNegations_of_head (by decide) (by decide)]
      unfold Condition.behindMarks
      simp only
      rw [stripNegations_eq, hunwrap]
      · exact ih (!negated)
      · rw [hunwrap]
        exact fun _ hc => hcs.head hc

/-! ## Literals -/

/-- What a written literal is read as. -/
def readingOf (l : WrittenLiteral) : LiteralReading :=
  match l.atom with
  | .constant value => .constant (value != l.negated)
  | .feature name valid => .literal ⟨name, l.negated, valid⟩

/-- A written literal is read for what it is. -/
theorem readLiteral_of_writes {l : WrittenLiteral} (h : WritesLiteral numericConstants cs l)
    (source : String) : readLiteral numericConstants source cs = .ok (readingOf l) := by
  have hcore := h.unwrap
  obtain ⟨atom, hatom, hstrip⟩ := WritesCore.behindMarks hcore false
  rw [← stripNegations_eq false fun _ hc => hcore.head hc, Bool.false_bne] at hstrip
  unfold readLiteral readingOf
  simp only [hstrip, if_neg hatom.isAtomText.ne_nil]
  generalize l.atom = written at hatom
  cases hatom with
  | constant hmem => rw [constant?_of_mem hmem]
  | feature valid hname =>
    rw [constant?_of_feature hname, atomName?_of_feature hname, Option.bind_some,
      Literal.ofName?, dif_pos valid]

theorem isFalse_iff {l : WrittenLiteral} :
    l.isFalse = true ↔ readingOf l = .constant false := by
  unfold WrittenLiteral.isFalse readingOf
  cases l.atom with
  | constant value => cases value <;> cases l.negated <;> simp
  | feature => simp

/-- The literals of a written term are read up to the first that is false. -/
theorem readLiterals_of_writes {pieces : List (List Char)} {ls : List WrittenLiteral}
    (h : List.Forall₂ (WritesLiteral numericConstants) pieces ls) (source : String) :
    readLiterals numericConstants source pieces =
      .ok (if ls.any WrittenLiteral.isFalse then none
        else some (ls.filterMap WrittenLiteral.literal?)) := by
  induction h with
  | nil => rfl
  | @cons piece l pieces ls hpiece _ ih =>
    have hread := readLiteral_of_writes hpiece source
    obtain ⟨marks, atom⟩ := l
    unfold readLiterals
    cases atom with
    | constant value =>
      rw [hread, ih, List.any_cons, WrittenLiteral.isFalse_constant,
        List.filterMap_cons_none (WrittenLiteral.literal?_constant _ _)]
      unfold readingOf
      cases value <;> cases WrittenLiteral.negated ⟨marks, _⟩ <;> rfl
    | feature name valid =>
      rw [hread, ih, List.any_cons, WrittenLiteral.isFalse_feature, Bool.false_or,
        List.filterMap_cons_some (WrittenLiteral.literal?_feature _ _ _)]
      cases ls.any WrittenLiteral.isFalse <;> rfl

/-! ## Terms -/

theorem readTerm_of_writes {ls : List WrittenLiteral} (h : WritesTerm numericConstants cs ls)
    (source : String) :
    readTerm numericConstants source cs =
      .ok (if ls.any WrittenLiteral.isFalse then none
        else some (ls.filterMap WrittenLiteral.literal?)) := by
  have hinside := h.unwrap
  have hne := ((ignoresBlanks_literal numericConstants).joined '&').ne_nil hinside
  have hpieces := hinside.operands (ignoresBlanks_literal numericConstants).ne_nil
    fun hcs => hcs.not_mem.1
  unfold readTerm
  rw [if_neg hne]
  exact readLiterals_of_writes hpieces source

/-- The terms are read one by one, those that are false left out. -/
theorem readTerms_of_writes {pieces : List (List Char)} {ts : List (List WrittenLiteral)}
    (h : List.Forall₂ (WritesTerm numericConstants) pieces ts) (source : String) :
    readTerms numericConstants source pieces = .ok (ts.filterMap writtenTerm?) := by
  induction h with
  | nil => rfl
  | @cons piece ls pieces ts hpiece _ ih =>
    unfold readTerms
    rw [readTerm_of_writes hpiece source]
    cases hfalse : ls.any WrittenLiteral.isFalse with
    | true =>
      rw [List.filterMap_cons_none (writtenTerm?_of_isFalse hfalse)]
      exact ih
    | false =>
      rw [List.filterMap_cons_some (writtenTerm?_of_not_isFalse hfalse), ih]
      rfl

/-- What a term without a false literal keeps of its literals says the same. -/
theorem all_holds_literal? {ls : List WrittenLiteral} (h : ls.any WrittenLiteral.isFalse = false)
    (a : Assignment) :
    (ls.filterMap WrittenLiteral.literal?).all (·.holds a) = ls.all (·.holds a) := by
  induction ls with
  | nil => rfl
  | cons l ls ih =>
    rw [List.any_cons, Bool.or_eq_false_iff] at h
    obtain ⟨marks, atom⟩ := l
    rw [List.all_cons, ← ih h.2]
    cases atom with
    | constant value =>
      have htrue : WrittenLiteral.holds a ⟨marks, .constant value⟩ = true := by
        have hvalue := h.1
        unfold WrittenLiteral.holds Atom.holds
        simpa using hvalue
      rw [List.filterMap_cons_none (WrittenLiteral.literal?_constant _ _), htrue, Bool.true_and]
    | feature name valid =>
      rw [List.filterMap_cons_some (WrittenLiteral.literal?_feature _ _ _), List.all_cons]
      rfl

theorem all_holds_of_isFalse {ls : List WrittenLiteral} (h : ls.any WrittenLiteral.isFalse = true)
    (a : Assignment) : ls.all (·.holds a) = false := by
  obtain ⟨⟨marks, atom⟩, hmem, hfalse⟩ := List.any_eq_true.mp h
  rw [List.all_eq_false]
  refine ⟨_, hmem, ?_⟩
  cases atom with
  | constant value =>
    unfold WrittenLiteral.holds Atom.holds
    simpa using hfalse
  | feature => cases hfalse

/-- The terms that are kept say what all of them say. -/
theorem any_holds_writtenTerm? (ts : List (List WrittenLiteral)) (a : Assignment) :
    (ts.filterMap writtenTerm?).any (·.holds a) = ts.any fun ls => ls.all (·.holds a) := by
  induction ts with
  | nil => rfl
  | cons ls ts ih =>
    rw [List.any_cons, ← ih]
    cases hfalse : ls.any WrittenLiteral.isFalse with
    | true =>
      rw [List.filterMap_cons_none (writtenTerm?_of_isFalse hfalse), all_holds_of_isFalse hfalse,
        Bool.false_or]
    | false =>
      rw [List.filterMap_cons_some (writtenTerm?_of_not_isFalse hfalse), List.any_cons,
        Term.holds_ofList, all_holds_literal? hfalse]

end Reading

/-! ## Conditions -/

section Parsing

variable {numericConstants : Bool} {text : String} {ts : List (List WrittenLiteral)}

/-- A text in disjunctive form, or a blank one: that has one term, without
literals. -/
inductive WritesCondition (numericConstants : Bool) :
    List Char → List (List WrittenLiteral) → Prop
  | blank {cs : List Char} : (∀ c ∈ cs, isBlank c = true) → WritesCondition numericConstants cs [[]]
  | terms {cs : List Char} {ts : List (List WrittenLiteral)} : WritesTerms numericConstants cs ts →
      WritesCondition numericConstants cs ts

theorem parseTerms_of_blank (h : ∀ c ∈ text.toList, isBlank c = true) :
    parseTerms numericConstants text = .ok [Term.empty] := by
  unfold parseTerms
  simp only [if_pos (trim_eq_nil_iff.mpr h)]

theorem parseTerms_of_writes (h : WritesTerms numericConstants text.toList ts) :
    parseTerms numericConstants text = .ok (ts.filterMap writtenTerm?) := by
  have hblanks := ((ignoresBlanks_term numericConstants).joined '|').wrapped
  have hsame : unwrap (trim text.toList) = unwrap text.toList :=
    unwrap_congr (trimmed_trim _).trim_eq
  have hpieces := h.unwrap.operands (ignoresBlanks_term numericConstants).ne_nil
    WritesTerm.not_mem
  unfold parseTerms
  simp only [if_neg (hblanks.ne_nil (hblanks.trim h)), hsame]
  exact readTerms_of_writes hpieces _

/-- A text in disjunctive form is parsed: each term that has no false literal
becomes the term of its features, in order, and the condition says what is
written. A blank text is the one term that always holds. -/
theorem a_written_condition_is_parsed_term_by_term
    (h : WritesCondition numericConstants text.toList ts) :
    parseTerms numericConstants text = .ok (ts.filterMap writtenTerm?) ∧
      ((∀ c ∈ text.toList, isBlank c = true) →
        parseTerms numericConstants text = .ok [Term.empty]) ∧
      ∀ d, ∃ c, parse d numericConstants text = .ok c ∧ c.dialect = d ∧
        ∀ a, c.holds a = ts.any fun ls => ls.all (·.holds a) := by
  have hterms : parseTerms numericConstants text = .ok (ts.filterMap writtenTerm?) := by
    cases h with
    | blank hblanks => exact parseTerms_of_blank hblanks
    | terms h => exact parseTerms_of_writes h
  refine ⟨hterms, parseTerms_of_blank, ?_⟩
  intro d
  refine ⟨ofTerms d (ts.filterMap writtenTerm?), ?_, rfl, ?_⟩
  · unfold parse
    rw [hterms]
    rfl
  · intro a
    rw [holds_ofTerms, any_holds_writtenTerm?]

end Parsing

/-- Two terms: one in parentheses, with a constant in it, and one that ends in
the parenthesis of its atom. -/
def twoTermsText : String := "(A & !(0)) || defined( B )"

def twoTerms : List (List WrittenLiteral) :=
  [[⟨0, .feature "A" (by decide)⟩, ⟨1, .constant false⟩], [⟨0, .feature "B" (by decide)⟩]]

theorem writes_twoTermsText : WritesCondition true twoTermsText.toList twoTerms := by
  have hname : ∀ c, isNameChar c = true → IsName [c] := fun _ hc =>
    ⟨List.cons_ne_nil _ _, List.forall_mem_singleton.mpr hc⟩
  have hA : WritesCore true ['A'] ⟨0, .feature "A" (by decide)⟩ :=
    .atom (.feature _ (.bare (hname 'A' (by decide)) (by decide)))
  have hfalse : ("0", false) ∈ constantWords true := by decide
  have hzero : WritesCore true ['0'] ⟨0, .constant false⟩ := .atom (.constant hfalse)
  have hnot : WritesCore true ['!', '(', '0', ')'] ⟨1, .constant false⟩ :=
    .negation (Or.inl rfl) forall_isBlank_nil hzero
      (.parens forall_isBlank_nil forall_isBlank_nil)
  have hdefined : WritesFeature true _ ['B'] := .enclosed (hname 'B' (by decide)) (Or.inl rfl)
    forall_isBlank_nil forall_isBlank_space forall_isBlank_space
  have hB : WritesCore true "defined( B )".toList ⟨0, .feature "B" (by decide)⟩ :=
    .atom (.feature _ hdefined)
  have hfirst : Joined '&' (WritesLiteral true) _ _ :=
    .cons (Wrapped.padded forall_isBlank_nil forall_isBlank_space (.bare hA)) (Or.inl rfl)
      (.one (Wrapped.padded forall_isBlank_space forall_isBlank_nil (.bare hnot)))
  have hsecond : Joined '&' (WritesLiteral true) _ _ :=
    .one (Wrapped.padded forall_isBlank_space forall_isBlank_nil (.bare hB))
  have hterms : Joined '|' (WritesTerm true) _ _ :=
    .cons (Wrapped.padded forall_isBlank_nil forall_isBlank_space (.parens hfirst)) (Or.inr rfl)
      (.one (.bare hsecond))
  exact .terms (.bare hterms)

/-- The constant is true and left out, and each term keeps its feature. -/
theorem two_written_terms_are_parsed :
    WritesCondition true twoTermsText.toList twoTerms ∧
      twoTerms.filterMap writtenTerm? =
        [Term.ofList [⟨"A", false, by decide⟩], Term.ofList [⟨"B", false, by decide⟩]] ∧
      parseTerms true twoTermsText = .ok (twoTerms.filterMap writtenTerm?) ∧
      ((∀ c ∈ twoTermsText.toList, isBlank c = true) →
        parseTerms true twoTermsText = .ok [Term.empty]) ∧
      ∀ d, ∃ c, parse d true twoTermsText = .ok c ∧ c.dialect = d ∧
        ∀ a, c.holds a = twoTerms.any fun ls => ls.all (·.holds a) :=
  ⟨writes_twoTermsText, by decide, a_written_condition_is_parsed_term_by_term writes_twoTermsText⟩

end Variability.Condition
