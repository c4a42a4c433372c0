-- What is read was written: a literal is read only if it is one, and a text is
-- parsed only if every literal that is looked at is one. What stands behind a
-- false literal in its term is not looked at.
import Variability.Proofs.Acceptance

namespace Variability.Condition

open Text

/-! ## Atoms that are read -/

section Atoms

variable {numericConstants : Bool} {atom : List Char}

/-- An atom that is read as a feature is the text of one. -/
theorem writesFeature_of_atomName? {name : List Char}
    (hconstant : constant? numericConstants atom = none) (h : atomName? atom = some name) :
    WritesFeature numericConstants atom name := by
  have henclosed : ∀ word : String, word = "defined" ∨ word = "definedEx" →
      (afterWord? word.toList atom).bind enclosedName? = some name →
      WritesFeature numericConstants atom name := by
    intro word hword hbind
    obtain ⟨rest, hafter, hrest⟩ := Option.bind_eq_some_iff.mp hbind
    obtain ⟨before, front, back, rfl, hname, hbefore, hfront, hback⟩ :=
      exists_of_enclosedName? hrest
    rw [afterWord?_eq_some_iff.mp hafter]
    exact .enclosed hname hword hbefore hfront hback
  unfold atomName? at h
  simp only [Option.orElse_eq_orElse, Option.orElse_eq_or, Option.or_eq_some_iff] at h
  rcases h with h | ⟨_, h | ⟨_, h | ⟨_, h⟩⟩⟩
  · exact henclosed _ (Or.inr rfl) h
  · exact henclosed _ (Or.inl rfl) h
  · obtain ⟨rest, hafter, hrest⟩ := Option.bind_eq_some_iff.mp h
    obtain ⟨blanks, rfl, hname, hne, hblanks⟩ := exists_of_separateName? hrest
    rw [afterWord?_eq_some_iff.mp hafter]
    exact .separate hname hne hblanks
  · obtain ⟨rfl, hname⟩ := eq_of_bareName? h
    rw [← String.toList_ofList (l := atom), constant?_eq_none_iff] at hconstant
    exact .bare hname hconstant

end Atoms

/-! ## Literals that are read -/

section Literals

variable {numericConstants : Bool} {source : String} {cs : List Char}

/-- Whatever an unwrapped text is, so is the text with the pair around it. -/
theorem wrapped_of_unwrap {α : Type} {writes : List Char → α → Prop} {x : α}
    (h : writes (unwrap cs) x) : Wrapped writes cs x := by
  obtain ⟨front, back, hcs, hf, hb⟩ := exists_blanks_trim cs
  rw [hcs]
  rcases unwrap_cases cs with hu | ⟨inner, hinner, _, hu⟩
  · rw [hu] at h
    exact .mk h .bare hf hb
  · obtain ⟨before, behind, hinside, hbefore, hbehind⟩ := exists_blanks_trim inner
    rw [hu] at h
    rw [hinner]
    refine .mk h ?_ hf hb
    have hparens : Bracketed (trim inner) _ := .parens hbefore hbehind
    rwa [← hinside] at hparens

theorem trimmed_unwrap (cs : List Char) : Trimmed (unwrap cs) := by
  rcases unwrap_cases cs with hu | ⟨inner, _, _, hu⟩
  · rw [hu]
    exact trimmed_trim cs
  · rw [hu]
    exact trimmed_trim inner

/-- Inside the pair is no other pair if the text starts with something else. -/
theorem unwrap_unwrap {cs : List Char} (h : (unwrap cs).head? ≠ some '(') :
    unwrap (unwrap cs) = unwrap cs := by
  have htrim := (trimmed_unwrap cs).trim_eq
  rcases unwrap_cases (unwrap cs) with hu | ⟨inner, hinner, _⟩
  · rw [hu, htrim]
  · rw [htrim] at hinner
    rw [hinner] at h
    exact absurd rfl h

theorem cons_blank_of_literal {b : Char} {l : WrittenLiteral} (hb : isBlank b = true)
    (h : WritesLiteral numericConstants cs l) : WritesLiteral numericConstants (b :: cs) l := by
  have hpadded := h.padded (List.forall_mem_singleton.mpr hb) forall_isBlank_nil
  rwa [List.append_nil] at hpadded

theorem negation_of_literal {c : Char} {l : WrittenLiteral} (hmark : isNegation c = true)
    (h : WritesLiteral numericConstants cs l) :
    WritesLiteral numericConstants (c :: cs) l.negate := by
  have hmark' : c = '!' ∨ c = '~' := by
    unfold isNegation at hmark
    simpa using hmark
  obtain ⟨hcore, hbracketed, hf, hback⟩ := h
  rename_i ds front back
  have hnegation : WritesCore numericConstants (c :: (front ++ ds)) l.negate :=
    .negation hmark' hf hcore hbracketed
  exact Wrapped.mk hnegation .bare forall_isBlank_nil hback

/-- Marks before a literal, with blanks among them, negate it. -/
theorem literal_of_takeNegations {negated odd : Bool} {rest : List Char} {l : WrittenLiteral}
    (htake : takeNegations negated cs = (odd, rest)) (h : WritesLiteral numericConstants rest l) :
    ∃ l', WritesLiteral numericConstants cs l' ∧ l'.atom = l.atom ∧
      (negated != l'.negated) = (odd != l.negated) := by
  fun_induction takeNegations negated cs with
  | case1 =>
    cases htake
    exact ⟨l, h, rfl, rfl⟩
  | case2 negated c cs hmark ih =>
    obtain ⟨l', hl', hatom, hparity⟩ := ih htake
    refine ⟨l'.negate, negation_of_literal hmark hl', hatom, ?_⟩
    rw [← hparity, WrittenLiteral.negated_negate]
    cases negated <;> cases l'.negated <;> rfl
  | case3 negated c cs _ hblank ih =>
    obtain ⟨l', hl', hsame⟩ := ih htake
    exact ⟨l', cons_blank_of_literal hblank hl', hsame⟩
  | case4 =>
    cases htake
    exact ⟨l, h, rfl, rfl⟩

/-- Marks before a literal, all in the pair that is taken off. -/
theorem literal_of_marked {negated odd : Bool} {c : Char} {rest found : List Char}
    {l : WrittenLiteral} (hunwrap : unwrap cs = c :: rest) (hmark : isNegation c = true)
    (htake : takeNegations (!negated) rest = (odd, found))
    (h : WritesLiteral numericConstants found l) :
    ∃ l', WritesLiteral numericConstants cs l' ∧ l'.atom = l.atom ∧
      (negated != l'.negated) = (odd != l.negated) := by
  rw [← takeNegations_of_mark hmark, ← hunwrap] at htake
  obtain ⟨l', hl', hsame⟩ := literal_of_takeNegations htake h
  have hhead : (unwrap cs).head? ≠ some '(' := by
    rw [hunwrap]
    rintro ⟨⟩
    exact absurd hmark (by decide)
  have hcore := hl'.unwrap
  rw [unwrap_unwrap hhead] at hcore
  exact ⟨l', wrapped_of_unwrap hcore, hsame⟩

/-- Where stripping comes to an atom, the text is a literal of that atom. -/
theorem literal_of_stripNegations {negated odd : Bool} {found : List Char} {atom : Atom}
    (hstrip : stripNegations negated cs = (odd, found))
    (hatom : WritesAtom numericConstants found atom) :
    ∃ l, WritesLiteral numericConstants cs l ∧ l.atom = atom ∧ odd = (negated != l.negated) := by
  have hcore : WritesCore numericConstants found ⟨0, atom⟩ := .atom hatom
  have hplain : ∀ odd, (odd != WrittenLiteral.negated ⟨0, atom⟩) = odd := Bool.bne_false
  fun_induction stripNegations negated cs with
  | case1 =>
    cases hstrip
    exact absurd rfl hatom.isAtomText.ne_nil
  | case2 negated cs c rest hunwrap hmark odd' inner htake ih =>
    obtain ⟨l, hl, rfl, rfl⟩ := ih hstrip
    obtain ⟨l', hl', hsame, hparity⟩ := literal_of_marked hunwrap hmark htake hl
    exact ⟨l', hl', hsame, hparity.symm⟩
  | case3 negated cs c rest hunwrap hmark =>
    obtain ⟨l', hl', hsame, hparity⟩ :=
      literal_of_marked hunwrap hmark hstrip (.bare hcore)
    rw [hplain] at hparity
    exact ⟨l', hl', hsame, hparity.symm⟩
  | case4 negated cs c rest hunwrap =>
    cases hstrip
    rw [← hunwrap] at hcore
    exact ⟨_, wrapped_of_unwrap hcore, rfl, (hplain _).symm⟩

/-- What is read as a literal is one. -/
theorem writes_of_readLiteral {r : LiteralReading}
    (h : readLiteral numericConstants source cs = .ok r) :
    ∃ l, WritesLiteral numericConstants cs l ∧ readingOf l = r := by
  unfold readLiteral at h
  cases hstrip : stripNegations false cs with
  | mk negated atom =>
    simp only [hstrip] at h
    split at h
    · cases h
    · split at h
      · rename_i value hconstant
        cases h
        have hmem := mem_constantWords_of_constant? hconstant
        have hatom := WritesAtom.constant hmem
        rw [String.toList_ofList] at hatom
        obtain ⟨l, hl, hsame, hparity⟩ := literal_of_stripNegations hstrip hatom
        refine ⟨l, hl, ?_⟩
        unfold readingOf
        rw [hsame, hparity, Bool.false_bne]
      · rename_i hconstant
        split at h
        · rename_i literal hliteral
          cases h
          obtain ⟨name, hname, hvalid⟩ := Option.bind_eq_some_iff.mp hliteral
          have hfeature := writesFeature_of_atomName? hconstant hname
          have valid := isFeatureName_of_isName hfeature.isName
          obtain ⟨l, hl, hsame, hparity⟩ :=
            literal_of_stripNegations hstrip (.feature valid hfeature)
          rw [Literal.ofName?, dif_pos valid] at hvalid
          cases hvalid
          refine ⟨l, hl, ?_⟩
          unfold readingOf
          rw [hsame, hparity, Bool.false_bne]
        · cases h

theorem exists_readLiteral_iff :
    (∃ r, readLiteral numericConstants source cs = .ok r) ↔
      ∃ l, WritesLiteral numericConstants cs l := by
  constructor
  · rintro ⟨r, hr⟩
    obtain ⟨l, hl, _⟩ := writes_of_readLiteral hr
    exact ⟨l, hl⟩
  · rintro ⟨l, hl⟩
    exact ⟨_, readLiteral_of_writes hl source⟩

end Literals

/-! ## Literals that are looked at -/

/-- The text of a literal that is false whatever is selected. -/
def WritesFalse (numericConstants : Bool) (cs : List Char) : Prop :=
  ∃ l, WritesLiteral numericConstants cs l ∧ l.isFalse = true

/-- The literals of a term that are looked at: those that no false one
precedes. -/
def LookedAt (numericConstants : Bool) (pieces : List (List Char)) (piece : List Char) : Prop :=
  ∃ front back, pieces = front ++ piece :: back ∧
    ∀ before ∈ front, ¬ WritesFalse numericConstants before

/-- What stands where the literals of a text do: between its operators. -/
def literalTexts (cs : List Char) : List (List Char) :=
  (operands '|' (unwrap cs)).flatMap fun term => operands '&' (unwrap term)

/-- The literals of a text that are looked at, in any of its terms. -/
def Inspected (numericConstants : Bool) (cs piece : List Char) : Prop :=
  ∃ term ∈ operands '|' (unwrap cs),
    LookedAt numericConstants (operands '&' (unwrap term)) piece

/-- In some term a false literal stands before what is no literal. -/
def HidesFault (numericConstants : Bool) (cs : List Char) : Prop :=
  ∃ term ∈ operands '|' (unwrap cs), ∃ front piece back,
    operands '&' (unwrap term) = front ++ piece :: back ∧
      (∃ before ∈ front, WritesFalse numericConstants before) ∧
      ∀ l, ¬ WritesLiteral numericConstants piece l

section LookedAt

variable {numericConstants : Bool} {source : String} {cs : List Char}

theorem writesFalse_iff : WritesFalse numericConstants cs ↔
    readLiteral numericConstants source cs = .ok (.constant false) := by
  constructor
  · rintro ⟨l, hl, hfalse⟩
    rw [readLiteral_of_writes hl, isFalse_iff.mp hfalse]
  · intro h
    obtain ⟨l, hl, hfalse⟩ := writes_of_readLiteral h
    exact ⟨l, hl, isFalse_iff.mpr hfalse⟩

theorem lookedAt_cons {first piece : List Char} {pieces : List (List Char)} :
    LookedAt numericConstants (first :: pieces) piece ↔
      piece = first ∨ ¬ WritesFalse numericConstants first ∧
        LookedAt numericConstants pieces piece := by
  constructor
  · rintro ⟨front, back, hsplit, hfront⟩
    cases front with
    | nil =>
      cases hsplit
      exact Or.inl rfl
    | cons b front =>
      cases hsplit
      obtain ⟨hfirst, hfront⟩ := List.forall_mem_cons.mp hfront
      exact Or.inr ⟨hfirst, front, back, rfl, hfront⟩
  · rintro (rfl | ⟨hfirst, front, back, rfl, hfront⟩)
    · exact ⟨[], pieces, rfl, by simp⟩
    · exact ⟨first :: front, back, rfl, List.forall_mem_cons.mpr ⟨hfirst, hfront⟩⟩

theorem forall_lookedAt_cons {first : List Char} {pieces : List (List Char)}
    {P : List Char → Prop} :
    (∀ piece, LookedAt numericConstants (first :: pieces) piece → P piece) ↔
      P first ∧ (¬ WritesFalse numericConstants first →
        ∀ piece, LookedAt numericConstants pieces piece → P piece) := by
  simp only [lookedAt_cons, forall_eq_or_imp, and_imp]
  constructor
  · rintro ⟨hfirst, hrest⟩
    exact ⟨hfirst, fun hnot piece => hrest piece hnot⟩
  · rintro ⟨hfirst, hrest⟩
    exact ⟨hfirst, fun piece hnot => hrest hnot piece⟩

/-- The literals of a term are read if those that are looked at are literals. -/
theorem exists_readLiterals_iff {pieces : List (List Char)} :
    (∃ r, readLiterals numericConstants source pieces = .ok r) ↔
      ∀ piece, LookedAt numericConstants pieces piece →
        ∃ l, WritesLiteral numericConstants piece l := by
  induction pieces with
  | nil =>
    refine ⟨fun _ => ?_, fun _ => ⟨_, rfl⟩⟩
    rintro piece ⟨front, back, hsplit, _⟩
    simp at hsplit
  | cons first pieces ih =>
    rw [forall_lookedAt_cons, ← ih, ← @exists_readLiteral_iff _ source,
      @writesFalse_iff _ source, readLiterals]
    cases readLiteral numericConstants source first with
    | error e => simp
    | ok r =>
      cases r with
      | constant value => cases value <;> simp
      | literal l =>
        cases readLiterals numericConstants source pieces with
        | error e => simp [Except.map]
        | ok others => simp [Except.map]

theorem exists_readTerm_iff :
    (∃ r, readTerm numericConstants source cs = .ok r) ↔
      ∀ piece, LookedAt numericConstants (operands '&' (unwrap cs)) piece →
        ∃ l, WritesLiteral numericConstants piece l := by
  unfold readTerm
  by_cases hnil : unwrap cs = []
  · rw [if_pos hnil, hnil, operands_of_not_mem List.not_mem_nil]
    constructor
    · rintro ⟨r, hr⟩
      cases hr
    · intro h
      obtain ⟨l, hl⟩ := h [] ⟨[], [], rfl, by simp⟩
      exact absurd rfl ((ignoresBlanks_literal numericConstants).ne_nil hl)
  · rw [if_neg hnil]
    exact exists_readLiterals_iff

theorem exists_readTerms_iff {pieces : List (List Char)} :
    (∃ ts, readTerms numericConstants source pieces = .ok ts) ↔
      ∀ piece ∈ pieces, ∃ r, readTerm numericConstants source piece = .ok r := by
  induction pieces with
  | nil => exact ⟨fun _ => by simp, fun _ => ⟨_, rfl⟩⟩
  | cons first pieces ih =>
    rw [List.forall_mem_cons, ← ih, readTerms]
    cases readTerm numericConstants source first with
    | error e => simp
    | ok r =>
      cases r with
      | none => simp
      | some ls =>
        cases readTerms numericConstants source pieces with
        | error e => simp [Except.map]
        | ok others => simp [Except.map]

end LookedAt

/-! ## Texts that are parsed -/

section Parsing

variable {numericConstants : Bool} {text : String} {d : Dialect}

/-- A text is parsed exactly if every literal that is looked at is one. -/
theorem exists_parse_iff (h : trim text.toList ≠ []) :
    (∃ c, parse d numericConstants text = .ok c) ↔
      ∀ piece, Inspected numericConstants text.toList piece →
        ∃ l, WritesLiteral numericConstants piece l := by
  have hsame : unwrap (trim text.toList) = unwrap text.toList :=
    unwrap_congr (trimmed_trim _).trim_eq
  have hterms : (∃ c, parse d numericConstants text = .ok c) ↔
      ∃ ts, readTerms numericConstants (String.ofList (trim text.toList))
        (operands '|' (unwrap text.toList)) = .ok ts := by
    unfold parse parseTerms
    simp only [if_neg h, hsame]
    cases readTerms numericConstants (String.ofList (trim text.toList))
        (operands '|' (unwrap text.toList)) with
    | error e => simp [Except.map]
    | ok ts => simp [Except.map]
  rw [hterms, exists_readTerms_iff]
  simp only [exists_readTerm_iff]
  constructor
  · rintro hall piece ⟨term, hterm, hlooked⟩
    exact hall term hterm piece hlooked
  · intro hall term hterm piece hlooked
    exact hall piece ⟨term, hterm, hlooked⟩

/-- A text is rejected exactly if a literal that is looked at is none. -/
theorem exists_error_iff (h : trim text.toList ≠ []) :
    (∃ e, parse d numericConstants text = .error e) ↔
      ∃ piece, Inspected numericConstants text.toList piece ∧
        ∀ l, ¬ WritesLiteral numericConstants piece l := by
  have hparsed := @exists_parse_iff numericConstants text d h
  cases hparse : parse d numericConstants text with
  | error e =>
    rw [hparse] at hparsed
    refine ⟨fun _ => ?_, fun _ => ⟨e, rfl⟩⟩
    simpa using hparsed
  | ok c =>
    rw [hparse] at hparsed
    have hall := hparsed.mp ⟨c, rfl⟩
    constructor
    · rintro ⟨e, he⟩
      cases he
    · rintro ⟨piece, hpiece, hnone⟩
      obtain ⟨l, hl⟩ := hall piece hpiece
      exact absurd hl (hnone l)

theorem exists_forall₂ {α : Type} {writes : List Char → α → Prop} {pieces : List (List Char)}
    (h : ∀ piece ∈ pieces, ∃ x, writes piece x) : ∃ xs, List.Forall₂ writes pieces xs := by
  induction pieces with
  | nil => exact ⟨[], .nil⟩
  | cons piece pieces ih =>
    obtain ⟨⟨x, hx⟩, hrest⟩ := List.forall_mem_cons.mp h
    obtain ⟨xs, hxs⟩ := ih hrest
    exact ⟨x :: xs, .cons hx hxs⟩

/-- A text whose literals are all written is in disjunctive form. -/
theorem exists_writesTerms {cs : List Char}
    (h : ∀ piece ∈ literalTexts cs, ∃ l, WritesLiteral numericConstants piece l) :
    ∃ ts, WritesTerms numericConstants cs ts := by
  have hterm : ∀ term ∈ operands '|' (unwrap cs), ∃ ls, WritesTerm numericConstants term ls := by
    intro term hterm
    have hpieces : ∀ piece ∈ operands '&' (unwrap term),
        ∃ l, WritesLiteral numericConstants piece l :=
      fun piece hpiece => h piece (List.mem_flatMap.mpr ⟨term, hterm, hpiece⟩)
    obtain ⟨ls, hls⟩ := exists_forall₂ hpieces
    exact ⟨ls, wrapped_of_unwrap (joined_of_operands hls)⟩
  obtain ⟨ts, hts⟩ := exists_forall₂ hterm
  exact ⟨ts, wrapped_of_unwrap (joined_of_operands hts)⟩

/-- What is no formula has a literal that is none, wherever the fault is. -/
theorem exists_literalText_of_malformed {cs : List Char}
    (h : ∀ f, ¬ Writes numericConstants .disjunction cs f) :
    ∃ piece ∈ literalTexts cs, ∀ l, ¬ WritesLiteral numericConstants piece l := by
  by_contra hnone
  have hwritten : ∀ piece ∈ literalTexts cs, ∃ l, WritesLiteral numericConstants piece l := by
    intro piece hpiece
    by_contra hl
    exact hnone ⟨piece, hpiece, not_exists.mp hl⟩
  obtain ⟨ts, hts⟩ := exists_writesTerms hwritten
  obtain ⟨f, hf, _⟩ := means_terms numericConstants _ _ hts
  exact h f hf

/-- A text that is not a formula is rejected exactly if a literal that is looked
at is none; so it is unless a false literal hides the fault, which stands behind
it in one term. -/
theorem a_malformed_text_is_rejected_unless_a_false_literal_hides_the_fault
    (h : trim text.toList ≠ [])
    (hmalformed : ∀ f, ¬ Writes numericConstants .disjunction text.toList f) (d : Dialect) :
    ((∃ e, parse d numericConstants text = .error e) ↔
        ∃ piece, Inspected numericConstants text.toList piece ∧
          ∀ l, ¬ WritesLiteral numericConstants piece l) ∧
      (¬ HidesFault numericConstants text.toList →
        ∃ e, parse d numericConstants text = .error e) := by
  refine ⟨exists_error_iff h, ?_⟩
  intro hvisible
  obtain ⟨piece, hpiece, hnone⟩ := exists_literalText_of_malformed hmalformed
  obtain ⟨term, hterm, hmem⟩ := List.mem_flatMap.mp hpiece
  obtain ⟨front, back, hsplit⟩ := List.append_of_mem hmem
  refine (exists_error_iff h).mpr ⟨piece, ⟨term, hterm, front, back, hsplit, ?_⟩, hnone⟩
  intro before hbefore hfalse
  exact hvisible ⟨term, hterm, front, piece, back, hsplit, ⟨before, hbefore, hfalse⟩, hnone⟩

end Parsing

/-- A text with a parenthesis that is not open, behind a false literal. -/
def hiddenFault : String := "0 & )"

theorem malformed_hiddenFault (f : Formula) : ¬ Writes true .disjunction hiddenFault.toList f := by
  intro h
  have hbalanced := h.balanced
  unfold Balanced at hbalanced
  revert hbalanced
  decide

theorem parse_hiddenFault :
    (parse .plain true hiddenFault).toOption = some (never .plain) := by
  decide +kernel

/-- A fault behind a false literal goes unnoticed: the term is false, and the
rest of it is not looked at. -/
theorem a_hidden_fault_is_not_rejected :
    ¬ ∀ (numericConstants : Bool) (text : String) (d : Dialect), trim text.toList ≠ [] →
      (∀ f, ¬ Writes numericConstants .disjunction text.toList f) →
      ∃ e, parse d numericConstants text = .error e := by
  intro hall
  obtain ⟨e, he⟩ := hall true hiddenFault .plain (by decide) malformed_hiddenFault
  have hparsed := parse_hiddenFault
  rw [he] at hparsed
  cases hparsed

/-- What becomes of a text with a hidden fault. -/
theorem a_hidden_fault_is_rejected_only_if_looked_at :
    trim hiddenFault.toList ≠ [] ∧ (∀ f, ¬ Writes true .disjunction hiddenFault.toList f) ∧
      ((∃ e, parse .plain true hiddenFault = .error e) ↔
        ∃ piece, Inspected true hiddenFault.toList piece ∧ ∀ l, ¬ WritesLiteral true piece l) ∧
      (¬ HidesFault true hiddenFault.toList → ∃ e, parse .plain true hiddenFault = .error e) :=
  ⟨by decide, malformed_hiddenFault,
    a_malformed_text_is_rejected_unless_a_false_literal_hides_the_fault (by decide)
      malformed_hiddenFault .plain⟩

end Variability.Condition
