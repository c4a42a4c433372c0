-- Conditions written out and read again: the reader gives a condition back
-- exactly if each of its names is read as that name.
import Mathlib.Data.List.Forall2
import Variability.Proofs.Rejection

namespace Variability.Condition

open Text

/-! ## Where literals are read -/

section Names

variable {numericConstants : Bool} {source : String}

theorem readLiteral_of_mem {pieces : List (List Char)} {ls : List Literal} {l : Literal}
    (h : readLiterals numericConstants source pieces = .ok (some ls)) (hl : l ∈ ls) :
    ∃ piece ∈ pieces, readLiteral numericConstants source piece = .ok (.literal l) := by
  induction pieces generalizing ls with
  | nil =>
    cases h
    cases hl
  | cons first pieces ih =>
    unfold readLiterals at h
    split at h
    · cases h
    · cases h
    · obtain ⟨piece, hpiece, hread⟩ := ih h hl
      exact ⟨piece, List.mem_cons_of_mem _ hpiece, hread⟩
    · rename_i m hfirst
      cases hrest : readLiterals numericConstants source pieces with
      | error e =>
        rw [hrest] at h
        cases h
      | ok others =>
        rw [hrest] at h
        cases others with
        | none => cases h
        | some others =>
          cases h
          rcases List.mem_cons.mp hl with rfl | hl
          · exact ⟨first, List.mem_cons_self, hfirst⟩
          · obtain ⟨piece, hpiece, hread⟩ := ih hrest hl
            exact ⟨piece, List.mem_cons_of_mem _ hpiece, hread⟩

theorem readTerm_of_mem {pieces : List (List Char)} {ts : List Term} {t : Term}
    (h : readTerms numericConstants source pieces = .ok ts) (ht : t ∈ ts) :
    ∃ piece ∈ pieces, ∃ ls, readTerm numericConstants source piece = .ok (some ls) ∧
      t = Term.ofList ls := by
  induction pieces generalizing ts with
  | nil =>
    cases h
    cases ht
  | cons first pieces ih =>
    unfold readTerms at h
    split at h
    · cases h
    · obtain ⟨piece, hpiece, hread⟩ := ih h ht
      exact ⟨piece, List.mem_cons_of_mem _ hpiece, hread⟩
    · rename_i ls hfirst
      cases hrest : readTerms numericConstants source pieces with
      | error e =>
        rw [hrest] at h
        cases h
      | ok others =>
        rw [hrest] at h
        cases h
        rcases List.mem_cons.mp ht with rfl | ht
        · exact ⟨first, List.mem_cons_self, ls, hfirst, rfl⟩
        · obtain ⟨piece, hpiece, hread⟩ := ih hrest ht
          exact ⟨piece, List.mem_cons_of_mem _ hpiece, hread⟩

/-- A literal of a condition is read from a piece of its text. -/
theorem readLiteral_of_parse {d : Dialect} {text : String} {c : Condition}
    (h : parse d numericConstants text = .ok c) {t : Term} (ht : t ∈ c.terms) {l : Literal}
    (hl : l ∈ t.literals) :
    ∃ source piece, readLiteral numericConstants source piece = .ok (.literal l) := by
  unfold parse at h
  cases hterms : parseTerms numericConstants text with
  | error e =>
    rw [hterms] at h
    cases h
  | ok ts =>
    rw [hterms] at h
    cases h
    have ht' := mem_of_mem_ofTerms ht
    unfold parseTerms at hterms
    simp only at hterms
    split at hterms
    · cases hterms
      obtain rfl := List.mem_singleton.mp ht'
      cases hl
    · obtain ⟨term, _, ls, hread, rfl⟩ := readTerm_of_mem hterms ht'
      unfold readTerm at hread
      split at hread
      · cases hread
      · obtain ⟨piece, _, hpiece⟩ := readLiteral_of_mem hread (mem_distinct.mp hl)
        exact ⟨_, piece, hpiece⟩

theorem isName_of_readLiteral {cs : List Char} {l : Literal}
    (h : readLiteral numericConstants source cs = .ok (.literal l)) : IsName l.name.toList := by
  obtain ⟨⟨marks, atom⟩, hwrites, hreading⟩ := writes_of_readLiteral h
  obtain ⟨found, hatom, _⟩ := WritesCore.behindMarks hwrites.unwrap false
  cases hatom with
  | constant => cases hreading
  | feature _ hfeature =>
    cases hreading
    rw [String.toList_ofList]
    exact hfeature.isName

/-- No name that is read ends in a line feed. -/
theorem isName_of_parse {d : Dialect} {text : String} {c : Condition}
    (h : parse d numericConstants text = .ok c) :
    ∀ t ∈ c.terms, ∀ l ∈ t.literals, IsName l.name.toList := by
  intro t ht l hl
  obtain ⟨source, piece, hread⟩ := readLiteral_of_parse h ht hl
  exact isName_of_readLiteral hread

end Names

/-! ## Literals as they are written -/

/-- What a literal is written as: a constant if it is named like one and its
dialect puts nothing around the name. -/
def writtenAs (d : Dialect) (numericConstants : Bool) (l : Literal) : WrittenLiteral where
  marks := if l.negated then 1 else 0
  atom :=
    match d, constant? numericConstants l.name.toList with
    | .plain, some value => .constant value
    | _, _ => .feature l.name l.valid

/-- Whether a name that is written out is read as that name: where nothing
stands around it, it must not be a constant. -/
def Readable (d : Dialect) (numericConstants : Bool) (name : String) : Prop :=
  d = .plain → ∀ value, (name, value) ∉ constantWords numericConstants

section Literals

variable {d : Dialect} {numericConstants : Bool} {l : Literal}

theorem literal?_writtenAs (h : Readable d numericConstants l.name) :
    (writtenAs d numericConstants l).literal? = some l ∧
      (writtenAs d numericConstants l).isFalse = false := by
  obtain ⟨name, negated, valid⟩ := l
  have hatom : (writtenAs d numericConstants ⟨name, negated, valid⟩).atom =
      .feature name valid := by
    unfold writtenAs
    cases d with
    | plain => simp only [constant?_eq_none_iff.mpr (h rfl)]
    | defined => rfl
  unfold WrittenLiteral.literal? WrittenLiteral.isFalse
  rw [hatom]
  refine ⟨?_, rfl⟩
  unfold WrittenLiteral.negated writtenAs
  cases negated <;> rfl

/-- A literal that is found again is one whose name can be read. -/
theorem readable_of_literal?_writtenAs {m : Literal}
    (h : (writtenAs d numericConstants l).literal? = some m) :
    Readable d numericConstants m.name := by
  rintro rfl
  unfold WrittenLiteral.literal? writtenAs at h
  cases hconstant : constant? numericConstants l.name.toList with
  | some value =>
    simp only [hconstant] at h
    cases h
  | none =>
    simp only [hconstant] at h
    cases h
    exact constant?_eq_none_iff.mp hconstant

/-- The text of a feature is the atom it is written as. -/
theorem writesAtom_renderFeature (h : IsName l.name.toList) :
    WritesAtom numericConstants (d.renderFeature l.name).toList
      (writtenAs d numericConstants l).atom := by
  obtain ⟨name, negated, valid⟩ := l
  obtain ⟨cs, rfl⟩ : ∃ cs, name = String.ofList cs := ⟨name.toList, String.ofList_toList.symm⟩
  rw [String.toList_ofList] at h
  unfold writtenAs
  cases d with
  | plain =>
    unfold Dialect.renderFeature
    simp only [String.toList_ofList]
    cases hconstant : constant? numericConstants cs with
    | some value =>
      have hatom := WritesAtom.constant (mem_constantWords_of_constant? hconstant)
      rwa [String.toList_ofList] at hatom
    | none =>
      rw [← String.toList_ofList (l := cs), constant?_eq_none_iff] at hconstant
      exact .feature valid (.bare h hconstant)
  | defined =>
    have hfeature : WritesFeature numericConstants
        ("defined".toList ++ ([] ++ '(' :: ([] ++ cs ++ [] ++ [')']))) cs :=
      .enclosed h (Or.inl rfl) (by simp) (by simp) (by simp)
    have htext : (Dialect.defined.renderFeature (String.ofList cs)).toList =
        "defined".toList ++ ([] ++ '(' :: ([] ++ cs ++ [] ++ [')'])) := by
      unfold Dialect.renderFeature
      simp
    rw [htext]
    exact .feature valid hfeature

theorem writesCore_render (h : IsName l.name.toList) :
    WritesCore numericConstants (l.render d).toList (writtenAs d numericConstants l) := by
  have hatom : WritesCore numericConstants (d.renderFeature l.name).toList
      ⟨0, (writtenAs d numericConstants l).atom⟩ := .atom (writesAtom_renderFeature h)
  unfold Literal.render Dialect.renderLiteral
  obtain ⟨name, negated, valid⟩ := l
  rw [String.toList_append]
  cases negated with
  | false => exact hatom
  | true =>
    have hnegation := WritesCore.negation (Or.inl rfl) forall_isBlank_nil hatom .bare
    rw [if_pos rfl, show "!".toList = ['!'] by decide]
    exact hnegation

end Literals

/-! ## Terms and conditions as they are written -/

/-- Texts with an operator and blanks between them, behind some more blanks. -/
theorem joined_intercalate {α : Type} {writes : List Char → α → Prop} {op : Char}
    {pieces : List (List Char)} {xs : List α} (h : List.Forall₂ (Wrapped writes) pieces xs)
    (hne : xs ≠ []) {front : List Char} (hfront : ∀ c ∈ front, isBlank c = true) :
    Joined op (Wrapped writes) (front ++ [' ', op, op, ' '].intercalate pieces) xs := by
  induction h generalizing front with
  | nil => exact absurd rfl hne
  | cons hpiece hrest ih =>
    cases hrest with
    | nil =>
      have hpadded := hpiece.padded hfront forall_isBlank_nil
      rw [List.append_nil] at hpadded
      rw [List.intercalate_singleton]
      exact .one hpadded
    | cons =>
      have hfirst := hpiece.padded hfront forall_isBlank_space
      have hmore := ih (List.cons_ne_nil _ _) forall_isBlank_space
      have hjoined := Joined.cons hfirst (Or.inr rfl : IsSign op [op, op]) hmore
      rw [List.intercalate_cons_cons]
      simpa using hjoined

/-- What the terms of a condition are written as. -/
def writtenTerms (d : Dialect) (numericConstants : Bool) (ts : List Term) :
    List (List WrittenLiteral) :=
  ts.map fun t => t.literals.map (writtenAs d numericConstants)

section Terms

variable {d : Dialect} {numericConstants : Bool} {t : Term} {ts : List Term}

theorem joined_render (hnames : ∀ l ∈ t.literals, IsName l.name.toList) (hne : t.literals ≠ []) :
    Joined '&' (WritesLiteral numericConstants) (t.render d).toList
      (t.literals.map (writtenAs d numericConstants)) := by
  have hpieces : List.Forall₂ (WritesLiteral numericConstants)
      ((t.literals.map (·.render d)).map String.toList)
      (t.literals.map (writtenAs d numericConstants)) := by
    rw [List.map_map, List.forall₂_map_left_iff, List.forall₂_map_right_iff, List.forall₂_same]
    intro l hl
    exact .bare (writesCore_render (hnames l hl))
  unfold Term.render
  rw [String.toList_intercalate]
  apply joined_intercalate hpieces _ forall_isBlank_nil
  simpa using hne

theorem writesTerm_renderOperand (hnames : ∀ l ∈ t.literals, IsName l.name.toList)
    (hne : t.literals ≠ []) :
    WritesTerm numericConstants (renderOperand d t).toList
      (t.literals.map (writtenAs d numericConstants)) := by
  have hterm : Joined '&' (WritesLiteral numericConstants) (t.render d).toList _ :=
    joined_render hnames hne
  unfold renderOperand
  split
  · have hparens : WritesTerm numericConstants _ _ := Wrapped.parens hterm
    simpa using hparens
  · exact .bare hterm

/-- Terms of names that can be read are found again as they are. -/
theorem filterMap_writtenTerms
    (h : ∀ t ∈ ts, ∀ l ∈ t.literals, Readable d numericConstants l.name) :
    (writtenTerms d numericConstants ts).filterMap writtenTerm? = ts := by
  have hterm : ∀ t ∈ ts, writtenTerm? (t.literals.map (writtenAs d numericConstants)) = some t := by
    intro t ht
    have hfalse : (t.literals.map (writtenAs d numericConstants)).any WrittenLiteral.isFalse =
        false := by
      rw [List.any_map, List.any_eq_false]
      intro l hl
      simp [(literal?_writtenAs (h t ht l hl)).2]
    have hsame : (t.literals.map (writtenAs d numericConstants)).filterMap
        WrittenLiteral.literal? = t.literals := by
      rw [List.filterMap_map]
      apply (List.filterMap_congr fun l hl => (literal?_writtenAs (h t ht l hl)).1).trans
      exact List.filterMap_some
    rw [writtenTerm?_of_not_isFalse hfalse, hsame, Term.ofList_literals]
  unfold writtenTerms
  rw [List.filterMap_map]
  exact (List.filterMap_congr hterm).trans List.filterMap_some

/-- What is found again of written terms has names that can be read. -/
theorem readable_of_mem_filterMap
    (ht : t ∈ (writtenTerms d numericConstants ts).filterMap writtenTerm?) :
    ∀ l ∈ t.literals, Readable d numericConstants l.name := by
  intro l hl
  obtain ⟨ls, hls, hterm⟩ := List.mem_filterMap.mp ht
  obtain ⟨s, _, rfl⟩ := List.mem_map.mp hls
  unfold writtenTerm? at hterm
  split at hterm
  · cases hterm
  · cases hterm
    obtain ⟨m, hm, hliteral⟩ := List.mem_filterMap.mp (mem_distinct.mp hl)
    obtain ⟨k, _, rfl⟩ := List.mem_map.mp hm
    exact readable_of_literal?_writtenAs hliteral

end Terms

section Conditions

variable {numericConstants : Bool} {c : Condition}

theorem literals_ne_nil_of_not_isTrue (h : c.isTrue = false) : ∀ t ∈ c.terms, t.literals ≠ [] := by
  intro t ht hnil
  have hempty : t = Term.empty := Term.ext hnil
  subst hempty
  unfold isTrue at h
  exact of_decide_eq_false h (c.normal.empty_alone ht)

/-- A condition that is neither true nor false is written term by term. -/
theorem joined_renderTerms (hnames : ∀ t ∈ c.terms, ∀ l ∈ t.literals, IsName l.name.toList)
    (htrue : c.isTrue = false) (hfalse : c.terms ≠ []) :
    Joined '|' (WritesTerm numericConstants) c.render.toList
      (writtenTerms c.dialect numericConstants c.terms) := by
  have hne := literals_ne_nil_of_not_isTrue htrue
  unfold render
  rw [htrue, if_neg Bool.false_ne_true]
  obtain ⟨d, ts, normal⟩ := c
  match ts with
  | [] => exact absurd rfl hfalse
  | [t] =>
    have hterm : Joined '&' (WritesLiteral numericConstants) (t.render d).toList _ :=
      joined_render (hnames t List.mem_cons_self) (hne t List.mem_cons_self)
    exact .one (.bare hterm)
  | s :: t :: ts =>
    have hpieces : List.Forall₂ (WritesTerm numericConstants)
        (((s :: t :: ts).map (renderOperand d)).map String.toList)
        (writtenTerms d numericConstants (s :: t :: ts)) := by
      unfold writtenTerms
      rw [List.map_map, List.forall₂_map_left_iff, List.forall₂_map_right_iff, List.forall₂_same]
      intro u hu
      exact writesTerm_renderOperand (hnames u hu) (hne u hu)
    have hjoined : Joined '|' (WritesTerm numericConstants) _ _ :=
      joined_intercalate hpieces (List.cons_ne_nil _ _) forall_isBlank_nil
    simp only [String.toList_intercalate]
    exact hjoined

theorem writesTerms_render (hnames : ∀ t ∈ c.terms, ∀ l ∈ t.literals, IsName l.name.toList)
    (htrue : c.isTrue = false) (hfalse : c.terms ≠ []) :
    WritesTerms numericConstants c.render.toList
      (writtenTerms c.dialect numericConstants c.terms) :=
  .bare (joined_renderTerms hnames htrue hfalse)

theorem parse_of_writesTerms {d : Dialect} {text : String} {ts : List (List WrittenLiteral)}
    (h : WritesTerms numericConstants text.toList ts) :
    parse d numericConstants text = .ok (ofTerms d (ts.filterMap writtenTerm?)) := by
  unfold parse
  rw [parseTerms_of_writes h]
  rfl

theorem writesTerms_constant {word : String} {value : Bool}
    (h : (word, value) ∈ constantWords numericConstants) :
    WritesTerms numericConstants word.toList [[⟨0, .constant value⟩]] :=
  .bare (.one (.bare (.one (.bare (.atom (.constant h))))))

/-- What is read of a condition that is written out. -/
theorem parse_render (hnames : ∀ t ∈ c.terms, ∀ l ∈ t.literals, IsName l.name.toList) :
    parse c.dialect numericConstants c.render = .ok (ofTerms c.dialect
      ((writtenTerms c.dialect numericConstants c.terms).filterMap writtenTerm?)) := by
  cases htrue : c.isTrue with
  | true =>
    have hterms : c.terms = [Term.empty] := of_decide_eq_true htrue
    have hword : ("True", true) ∈ constantWords numericConstants := by simp [constantWords]
    unfold render
    rw [htrue, if_pos rfl, hterms, parse_of_writesTerms (writesTerms_constant hword)]
    rfl
  | false =>
    by_cases hfalse : c.terms = []
    · have hword : ("False", false) ∈ constantWords numericConstants := by simp [constantWords]
      unfold render
      rw [htrue, if_neg Bool.false_ne_true, hfalse,
        parse_of_writesTerms (writesTerms_constant hword)]
      rfl
    · exact parse_of_writesTerms (writesTerms_render hnames htrue hfalse)

/-- A condition that is written out is read as the same condition, term for term
and literal for literal, exactly if no name ends in a line feed and, where
features are written bare, none is a constant. -/
theorem a_rendered_condition_is_parsed_back_exactly_if_its_names_are_read
    (c : Condition) (numericConstants : Bool) :
    parse c.dialect numericConstants c.render = .ok c ↔
      ∀ t ∈ c.terms, ∀ l ∈ t.literals, l.name.toList.getLast? ≠ some '\n' ∧
        (c.dialect = .plain → ∀ value, (l.name, value) ∉ constantWords numericConstants) := by
  constructor
  · intro h t ht l hl
    have hnames := isName_of_parse h
    refine ⟨(hnames t ht l hl).getLast?_ne, ?_⟩
    rw [parse_render hnames] at h
    have hsame := Except.ok.inj h
    have hmem : t ∈ (ofTerms c.dialect
        ((writtenTerms c.dialect numericConstants c.terms).filterMap writtenTerm?)).terms := by
      rw [hsame]
      exact ht
    exact readable_of_mem_filterMap (mem_of_mem_ofTerms hmem) l hl
  · intro h
    have hnames : ∀ t ∈ c.terms, ∀ l ∈ t.literals, IsName l.name.toList :=
      fun t ht l hl => isName_iff.mpr ⟨l.valid, (h t ht l hl).1⟩
    rw [parse_render hnames, filterMap_writtenTerms fun t ht l hl => (h t ht l hl).2,
      ofTerms_terms]

end Conditions

end Variability.Condition
