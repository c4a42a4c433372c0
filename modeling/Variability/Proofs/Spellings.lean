-- Literals that are spelled out, and the text that joins them. The marks before
-- a spelled name negate it once, however many there are; in a text every mark
-- negates. So the two are read alike unless an even number of marks stands
-- before a name.
import Variability.Proofs.Construction
import Variability.Proofs.RoundTrip

namespace Variability

open Text

/-! ## Marks before a name -/

/-- The name behind the marks of a spelling. -/
def spelledName (s : String) : String := String.ofList (s.toList.dropWhile (· = '!'))

def markCount (s : String) : Nat := (s.toList.takeWhile (· = '!')).length

/-- The literal that is spelled, where `negates` says which numbers of marks
negate it. -/
def spelledLiteral? (negates : Nat → Bool) (s : String) : Option Literal :=
  Literal.ofName? (spelledName s) (negates (markCount s))

/-- All marks together negate. -/
def negatesOnce (marks : Nat) : Bool := marks ≠ 0

/-- Every mark negates, so that an odd number of them does. -/
def negatesEach (marks : Nat) : Bool := marks % 2 = 1

/-- There is an even number of marks, but not none. -/
def MarksCancel (s : String) : Prop :=
  negatesOnce (markCount s) = true ∧ negatesEach (markCount s) = false

instance (s : String) : Decidable (MarksCancel s) := inferInstanceAs (Decidable (_ ∧ _))

theorem toList_eq_marks_append (s : String) :
    s.toList = List.replicate (markCount s) '!' ++ (spelledName s).toList := by
  have hmarks : s.toList.takeWhile (· = '!') = List.replicate (markCount s) '!' := by
    refine List.eq_replicate_of_mem fun c hc => ?_
    simpa using List.mem_takeWhile_imp hc
  rw [spelledName, String.toList_ofList, ← hmarks, List.takeWhile_append_dropWhile]

theorem negatesOnce_markCount (s : String) :
    negatesOnce (markCount s) = decide (s.toList.head? = some '!') := by
  unfold negatesOnce markCount
  cases s.toList with
  | nil => rfl
  | cons c cs => by_cases hc : c = '!' <;> simp [hc]

/-- The two ways to count differ only where marks cancel each other. -/
theorem negatesEach_eq {s : String} (h : ¬ MarksCancel s) :
    negatesEach (markCount s) = negatesOnce (markCount s) := by
  unfold MarksCancel at h
  cases honce : negatesOnce (markCount s) with
  | true =>
    simpa [honce] using h
  | false =>
    have hzero : markCount s = 0 := by simpa [negatesOnce] using honce
    rw [hzero]
    rfl

theorem toOption_ofValues (name : String) (negated : Bool) :
    (Literal.ofValues (.string name) (.bool negated)).toOption = Literal.ofName? name negated := by
  unfold Literal.ofValues Literal.ofName? Value.readString Value.readBool
  by_cases hname : isFeatureName name = true
  · simp only [dif_pos hname]
    rfl
  · simp only [dif_neg hname]
    rfl

/-- A spelling is read as the literal of its name, negated if there is a
mark. -/
theorem toOption_read_marked (s : String) :
    (LiteralSpelling.marked s).read.toOption = spelledLiteral? negatesOnce s := by
  unfold spelledLiteral?
  rw [negatesOnce_markCount]
  exact toOption_ofValues _ _

/-! ## Lists of spellings -/

def marked (terms : List (List String)) : List (List LiteralSpelling) :=
  terms.map fun spellings => spellings.map .marked

/-- The terms that are spelled, where `negates` says which numbers of marks
negate. -/
def markedTerms (negates : Nat → Bool) (terms : List (List String)) : List Term :=
  terms.map fun spellings => Term.ofList (spellings.filterMap (spelledLiteral? negates))

theorem spelledTerms_marked (terms : List (List String)) :
    (spelledTerms (marked terms)).map Term.ofList = markedTerms negatesOnce terms := by
  unfold spelledTerms marked markedTerms
  simp only [List.map_map, Function.comp_def, List.filterMap_map, toOption_read_marked]

/-- The two ways to count marks read terms alike whose marks do not cancel. -/
theorem markedTerms_negatesEach {terms : List (List String)}
    (h : ∀ spellings ∈ terms, ∀ s ∈ spellings, ¬ MarksCancel s) :
    markedTerms negatesEach terms = markedTerms negatesOnce terms := by
  unfold markedTerms
  refine List.map_congr_left fun spellings hspellings => congrArg _ ?_
  refine List.filterMap_congr fun s hs => ?_
  unfold spelledLiteral?
  rw [negatesEach_eq (h spellings hspellings s hs)]

theorem isFeatureName_of_readSpellings {spellings : List String} {ls : List Literal}
    (h : readSpellings (spellings.map .marked) = .ok ls) :
    ∀ s ∈ spellings, isFeatureName (spelledName s) = true := by
  induction spellings generalizing ls with
  | nil => nofun
  | cons s rest ih =>
    rw [List.map_cons, readSpellings] at h
    split at h
    · cases h
    · rename_i l hl
      have hread := toOption_read_marked s
      rw [hl] at hread
      cases hrest : readSpellings (rest.map .marked) with
      | error ds =>
        rw [hrest] at h
        cases h
      | ok others =>
        refine List.forall_mem_cons.mpr ⟨?_, ih hrest⟩
        by_contra hname
        rw [spelledLiteral?, Literal.ofName?, dif_neg hname] at hread
        cases hread

theorem isFeatureName_of_readTermSpellings {terms : List (List String)} {ts : List Term}
    (h : readTermSpellings (marked terms) = .ok ts) :
    ∀ spellings ∈ terms, ∀ s ∈ spellings, isFeatureName (spelledName s) = true := by
  induction terms generalizing ts with
  | nil => nofun
  | cons spellings rest ih =>
    rw [marked, List.map_cons, readTermSpellings] at h
    split at h
    · cases h
    · rename_i ls hls
      cases hrest : readTermSpellings (marked rest) with
      | error ds =>
        rw [marked] at hrest
        rw [hrest] at h
        cases h
      | ok others =>
        exact List.forall_mem_cons.mpr ⟨isFeatureName_of_readSpellings hls, ih hrest⟩

namespace Condition

section Spelled

variable {d : Dialect} {terms : List (List String)} {c : Condition}

/-- Terms that are accepted spell names, and each literal is negated if it has a
mark. -/
theorem of_ofSpellings_marked (h : ofSpellings d (marked terms) = .ok c) :
    c = ofTerms d (markedTerms negatesOnce terms) ∧
      ∀ spellings ∈ terms, ∀ s ∈ spellings, isFeatureName (spelledName s) = true := by
  unfold ofSpellings at h
  cases hread : readTermSpellings (marked terms) with
  | error ds =>
    rw [hread] at h
    cases h
  | ok ts =>
    rw [hread] at h
    cases h
    rw [readTermSpellings_eq hread, spelledTerms_marked]
    exact ⟨rfl, isFeatureName_of_readTermSpellings hread⟩

end Spelled

/-! ## Spellings in a text -/

/-- The text that joins spelled terms. -/
def spelledText (terms : List (List String)) : String :=
  " || ".intercalate (terms.map fun spellings => " && ".intercalate spellings)

/-- The name of a spelling is read in a text: it is one, ends in no line feed,
and is no constant. -/
structure IsReadable (numericConstants : Bool) (s : String) : Prop where
  valid : isFeatureName (spelledName s) = true
  last : (spelledName s).toList.getLast? ≠ some '\n'
  notConstant : ∀ value, (spelledName s, value) ∉ constantWords numericConstants

section Written

variable {numericConstants : Bool}

theorem WritesCore.marks {cs : List Char} {atom : Atom}
    (h : WritesCore numericConstants cs ⟨0, atom⟩) (n : Nat) :
    WritesCore numericConstants (List.replicate n '!' ++ cs) ⟨n, atom⟩ := by
  induction n with
  | zero => exact h
  | succ n ih => exact .negation (Or.inl rfl) forall_isBlank_nil ih .bare

/-- A spelling writes the literal of its name, with as many marks. -/
theorem IsReadable.writesLiteral {s : String} (h : IsReadable numericConstants s) :
    WritesLiteral numericConstants s.toList ⟨markCount s, .feature (spelledName s) h.valid⟩ := by
  have hname : IsName (spelledName s).toList := isName_iff.mpr ⟨h.valid, h.last⟩
  have hfeature : WritesFeature numericConstants (spelledName s).toList
      (s.toList.dropWhile (· = '!')) := by
    rw [spelledName, String.toList_ofList] at hname ⊢
    exact .bare hname h.notConstant
  have hcore : WritesCore numericConstants (spelledName s).toList
      ⟨0, .feature (spelledName s) h.valid⟩ := .atom (.feature h.valid hfeature)
  rw [toList_eq_marks_append]
  exact .bare (WritesCore.marks hcore _)

theorem IsReadable.literal?_eq {s : String} (h : IsReadable numericConstants s) :
    some ⟨spelledName s, negatesEach (markCount s), h.valid⟩ = spelledLiteral? negatesEach s := by
  rw [spelledLiteral?, Literal.ofName?, dif_pos h.valid]

theorem exists_written_literals {spellings : List String}
    (h : ∀ s ∈ spellings, IsReadable numericConstants s) :
    ∃ ls, List.Forall₂ (WritesLiteral numericConstants) (spellings.map String.toList) ls ∧
      ls.any WrittenLiteral.isFalse = false ∧
      ls.filterMap WrittenLiteral.literal? = spellings.filterMap (spelledLiteral? negatesEach) := by
  induction spellings with
  | nil => exact ⟨[], .nil, rfl, rfl⟩
  | cons s rest ih =>
    obtain ⟨hs, hrest⟩ := List.forall_mem_cons.mp h
    obtain ⟨ls, hls, hfalse, hliterals⟩ := ih hrest
    refine ⟨_, .cons hs.writesLiteral hls, hfalse, ?_⟩
    rw [List.filterMap_cons_some (WrittenLiteral.literal?_feature _ _ _), hliterals,
      List.filterMap_cons_some hs.literal?_eq.symm]
    rfl

theorem ne_nil_of_forall₂ {α β : Type} {R : α → β → Prop} {xs : List α} {ys : List β}
    (h : List.Forall₂ R xs ys) (hne : xs ≠ []) : ys ≠ [] := by
  rintro rfl
  exact hne (List.forall₂_nil_right_iff.mp h)

theorem exists_written_term {spellings : List String} (hne : spellings ≠ [])
    (h : ∀ s ∈ spellings, IsReadable numericConstants s) :
    ∃ ls, WritesTerm numericConstants (" && ".intercalate spellings).toList ls ∧
      writtenTerm? ls =
        some (Term.ofList (spellings.filterMap (spelledLiteral? negatesEach))) := by
  obtain ⟨ls, hls, hfalse, hliterals⟩ := exists_written_literals h
  have hne' : ls ≠ [] := ne_nil_of_forall₂ hls (by simpa using hne)
  have hjoined : Joined '&' (WritesLiteral numericConstants) _ _ :=
    joined_intercalate hls hne' forall_isBlank_nil
  refine ⟨ls, ?_, by rw [writtenTerm?_of_not_isFalse hfalse, hliterals]⟩
  rw [String.toList_intercalate]
  exact .bare hjoined

theorem exists_written_terms {terms : List (List String)}
    (hne : ∀ spellings ∈ terms, spellings ≠ [])
    (h : ∀ spellings ∈ terms, ∀ s ∈ spellings, IsReadable numericConstants s) :
    ∃ ts, List.Forall₂ (WritesTerm numericConstants)
        ((terms.map fun spellings => " && ".intercalate spellings).map String.toList) ts ∧
      ts.filterMap writtenTerm? = markedTerms negatesEach terms := by
  induction terms with
  | nil => exact ⟨[], .nil, rfl⟩
  | cons spellings rest ih =>
    obtain ⟨hfirst, hrest⟩ := List.forall_mem_cons.mp h
    obtain ⟨hnefirst, hnerest⟩ := List.forall_mem_cons.mp hne
    obtain ⟨ls, hls, hterm⟩ := exists_written_term hnefirst hfirst
    obtain ⟨ts, hts, hterms⟩ := ih hnerest hrest
    refine ⟨ls :: ts, .cons hls hts, ?_⟩
    rw [List.filterMap_cons_some hterm, hterms]
    rfl

/-- In a text every mark of a spelling negates. -/
theorem parse_spelledText {terms : List (List String)} (hterms : terms ≠ [])
    (hne : ∀ spellings ∈ terms, spellings ≠ [])
    (h : ∀ spellings ∈ terms, ∀ s ∈ spellings, IsReadable numericConstants s) (d : Dialect) :
    parse d numericConstants (spelledText terms) =
      .ok (ofTerms d (markedTerms negatesEach terms)) := by
  obtain ⟨ts, hts, hsame⟩ := exists_written_terms hne h
  have hne' : ts ≠ [] := ne_nil_of_forall₂ hts (by simpa using hterms)
  have hjoined : Joined '|' (WritesTerm numericConstants) _ _ :=
    joined_intercalate hts hne' forall_isBlank_nil
  have hwrites : WritesTerms numericConstants (spelledText terms).toList ts := by
    unfold spelledText
    rw [String.toList_intercalate]
    exact .bare hjoined
  rw [parse_of_writesTerms hwrites, hsame]

end Written

/-! ## The two readings -/

section Readings

variable {d : Dialect} {numericConstants : Bool} {terms : List (List String)} {c : Condition}

theorem holds_single (l : Literal) (a : Assignment) :
    (ofTerms d [Term.ofList [l]]).holds a = l.holds a := by
  rw [holds_ofTerms, List.any_cons, List.any_nil, Bool.or_false, Term.holds_ofList, List.all_cons,
    List.all_nil, Bool.and_true]

/-- Marks that cancel each other in a text negate a literal that is spelled
out. -/
theorem IsReadable.holds_of_marksCancel {s : String} (h : IsReadable numericConstants s)
    (hmarks : MarksCancel s) (d : Dialect) :
    ∃ spelled parsed, ofSpellings d (marked [[s]]) = .ok spelled ∧
      parse d numericConstants s = .ok parsed ∧ ∀ a, spelled.holds a = !parsed.holds a := by
  obtain ⟨honce, heach⟩ := hmarks
  let l : Literal := ⟨spelledName s, false, h.valid⟩
  have hread : (LiteralSpelling.marked s).read = .ok l.negate := by
    apply eq_ok_of_toOption
    rw [toOption_read_marked, spelledLiteral?, honce, Literal.ofName?, dif_pos h.valid]
    rfl
  have hspelled : ofSpellings d (marked [[s]]) = .ok (ofTerms d [Term.ofList [l.negate]]) := by
    unfold ofSpellings marked
    simp only [List.map_cons, List.map_nil, readTermSpellings, readSpellings, hread]
    rfl
  have hliteral : spelledLiteral? negatesEach s = some l := by rw [← h.literal?_eq, heach]
  have hterms : markedTerms negatesEach [[s]] = [Term.ofList [l]] := by
    unfold markedTerms
    rw [List.map_cons, List.filterMap_cons_some hliteral]
    rfl
  have hparsed : parse d numericConstants (spelledText [[s]]) = .ok (ofTerms d [Term.ofList [l]]) :=
    hterms ▸ parse_spelledText (by simp) (by simp) (by simpa using h) d
  have htext : spelledText [[s]] = s := by simp [spelledText]
  rw [htext] at hparsed
  refine ⟨_, _, hspelled, hparsed, fun a => ?_⟩
  rw [holds_single, holds_single, Literal.holds_negate]

/-- Spelled terms that are accepted, and whose names are read in a text, are
parsed from the text that joins them. The text has the same condition unless an
even number of marks stands before a name; on its own, every such literal is
spelled as the negation of what is parsed. -/
theorem spelled_terms_are_parsed_alike_unless_marks_cancel (hterms : terms ≠ [])
    (hne : ∀ spellings ∈ terms, spellings ≠ []) (hspelled : ofSpellings d (marked terms) = .ok c)
    (hlast : ∀ spellings ∈ terms, ∀ s ∈ spellings, (spelledName s).toList.getLast? ≠ some '\n')
    (hconstant : ∀ spellings ∈ terms, ∀ s ∈ spellings, ∀ value,
      (spelledName s, value) ∉ constantWords numericConstants) :
    parse d numericConstants (spelledText terms) =
        .ok (ofTerms d (markedTerms negatesEach terms)) ∧
      ((∀ spellings ∈ terms, ∀ s ∈ spellings, ¬ MarksCancel s) →
        parse d numericConstants (spelledText terms) = .ok c) ∧
      ∀ spellings ∈ terms, ∀ s ∈ spellings, MarksCancel s →
        ∃ spelled parsed, ofSpellings d (marked [[s]]) = .ok spelled ∧
          parse d numericConstants s = .ok parsed ∧ ∀ a, spelled.holds a = !parsed.holds a := by
  obtain ⟨rfl, hnames⟩ := of_ofSpellings_marked hspelled
  have hreadable : ∀ spellings ∈ terms, ∀ s ∈ spellings, IsReadable numericConstants s :=
    fun spellings ht s hs => ⟨hnames spellings ht s hs, hlast spellings ht s hs,
      hconstant spellings ht s hs⟩
  have hparse := parse_spelledText hterms hne hreadable d
  refine ⟨hparse, fun hmarks => ?_, fun spellings ht s hs hmarks => ?_⟩
  · rw [hparse, markedTerms_negatesEach hmarks]
  · exact (hreadable spellings ht s hs).holds_of_marksCancel hmarks d

end Readings

/-- Two terms that are spelled with no mark, one mark and three. -/
def markedOddly : List (List String) := [["A", "!B"], ["!!!C"]]

theorem oddly_marked_terms_are_parsed_alike :
    ∃ c, ofSpellings .plain (marked markedOddly) = .ok c ∧
      spelledText markedOddly = "A && !B || !!!C" ∧
      parse .plain true "A && !B || !!!C" = .ok c := by
  have haccepted : (ofSpellings .plain (marked markedOddly)).isOk = true := by decide +kernel
  obtain ⟨c, hc⟩ := exists_of_isOk haccepted
  have htext : spelledText markedOddly = "A && !B || !!!C" := by decide +kernel
  have hconstant : ∀ spellings ∈ markedOddly, ∀ s ∈ spellings, ∀ value,
      (spelledName s, value) ∉ constantWords true := by decide
  obtain ⟨_, halike, _⟩ := spelled_terms_are_parsed_alike_unless_marks_cancel (by decide)
    (by decide) hc (by decide) hconstant
  exact ⟨c, hc, htext, htext ▸ halike (by decide)⟩

/-- Two marks before a name that is no constant and ends in no line feed. -/
theorem two_marks_are_spelled_as_one :
    ∃ spelled parsed, ofSpellings .plain (marked [["!!A"]]) = .ok spelled ∧
      (spelledName "!!A").toList.getLast? ≠ some '\n' ∧
      (∀ value, (spelledName "!!A", value) ∉ constantWords true) ∧
      parse .plain true (spelledText [["!!A"]]) = .ok parsed ∧
      spelled.render = "!A" ∧ parsed.render = "A" ∧ spelled ≠ parsed := by
  have haccepted : (ofSpellings .plain (marked [["!!A"]])).isOk = true := by decide +kernel
  have hread : (parse .plain true (spelledText [["!!A"]])).isOk = true := by decide +kernel
  obtain ⟨spelled, hspelled⟩ := exists_of_isOk haccepted
  obtain ⟨parsed, hparsed⟩ := exists_of_isOk hread
  have hfirst : (ofSpellings .plain (marked [["!!A"]])).toOption.map render = some "!A" := by
    decide +kernel
  have hsecond : (parse .plain true (spelledText [["!!A"]])).toOption.map render = some "A" := by
    decide +kernel
  rw [hspelled] at hfirst
  rw [hparsed] at hsecond
  have hrender : spelled.render = "!A" := Option.some.inj hfirst
  have hrender' : parsed.render = "A" := Option.some.inj hsecond
  refine ⟨spelled, parsed, hspelled, by decide, by decide, hparsed, hrender, hrender', ?_⟩
  rintro rfl
  rw [hrender] at hrender'
  exact absurd hrender' (by decide)

end Condition

end Variability
