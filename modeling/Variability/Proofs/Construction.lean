-- How conditions are made: from literals that are spelled out, from text, and
-- from other conditions. Each of them is the normal form of the raw terms that
-- it is made from.
import Variability.Proofs.Combination
import Variability.Proofs.Products
import Variability.Raw.Record

namespace Variability

open Text BuildIndex

/-! ## Normal forms of raw terms -/

/-- A condition as the normal form of raw terms, each a list of literals. Of
these the consistent ones are kept, or the empty one alone if there is one; they
and their literals keep their order, each standing where it first occurs.
Nothing repeats, no feature stands in a term both negated and not, and the
condition holds where the raw terms hold. -/
structure IsNormalFormOf (raw : List (List Literal)) (c : Condition) : Prop where
  one_sign : ∀ t ∈ c.terms, ∀ l ∈ t.literals, ∀ m ∈ t.literals, l.name = m.name → l = m
  literals_nodup : ∀ t ∈ c.terms, t.literals.Nodup
  terms_nodup : c.terms.Nodup
  empty_alone : Term.empty ∈ c.terms → c = .always c.dialect
  stable : Condition.ofTerms c.dialect (c.terms.map fun t => Term.ofList t.literals) = c
  kept : ∀ t, t ∈ c.terms ↔ ∃ ls ∈ raw, t = Term.ofList ls ∧ (∀ l ∈ ls, l.negate ∉ ls) ∧
    ([] ∈ raw → ls = [])
  literals_kept : ∀ ls ∈ raw, ∀ l, l ∈ (Term.ofList ls).literals ↔ l ∈ ls
  terms_order : KeepsOrder c.terms (raw.map Term.ofList)
  literals_order : ∀ ls ∈ raw, KeepsOrder (Term.ofList ls).literals ls
  meaning : ∀ a : Assignment, c.holds a = raw.any fun ls => ls.all (·.holds a)

theorem Literal.eq_or_negate_eq {l m : Literal} (h : l.name = m.name) :
    l = m ∨ l.negate = m := by
  obtain ⟨name, negated, valid⟩ := l
  obtain ⟨_, negated', _⟩ := m
  cases h
  cases negated <;> cases negated' <;> simp [Literal.negate]

namespace Term

theorem ofList_eq_empty_iff {ls : List Literal} : ofList ls = empty ↔ ls = [] := by
  constructor
  · intro h
    rw [List.eq_nil_iff_forall_not_mem]
    intro l hl
    have hkept : l ∈ (ofList ls).literals := mem_ofList.mpr hl
    rw [h] at hkept
    cases hkept
  · rintro rfl
    rfl

theorem not_contradictory_ofList_iff {ls : List Literal} :
    (ofList ls).isContradictory = false ↔ ∀ l ∈ ls, l.negate ∉ ls := by
  rw [← Bool.not_eq_true, isContradictory_iff]
  simp only [mem_ofList, not_exists, not_and]

/-- Two literals of a consistent term have different features. -/
theorem eq_of_name_eq {t : Term} (h : t.isContradictory = false) {l m : Literal}
    (hl : l ∈ t.literals) (hm : m ∈ t.literals) (hname : l.name = m.name) : l = m := by
  rcases Literal.eq_or_negate_eq hname with hsame | hnegate
  · exact hsame
  · have hcontradictory := isContradictory_iff.mpr ⟨l, hl, hnegate ▸ hm⟩
    rw [h] at hcontradictory
    cases hcontradictory

theorem empty_mem_map_ofList {raw : List (List Literal)} :
    empty ∈ raw.map ofList ↔ [] ∈ raw := by
  simp only [List.mem_map, ofList_eq_empty_iff, exists_eq_right]

end Term

namespace Condition

theorem keepsOrder_normalizeTerms (ts : List Term) : KeepsOrder (normalizeTerms ts) ts := by
  unfold normalizeTerms
  split
  · rename_i hempty
    obtain ⟨s, hs, hempty⟩ := List.any_eq_true.mp hempty
    rw [← Term.isEmpty_iff.mp hempty]
    exact ⟨List.singleton_sublist.mpr (mem_consistentTerms.mp hs).1, List.pairwise_singleton _ _⟩
  · rw [consistentTerms_eq]
    exact keepsOrder_firsts_filter _ ts

theorem keepsOrder_ofList (ls : List Literal) : KeepsOrder (Term.ofList ls).literals ls := by
  change KeepsOrder (distinct ls) ls
  rw [distinct_eq_firsts]
  exact ⟨firsts_sublist ls, pairwise_firsts ls⟩

theorem isNormalFormOf_ofTerms (d : Dialect) (raw : List (List Literal)) :
    IsNormalFormOf raw (ofTerms d (raw.map Term.ofList)) where
  one_sign t ht l hl m hm := Term.eq_of_name_eq ((ofTerms d _).normal.consistent t ht) hl hm
  literals_nodup t _ := t.nodup
  terms_nodup := (ofTerms d _).normal.nodup
  empty_alone h := ext rfl ((ofTerms d _).normal.empty_alone h)
  stable := by
    simp only [Term.ofList_literals, List.map_id']
    exact ofTerms_terms _
  kept t := by
    change t ∈ normalizeTerms (raw.map Term.ofList) ↔ _
    rw [mem_normalizeTerms, Term.empty_mem_map_ofList, List.mem_map]
    constructor
    · rintro ⟨⟨ls, hls, rfl⟩, hc, honly⟩
      exact ⟨ls, hls, rfl, Term.not_contradictory_ofList_iff.mp hc,
        fun hempty => Term.ofList_eq_empty_iff.mp (honly hempty)⟩
    · rintro ⟨ls, hls, rfl, hc, honly⟩
      exact ⟨⟨ls, hls, rfl⟩, Term.not_contradictory_ofList_iff.mpr hc,
        fun hempty => Term.ofList_eq_empty_iff.mpr (honly hempty)⟩
  literals_kept ls _ l := Term.mem_ofList
  terms_order := keepsOrder_normalizeTerms _
  literals_order ls _ := keepsOrder_ofList ls
  meaning a := by
    rw [holds_ofTerms, List.any_map]
    congr 1
    funext ls
    exact Term.holds_ofList a ls

end Condition

/-! ## Raw terms that are spelled out or written -/

/-- The literals that spellings stand for, list by list. -/
def spelledTerms (terms : List (List LiteralSpelling)) : List (List Literal) :=
  terms.map fun spellings => spellings.filterMap fun s => s.read.toOption

theorem readSpellings_eq {spellings : List LiteralSpelling} {ls : List Literal}
    (h : readSpellings spellings = .ok ls) :
    spellings.filterMap (fun s => s.read.toOption) = ls := by
  induction spellings generalizing ls with
  | nil =>
    cases h
    rfl
  | cons s rest ih =>
    unfold readSpellings at h
    split at h
    · cases h
    · rename_i l hl
      cases hrest : readSpellings rest with
      | error ds =>
        rw [hrest] at h
        cases h
      | ok others =>
        rw [hrest] at h
        cases h
        rw [List.filterMap_cons_some (by rw [hl]; rfl), ih hrest]

theorem readTermSpellings_eq {terms : List (List LiteralSpelling)} {ts : List Term}
    (h : readTermSpellings terms = .ok ts) : ts = (spelledTerms terms).map Term.ofList := by
  induction terms generalizing ts with
  | nil =>
    cases h
    rfl
  | cons spellings rest ih =>
    unfold readTermSpellings at h
    split at h
    · cases h
    · rename_i ls hls
      cases hrest : readTermSpellings rest with
      | error ds =>
        rw [hrest] at h
        cases h
      | ok others =>
        rw [hrest] at h
        cases h
        rw [ih hrest, ← readSpellings_eq hls]
        rfl

namespace Condition

/-- The literals of the written terms of a text, except for the terms that a
constant makes false. A blank text has one term, without literals. -/
def parsedTerms (numericConstants : Bool) (text : String) : List (List Literal) :=
  let source := trim text.toList
  if source = [] then [[]]
  else
    (operands '|' (unwrap source)).filterMap fun piece =>
      (readTerm numericConstants (String.ofList source) piece).toOption.join

theorem readTerms_eq {numericConstants : Bool} {source : String} {pieces : List (List Char)}
    {ts : List Term} (h : readTerms numericConstants source pieces = .ok ts) :
    ts = (pieces.filterMap fun piece =>
      (readTerm numericConstants source piece).toOption.join).map Term.ofList := by
  induction pieces generalizing ts with
  | nil =>
    cases h
    rfl
  | cons piece rest ih =>
    unfold readTerms at h
    split at h
    · cases h
    · rename_i hfalse
      rw [List.filterMap_cons_none (by rw [hfalse]; rfl)]
      exact ih h
    · rename_i ls hls
      cases hrest : readTerms numericConstants source rest with
      | error e =>
        rw [hrest] at h
        cases h
      | ok others =>
        rw [hrest] at h
        cases h
        rw [List.filterMap_cons_some (by rw [hls]; rfl), List.map_cons, ← ih hrest]

theorem parseTerms_eq {numericConstants : Bool} {text : String} {ts : List Term}
    (h : parseTerms numericConstants text = .ok ts) :
    ts = (parsedTerms numericConstants text).map Term.ofList := by
  unfold parseTerms at h
  unfold parsedTerms
  simp only at h ⊢
  split at h
  · rename_i hblank
    cases h
    rw [if_pos hblank]
    rfl
  · rename_i hblank
    rw [if_neg hblank]
    exact readTerms_eq h

/-! ## Raw terms of conjunctions -/

/-- One term from each condition, in every way, their literals one behind
another. -/
def rawChoices : List Condition → List (List Literal)
  | [] => [[]]
  | c :: cs => c.terms.flatMap fun t => (rawChoices cs).map (t.literals ++ ·)

theorem map_ofList_rawChoices (cs : List Condition) :
    (rawChoices cs).map Term.ofList = choices cs := by
  induction cs with
  | nil => rfl
  | cons c cs ih =>
    rw [rawChoices, choices, ← ih, termProducts_eq, List.map_flatMap]
    refine List.flatMap_congr fun t _ => ?_
    rw [List.map_map, List.map_map]
    refine List.map_congr_left fun ls _ => ?_
    change Term.ofList (t.literals ++ ls) = t.join (Term.ofList ls)
    rw [← Term.join_ofList, Term.ofList_literals]

end Condition

namespace BuildIndex

/-- What is conjoined when a condition is combined with located ones: those of
its dialect, the unit first and then the directories innermost first, and the
condition itself. -/
def factors (levels : List (List Condition)) (pc : Condition) : List Condition :=
  ((levels.flatMap List.reverse).filter fun l => l.dialect = pc.dialect) ++ [pc]

theorem joinFront_product {d : Dialect} {l : Condition} (h : l.dialect = d)
    (cs : List Condition) :
    joinFront (Condition.product d cs) l = Condition.product d (l :: cs) := by
  subst h
  have hproduct := Condition.conjoin_product l.dialect [l] cs
  rw [Condition.product_single] at hproduct
  unfold joinFront
  rw [hproduct]
  rfl

theorem foldl_joinFront_product {d : Dialect} {located : List Condition}
    (h : ∀ l ∈ located, l.dialect = d) (cs : List Condition) :
    located.foldl joinFront (Condition.product d cs) =
      Condition.product d (located.reverse ++ cs) := by
  induction located generalizing cs with
  | nil => rfl
  | cons l located ih =>
    rw [List.foldl_cons, joinFront_product (h l List.mem_cons_self),
      ih (fun m hm => h m (List.mem_cons_of_mem _ hm)), List.reverse_cons, List.append_assoc]
    rfl

/-- Combining a condition with located ones multiplies all of its dialect
out. -/
theorem combineLevels_eq_product (levels : List (List Condition)) (pc : Condition) :
    combineLevels levels pc = Condition.product pc.dialect (factors levels pc) := by
  have hdialect : ∀ l ∈ levels.reverse.flatten.filter (fun l => l.dialect = pc.dialect),
      l.dialect = pc.dialect := by
    intro l hl
    simpa using (List.mem_filter.mp hl).2
  have horder : (levels.reverse.flatten).reverse = levels.flatMap List.reverse := by
    rw [List.reverse_flatten, List.map_reverse, List.reverse_reverse, List.flatMap_def]
  calc combineLevels levels pc
      = (levels.reverse.flatten.filter fun l => l.dialect = pc.dialect).foldl joinFront pc := by
        rw [combineLevels_eq_foldl, foldl_joinFront_filter]
    _ = (levels.reverse.flatten.filter fun l => l.dialect = pc.dialect).foldl joinFront
          (Condition.product pc.dialect [pc]) := by rw [Condition.product_single]
    _ = Condition.product pc.dialect (factors levels pc) := by
        rw [foldl_joinFront_product hdialect, ← List.filter_reverse, horder]
        rfl

end BuildIndex

/-! ## How conditions are made -/

namespace Condition

/-- A condition that is made, in whatever steps, and the raw terms of the last
step. -/
inductive Made : List (List Literal) → Condition → Prop
  | always (d : Dialect) : Made [[]] (always d)
  | never (d : Dialect) : Made [] (never d)
  | spelled {d : Dialect} {terms : List (List LiteralSpelling)} {c : Condition} :
    ofSpellings d terms = .ok c → Made (spelledTerms terms) c
  | parsed {d : Dialect} {numericConstants : Bool} {text : String} {c : Condition} :
    parse d numericConstants text = .ok c → Made (parsedTerms numericConstants text) c
  | read {r : ConditionReader} {text : String} {cs : List Condition} {c : Condition} :
    r.read text = .ok cs → c ∈ cs → Made (parsedTerms r.numericConstants text) c
  | conjoined {rawA rawB : List (List Literal)} {a b c : Condition} :
    Made rawA a → Made rawB b → a.conjoin b = .ok c → Made (rawChoices [a, b]) c
  | combined {raw : List (List Literal)} {rawOf : Condition → List (List Literal)}
    {s : Scanner} {w : Workspace} {owner : Nat} {before : Scanning}
    {levels : List (List Condition)} {pc c : Condition} :
    Made raw pc → (s.locate w owner before).answer = .ok levels →
    (∀ level ∈ levels, ∀ located ∈ level, Made (rawOf located) located) →
    (s.combine w owner before pc).answer = .ok c → Made (rawChoices (factors levels pc)) c

theorem product_eq (d : Dialect) (cs : List Condition) :
    product d cs = ofTerms d ((rawChoices cs).map Term.ofList) := by
  rw [map_ofList_rawChoices]
  rfl

/-- Whatever the last step is, it normalises its raw terms. -/
theorem Made.eq_ofTerms {raw : List (List Literal)} {c : Condition} (h : Made raw c) :
    ∃ d, c = ofTerms d (raw.map Term.ofList) := by
  cases h with
  | always d => exact ⟨d, rfl⟩
  | never d => exact ⟨d, rfl⟩
  | @spelled d terms _ hspelled =>
    unfold ofSpellings at hspelled
    cases hterms : readTermSpellings terms with
    | error ds =>
      rw [hterms] at hspelled
      cases hspelled
    | ok ts =>
      rw [hterms] at hspelled
      cases hspelled
      exact ⟨d, by rw [readTermSpellings_eq hterms]⟩
  | @parsed d numericConstants text _ hparsed =>
    unfold parse at hparsed
    cases hterms : parseTerms numericConstants text with
    | error e =>
      rw [hterms] at hparsed
      cases hparsed
    | ok ts =>
      rw [hterms] at hparsed
      cases hparsed
      exact ⟨d, by rw [parseTerms_eq hterms]⟩
  | @read r text cs _ hread hmem =>
    unfold ConditionReader.read at hread
    split at hread
    · cases hread
      cases hmem
    · cases hterms : parseTerms r.numericConstants text with
      | error e =>
        rw [hterms] at hread
        cases hread
      | ok ts =>
        rw [hterms] at hread
        cases hread
        obtain ⟨d, _, rfl⟩ := List.mem_map.mp hmem
        exact ⟨d, by rw [parseTerms_eq hterms]⟩
  | @conjoined _ _ a b _ _ _ hconjoined =>
    by_cases hdialect : a.dialect = b.dialect
    · rw [conjoin_eq_product hdialect] at hconjoined
      cases hconjoined
      exact ⟨a.dialect, product_eq _ _⟩
    · rw [conjoin_of_dialect_ne hdialect] at hconjoined
      cases hconjoined
  | @combined _ _ s w owner before levels pc _ _ hlevels _ hcombined =>
    rw [Scanner.answer_combine hlevels pc] at hcombined
    cases hcombined
    exact ⟨pc.dialect, (combineLevels_eq_product levels pc).trans (product_eq _ _)⟩

/-- In whatever steps a condition is made, it is the normal form of the raw
terms of the last one. -/
theorem every_condition_is_the_normal_form_of_its_raw_terms {raw : List (List Literal)}
    {c : Condition} (h : Made raw c) : IsNormalFormOf raw c := by
  obtain ⟨d, rfl⟩ := h.eq_ofTerms
  exact isNormalFormOf_ofTerms d raw

/-- A text with a contradictory and a repeated term, a spelled condition with a
repeated literal, and their conjunction. -/
theorem a_parsed_and_a_spelled_condition_are_conjoined :
    ∃ a b c, parse .plain true "A & !A | B & A & B | A | B & A" = .ok a ∧
      ofSpellings .plain [[.marked "!B"], [.marked "C", .marked "C"]] = .ok b ∧
      a.conjoin b = .ok c ∧ a.render = "(B && A) || A" ∧ b.render = "!B || C" ∧
      c.render = "(B && A && C) || (A && !B) || (A && C)" ∧
      IsNormalFormOf (rawChoices [a, b]) c := by
  have hparse : (parse .plain true "A & !A | B & A & B | A | B & A").isOk = true := by
    decide +kernel
  have hspell : (ofSpellings .plain [[.marked "!B"], [.marked "C", .marked "C"]]).isOk = true := by
    decide +kernel
  obtain ⟨a, ha⟩ := exists_of_isOk hparse
  obtain ⟨b, hb⟩ := exists_of_isOk hspell
  have hfirst : (parse .plain true "A & !A | B & A & B | A | B & A").toOption.map render =
      some "(B && A) || A" := by decide +kernel
  have hsecond : (ofSpellings .plain [[.marked "!B"], [.marked "C", .marked "C"]]).toOption.map
      render = some "!B || C" := by decide +kernel
  have hboth : ((parse .plain true "A & !A | B & A & B | A | B & A").toOption.bind fun a =>
      (ofSpellings .plain [[.marked "!B"], [.marked "C", .marked "C"]]).toOption.bind fun b =>
        (a.conjoin b).toOption.map render) =
      some "(B && A && C) || (A && !B) || (A && C)" := by decide +kernel
  rw [ha] at hfirst hboth
  rw [hb] at hsecond hboth
  obtain ⟨c, hc, hrender⟩ := Option.map_eq_some_iff.mp hboth
  have hconjoined : a.conjoin b = .ok c := eq_ok_of_toOption hc
  exact ⟨a, b, c, ha, hb, hconjoined, Option.some.inj hfirst, Option.some.inj hsecond, hrender,
    every_condition_is_the_normal_form_of_its_raw_terms
      (.conjoined (.parsed ha) (.spelled hb) hconjoined)⟩

end Condition

end Variability
