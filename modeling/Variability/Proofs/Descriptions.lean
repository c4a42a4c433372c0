-- Descriptions: the located conditions of the first dialect, written one behind
-- another. Read again, a description is the condition that they combine to,
-- unless several levels stand in it of which one has several terms, or a name
-- is taken for a constant.
import Variability.Proofs.Dialects
import Variability.Proofs.RoundTrip

namespace Variability

open Text Condition

/-! ## Joined texts -/

/-- What is joined on both sides of one more operator is joined in all. -/
theorem Joined.append {α : Type} {op : Char} {writes : List Char → α → Prop}
    {cs ds sign : List Char} {xs ys : List α} (hcs : Joined op writes cs xs)
    (hsign : IsSign op sign) (hds : Joined op writes ds ys) :
    Joined op writes (cs ++ (sign ++ ds)) (xs ++ ys) := by
  induction hcs with
  | one hfirst => exact .cons hfirst hsign hds
  | cons hfirst hsign' _ ih =>
    rw [List.append_assoc, List.append_assoc]
    exact .cons hfirst hsign' ih

/-! ## Literals of several conditions -/

theorem writtenTerm?_append (ls ms : List WrittenLiteral) :
    writtenTerm? (ls ++ ms) =
      (writtenTerm? ls).bind fun s => (writtenTerm? ms).map s.join := by
  unfold writtenTerm?
  rw [List.any_append, List.filterMap_append]
  cases ls.any WrittenLiteral.isFalse <;> cases ms.any WrittenLiteral.isFalse <;>
    simp [Term.join_ofList]

namespace Condition

theorem termProducts_toList (s? t? : Option Term) :
    termProducts s?.toList t?.toList = (s?.bind fun s => t?.map s.join).toList := by
  rw [termProducts_eq]
  cases s? <;> cases t? <;> rfl

section Factors

variable (numericConstants : Bool) (c : Condition)

/-- The literals that a condition of at most one term is written with. -/
def writtenFactor : List WrittenLiteral :=
  if c.isTrue then [⟨0, .constant true⟩]
  else
    match c.terms with
    | [] => [⟨0, .constant false⟩]
    | t :: _ => t.literals.map (writtenAs c.dialect numericConstants)

variable {numericConstants c}

theorem terms_of_length_le_one (hone : c.terms.length ≤ 1) :
    c.terms = [] ∨ ∃ t, c.terms = [t] := by
  rw [← List.length_eq_zero_iff, ← List.length_eq_one_iff]
  omega

/-- The literals of its text make up its only term, and none is made up if it
has none. -/
theorem writtenTerm?_writtenFactor (hone : c.terms.length ≤ 1)
    (hread : ∀ t ∈ c.terms, ∀ l ∈ t.literals, Readable c.dialect numericConstants l.name) :
    (writtenTerm? (writtenFactor numericConstants c)).toList = c.terms := by
  unfold writtenFactor
  cases htrue : c.isTrue with
  | true =>
    rw [if_pos rfl, show c.terms = [Term.empty] from of_decide_eq_true htrue]
    rfl
  | false =>
    rw [if_neg Bool.false_ne_true]
    obtain hterms | ⟨t, hterms⟩ := terms_of_length_le_one hone
    · rw [hterms]
      rfl
    · have hsame := filterMap_writtenTerms hread
      rw [hterms] at hsame ⊢
      exact hsame

/-- Conditions of at most one term each have one choice of terms, or none. -/
theorem choices_eq_toList {cs : List Condition} (hone : ∀ c ∈ cs, c.terms.length ≤ 1)
    (hread : ∀ c ∈ cs, ∀ t ∈ c.terms, ∀ l ∈ t.literals,
      Readable c.dialect numericConstants l.name) :
    choices cs = (writtenTerm? (cs.flatMap (writtenFactor numericConstants))).toList := by
  induction cs with
  | nil => rfl
  | cons c cs ih =>
    obtain ⟨hfirst, hone⟩ := List.forall_mem_cons.mp hone
    obtain ⟨hreadFirst, hread⟩ := List.forall_mem_cons.mp hread
    rw [choices, ih hone hread, ← writtenTerm?_writtenFactor hfirst hreadFirst,
      termProducts_toList, List.flatMap_cons, writtenTerm?_append]

end Factors

/-! ## Texts of several conditions -/

section Texts

variable {numericConstants : Bool} {c : Condition} {cs : List Condition}

theorem renderFactor_of_length_le (hone : c.terms.length ≤ 1) :
    BuildIndex.renderFactor c = c.render := by
  unfold BuildIndex.renderFactor
  rw [if_neg (by omega)]

/-- A condition of at most one term is written literal by literal. -/
theorem joined_renderFactor (hone : c.terms.length ≤ 1)
    (hnames : ∀ t ∈ c.terms, ∀ l ∈ t.literals, IsName l.name.toList) :
    Joined '&' (WritesLiteral numericConstants) (BuildIndex.renderFactor c).toList
      (writtenFactor numericConstants c) := by
  have hconstant : ∀ {word : String} {value : Bool},
      (word, value) ∈ constantWords numericConstants →
        Joined '&' (WritesLiteral numericConstants) word.toList [⟨0, .constant value⟩] :=
    fun hword => .one (.bare (.atom (.constant hword)))
  rw [renderFactor_of_length_le hone]
  unfold writtenFactor render
  cases htrue : c.isTrue with
  | true => exact hconstant (by simp [constantWords])
  | false =>
    have hne := literals_ne_nil_of_not_isTrue htrue
    obtain hterms | ⟨t, hterms⟩ := terms_of_length_le_one hone
    · rw [hterms]
      exact hconstant (by simp [constantWords])
    · rw [hterms] at hne hnames ⊢
      exact joined_render (hnames t List.mem_cons_self) (hne t List.mem_cons_self)

/-- Conditions of at most one term, written one behind another, are one term. -/
theorem joined_factors (hne : cs ≠ []) (hone : ∀ c ∈ cs, c.terms.length ≤ 1)
    (hnames : ∀ c ∈ cs, ∀ t ∈ c.terms, ∀ l ∈ t.literals, IsName l.name.toList) :
    Joined '&' (WritesLiteral numericConstants)
      ("&&".intercalate (cs.map BuildIndex.renderFactor)).toList
      (cs.flatMap (writtenFactor numericConstants)) := by
  induction cs with
  | nil => exact absurd rfl hne
  | cons c cs ih =>
    obtain ⟨hfirst, hone⟩ := List.forall_mem_cons.mp hone
    obtain ⟨hnamesFirst, hnames⟩ := List.forall_mem_cons.mp hnames
    have hjoined : Joined '&' (WritesLiteral numericConstants) _ _ :=
      joined_renderFactor hfirst hnamesFirst
    cases cs with
    | nil => simpa using hjoined
    | cons d cs =>
      have hrest := ih (List.cons_ne_nil _ _) hone hnames
      have hall := hjoined.append (Or.inr rfl : IsSign '&' ['&', '&']) hrest
      simpa [String.intercalate_cons_cons] using hall

/-- Conditions of at most one term, written one behind another, are read as
their product. -/
theorem parse_factors {d : Dialect} (hdialect : ∀ c ∈ cs, c.dialect = d) (hne : cs ≠ [])
    (hone : ∀ c ∈ cs, c.terms.length ≤ 1)
    (hnames : ∀ c ∈ cs, ∀ t ∈ c.terms, ∀ l ∈ t.literals,
      IsName l.name.toList ∧ Readable d numericConstants l.name) :
    parse d numericConstants ("&&".intercalate (cs.map BuildIndex.renderFactor)) =
      .ok (product d cs) := by
  have hjoined : Joined '&' (WritesLiteral numericConstants) _ _ :=
    joined_factors hne hone fun c hc t ht l hl => (hnames c hc t ht l hl).1
  have hchoices : choices cs =
      (writtenTerm? (cs.flatMap (writtenFactor numericConstants))).toList :=
    choices_eq_toList hone fun c hc t ht l hl => hdialect c hc ▸ (hnames c hc t ht l hl).2
  rw [parse_of_writesTerms (.bare (.one (.bare hjoined))), product, hchoices,
    List.filterMap_cons]
  cases writtenTerm? (cs.flatMap (writtenFactor numericConstants)) <;> rfl

/-- A condition of several terms is read in its parentheses as it is without. -/
theorem parse_renderFactor (hnames : ∀ t ∈ c.terms, ∀ l ∈ t.literals,
      IsName l.name.toList ∧ Readable c.dialect numericConstants l.name) :
    parse c.dialect numericConstants (BuildIndex.renderFactor c) = .ok c := by
  have hread : ∀ t ∈ c.terms, ∀ l ∈ t.literals, Readable c.dialect numericConstants l.name :=
    fun t ht l hl => (hnames t ht l hl).2
  have hchars : ∀ t ∈ c.terms, ∀ l ∈ t.literals, IsName l.name.toList :=
    fun t ht l hl => (hnames t ht l hl).1
  by_cases hseveral : 1 < c.terms.length
  · have htrue : c.isTrue = false := by
      unfold isTrue
      rw [decide_eq_false_iff_not]
      intro hterms
      rw [hterms] at hseveral
      simp at hseveral
    have hfalse : c.terms ≠ [] := List.ne_nil_of_length_pos (by omega)
    have hparens : WritesTerms numericConstants (BuildIndex.renderFactor c).toList
        (writtenTerms c.dialect numericConstants c.terms) := by
      unfold BuildIndex.renderFactor
      rw [if_pos hseveral, String.toList_append, String.toList_append]
      exact .parens (joined_renderTerms hchars htrue hfalse)
    rw [parse_of_writesTerms hparens, filterMap_writtenTerms hread, ofTerms_terms]
  · rw [renderFactor_of_length_le (by omega), parse_render hchars, filterMap_writtenTerms hread,
      ofTerms_terms]

end Texts

end Condition

namespace BuildIndex

/-! ## Levels of several dialects -/

/-- The conditions of the first dialect, one for each level that is not
blank. -/
def firstConditions (levels : List (List Condition)) : List Condition :=
  levels.filterMap List.head?

section Levels

variable {r : ConditionReader} {text : String} {level : List Condition}
  {levels : List (List Condition)} {d : Dialect} {others : List Dialect}

theorem exists_levelOf_of_read (h : r.read text = .ok level) :
    ∃ entry, level = levelOf r.dialects entry := by
  rw [read_eq] at h
  cases hentry : readEntry r.numericConstants text with
  | error e =>
    rw [hentry] at h
    cases h
  | ok entry =>
    rw [hentry] at h
    cases h
    exact ⟨entry, rfl⟩

theorem isName_of_read (h : r.read text = .ok level) :
    ∀ c ∈ level, ∀ t ∈ c.terms, ∀ l ∈ t.literals, IsName l.name.toList := by
  intro c hc
  unfold ConditionReader.read at h
  split at h
  · cases h
    cases hc
  · cases hterms : parseTerms r.numericConstants text with
    | error e =>
      rw [hterms] at h
      cases h
    | ok ts =>
      rw [hterms] at h
      cases h
      obtain ⟨d, _, rfl⟩ := List.mem_map.mp hc
      have hparse : parse d r.numericConstants text = .ok (ofTerms d ts) := by
        unfold parse
        rw [hterms]
        rfl
      exact isName_of_parse hparse

/-- Where the first dialect is listed once, a level has no other condition of it
than its first. -/
theorem filter_levelOf_first (honce : d ∉ others) (entry : Option (List Term)) :
    (levelOf (d :: others) entry).filter (fun l => l.dialect = d) =
      (levelOf (d :: others) entry).head?.toList := by
  rw [filter_levelOf, List.count_cons_self, List.count_eq_zero_of_not_mem honce]
  cases entry <;> rfl

/-- The located conditions of the first dialect are what the condition that is
true is combined with. -/
theorem combineLevels_always_first (honce : d ∉ others)
    (hlevels : ∀ level ∈ levels, ∃ entry, level = levelOf (d :: others) entry) :
    combineLevels levels (.always d) = Condition.product d (firstConditions levels) := by
  rw [combineLevels_always, List.filter_flatMap, firstConditions,
    List.filterMap_eq_flatMap_toList]
  congr 1
  refine List.flatMap_congr fun level hlevel => ?_
  obtain ⟨entry, rfl⟩ := hlevels level hlevel
  rw [List.filter_reverse, filter_levelOf_first honce]
  cases (levelOf (d :: others) entry).head? <;> rfl

/-- Only as many levels have a first condition as are not blank. -/
theorem length_firstConditions (levels : List (List Condition)) :
    (firstConditions levels).length = (levels.filter (· ≠ [])).length := by
  unfold firstConditions
  rw [List.length_filterMap_eq_countP, List.countP_eq_length_filter]
  congr 2
  funext level
  cases level <;> rfl

/-- A description is read as the product of what it describes. -/
theorem parse_describeLevels {numericConstants : Bool}
    (hdialect : ∀ c ∈ firstConditions levels, c.dialect = d)
    (hnames : ∀ c ∈ firstConditions levels, ∀ t ∈ c.terms, ∀ l ∈ t.literals,
      IsName l.name.toList ∧ Readable d numericConstants l.name)
    (hshape : (∀ c ∈ firstConditions levels, c.terms.length ≤ 1) ∨
      (firstConditions levels).length ≤ 1) :
    parse d numericConstants (describeLevels levels) =
      .ok (Condition.product d (firstConditions levels)) := by
  unfold describeLevels
  rw [← firstConditions]
  generalize firstConditions levels = cs at hdialect hnames hshape
  by_cases hnone : cs = []
  · subst hnone
    have hword : ("True", true) ∈ constantWords numericConstants := by simp [constantWords]
    exact parse_of_writesTerms (writesTerms_constant hword)
  · simp only [List.map_eq_nil_iff, if_neg hnone]
    rcases hshape with hone | hsingle
    · exact parse_factors hdialect hnone hone hnames
    · obtain ⟨c, rfl⟩ := List.length_eq_one_iff.mp
        (show cs.length = 1 by have := List.length_pos_of_ne_nil hnone; omega)
      obtain rfl := hdialect c List.mem_cons_self
      rw [List.map_singleton, String.intercalate_singleton,
        parse_renderFactor (hnames c List.mem_cons_self), Condition.product_single]

end Levels

namespace Scanner

section Describing

variable {s : Scanner} {owner : Nat} {w : Workspace} {h : History} {turns : List (Turn Request)}
  {x : Session Scanning} {levels : List (List Condition)}

/-- What a scanner gives in a session it has located at some time, as if asked
for the first time. -/
theorem exists_fresh_of_locate (hx : x = (opening w h).after (s.ask owner) turns)
    (hlocated : (s.locate x.files owner x.state).answer = .ok levels) :
    ∃ w', (s.locate w' 0 ⟨.unscanned, History.empty⟩).answer = .ok levels := by
  subst hx
  have hstage := stage_after s owner w h turns
  generalize ((opening w h).after (s.ask owner) turns).state = state at hstage hlocated
  cases hstage with
  | before =>
    rw [answer_locate_unscanned] at hlocated
    exact ⟨_, (answer_locate_unscanned ..).trans hlocated⟩
  | @since earlier later q found hbefore hfound =>
    have hreply := hfound .locate
    rw [firstReply, ask_about, Outcome.mapAnswer] at hreply
    cases hlocated
    refine ⟨((opening w h).after (s.ask owner) earlier).files, ?_⟩
    cases hfresh : (s.locate ((opening w h).after (s.ask owner) earlier).files 0
        ⟨.unscanned, History.empty⟩).answer with
    | error e =>
      rw [hfresh] at hreply
      cases hreply
    | ok located =>
      rw [hfresh] at hreply
      cases hreply
      rfl

/-- A level that is located is what reading some text gives. -/
theorem exists_read_of_locate
    (hlocated : (s.locate w 0 ⟨.unscanned, History.empty⟩).answer = .ok levels) :
    ∀ level ∈ levels, ∃ text, s.reader.read text = .ok level := by
  intro level hlevel
  obtain ⟨count, hlook⟩ := exists_lookUp_of_locate rfl hlocated
  obtain ⟨keys, found, _, _, hread⟩ := exists_of_lookUp hlook
  obtain ⟨text, _, htext⟩ := (mem_readLevels hread level).mp hlevel
  exact ⟨text, htext⟩

/-- A scanner, at whatever time in a session, describes its conditions of the
first dialect of its reader by a text that is read as what the condition that is
true combines to, term by term and literal by literal. It is so where the
dialect is listed once, no bare name is a constant, and every condition has at
most one term or at most one level is not blank. -/
theorem a_description_is_parsed_as_what_it_combines_to {d : Dialect} {others : List Dialect}
    (hdialects : s.reader.dialects = d :: others) (honce : d ∉ others)
    (hx : x = (opening w h).after (s.ask owner) turns)
    (hlocated : (s.locate x.files owner x.state).answer = .ok levels)
    (hnames : d = .defined ∨ ∀ level ∈ levels, ∀ c ∈ level, ∀ t ∈ c.terms, ∀ l ∈ t.literals,
      ∀ value, (l.name, value) ∉ constantWords s.reader.numericConstants)
    (hshape : (∀ level ∈ levels, ∀ c ∈ level, c.terms.length ≤ 1) ∨
      (levels.filter (· ≠ [])).length ≤ 1) :
    ∃ text combined, (s.describe x.files owner x.state).answer = .ok text ∧
      (s.combine x.files owner x.state (.always d)).answer = .ok combined ∧
      parse d s.reader.numericConstants text = .ok combined := by
  -- What is located now some first scan has read, each level from a text.
  obtain ⟨w', hfresh⟩ := exists_fresh_of_locate hx hlocated
  have hread := exists_read_of_locate hfresh
  have hlevels : ∀ level ∈ levels, ∃ entry, level = levelOf (d :: others) entry := by
    intro level hlevel
    obtain ⟨text, htext⟩ := hread level hlevel
    exact hdialects ▸ exists_levelOf_of_read htext
  have hfirst : ∀ c ∈ firstConditions levels, ∃ level ∈ levels, c ∈ level ∧ c.dialect = d := by
    intro c hc
    obtain ⟨level, hlevel, hhead⟩ := List.mem_filterMap.mp hc
    obtain ⟨entry, rfl⟩ := hlevels level hlevel
    refine ⟨_, hlevel, List.mem_of_head? hhead, ?_⟩
    cases entry with
    | none => cases hhead
    | some ts =>
      cases hhead
      rfl
  refine ⟨describeLevels levels, _, ?_, answer_combine hlocated _, ?_⟩
  · unfold describe
    simp only [hlocated, Except.map]
  · rw [combineLevels_always_first honce hlevels]
    apply parse_describeLevels
    · intro c hc
      obtain ⟨_, _, _, hd⟩ := hfirst c hc
      exact hd
    · intro c hc t ht l hl
      obtain ⟨level, hlevel, hmem, _⟩ := hfirst c hc
      obtain ⟨text, htext⟩ := hread level hlevel
      refine ⟨isName_of_read htext c hmem t ht l hl, ?_⟩
      rintro rfl
      rcases hnames with hdefined | hnames
      · cases hdefined
      · exact hnames level hlevel c hmem t ht l hl
    · rw [length_firstConditions]
      refine hshape.imp_left fun hone c hc => ?_
      obtain ⟨level, hlevel, hmem, _⟩ := hfirst c hc
      exact hone level hlevel c hmem

end Describing

/-- An index with a condition of two literals for a unit, and one of its
directory. -/
def fullIndex : String := "unit_pc lib/a.o B && !C\nsubdir_pc lib A"

theorem locatedTexts_fullIndex :
    locatedTexts fullIndex.toList ⟨.relative, ["lib", "a.o"]⟩ = ["B && !C", "A"] := by
  decide +kernel

/-- A condition of two literals, `B && !C`. -/
def oneWithoutOther (d : Dialect) : Condition :=
  Condition.ofTerms d [Term.ofList [⟨"B", false, Condition.isFeatureName_B⟩,
    ⟨"C", true, isFeatureName_C⟩]]

theorem readLevels_fullIndex : readLevels smallBuild.reader ["B && !C", "A"] =
    .ok [[oneWithoutOther .plain, oneWithoutOther .defined],
      [oneFeature .plain "A" (by decide), oneFeature .defined "A" (by decide)]] := by
  have hunit : smallBuild.reader.read "B && !C" =
      .ok [oneWithoutOther .plain, oneWithoutOther .defined] := by decide +kernel
  unfold readLevels readLevels readLevels
  simp only [hunit, read_directory_smallIndex, Except.map]

theorem sees_fullIndex :
    (smallBuild.scanner "/lib/a.c").Sees (project fullIndex) ⟨.relative, ["lib", "a.o"]⟩
      fullIndex.toList := by
  refine sees_project (by decide +kernel) fun entry hentry => ?_
  rw [locatedTexts_fullIndex] at hentry
  rcases List.mem_pair.mp hentry with rfl | rfl
  · exact exists_of_isOk (by decide +kernel)
  · exact ⟨_, read_directory_smallIndex⟩

/-- The conditions of a file and of its directory are described, with the index
gone by then, by a text that is read as what they combine to. -/
theorem kept_unit_and_directory_conditions_are_described :
    let s := smallBuild.scanner "/lib/a.c"
    let turns : List (Turn Request) :=
      [.ask (.about .locate), .change fun w => (w.delete (Path.ofString "/index")).1]
    let x := (opening (project fullIndex) History.empty).after (s.ask 0) turns
    ∃ text combined, (s.describe x.files 0 x.state).answer = .ok text ∧
      (s.combine x.files 0 x.state (.always .plain)).answer = .ok combined ∧
      parse .plain true text = .ok combined ∧ text = "B && !C&&A" ∧
      combined.render = "B && !C && A" := by
  intro s turns x
  have hlevels := sees_fullIndex.locate_of_readLevels
    (locatedTexts_fullIndex ▸ readLevels_fullIndex) 0 History.empty
  have hlocated : (s.locate x.files 0 x.state).answer = .ok _ :=
    answer_locate_of_scanned (state_locate hlevels)
  obtain ⟨text, combined, htext, hcombined, hparse⟩ :=
    a_description_is_parsed_as_what_it_combines_to
      (show s.reader.dialects = .plain :: [.defined] from rfl) (by decide) (show x = _ from rfl)
      hlocated (.inr (by decide +kernel)) (.inl (by decide +kernel))
  have hsame := Except.ok.inj (hcombined.symm.trans (answer_combine hlocated _))
  refine ⟨text, combined, htext, hcombined, hparse, ?_, ?_⟩
  · unfold describe at htext
    simp only [hlocated, Except.map, Except.ok.injEq] at htext
    rw [← htext]
    decide +kernel
  · rw [hsame]
    decide +kernel

end Scanner

end BuildIndex

end Variability
