-- Combining a condition with the build: the located conditions of its dialect
-- are conjoined with it, and no others.
import Variability.Proofs.Acceptance
import Variability.Proofs.Pipeline

namespace Variability.BuildIndex

/-! ## Conjunctions that are tried -/

/-- Conjoins a located condition in front of another if the two are
compatible. -/
def joinCompatible (c located : Condition) : Except Incompatible Condition :=
  if located.compatible c then located.conjoin c else .ok c

/-- No conjunction that is tried fails. -/
theorem joinCompatible_eq (c located : Condition) :
    joinCompatible c located = .ok (joinFront c located) := by
  unfold joinCompatible Condition.compatible
  by_cases h : located.dialect = c.dialect
  · obtain ⟨joined, hjoined, _⟩ := Condition.conjoin_of_dialect h
    unfold joinFront
    rw [if_pos (by simpa using h), hjoined]
  · rw [if_neg (by simpa using h), joinFront_of_dialect_ne h]

theorem foldlM_joinCompatible (located : List Condition) (c : Condition) :
    located.foldlM joinCompatible c = .ok (located.foldl joinFront c) := by
  have hjoin : joinCompatible = fun c located => pure (joinFront c located) :=
    funext fun c => funext fun located => joinCompatible_eq c located
  rw [hjoin, List.foldlM_pure]
  rfl

/-- Combining is conjoining with whatever is compatible with the result so far,
and never fails. -/
theorem foldlM_levels (levels : List (List Condition)) (c : Condition) :
    levels.reverse.foldlM (fun c level => level.foldlM joinCompatible c) c =
      .ok (combineLevels levels c) := by
  simp only [foldlM_joinCompatible]
  exact List.foldlM_pure

/-! ## Other dialects -/

theorem foldl_joinFront_filter (located : List Condition) (c : Condition) :
    located.foldl joinFront c =
      (located.filter fun l => l.dialect = c.dialect).foldl joinFront c := by
  induction located generalizing c with
  | nil => rfl
  | cons l located ih =>
    rw [List.foldl_cons, ih, (joinFront_spec c l).1]
    by_cases h : l.dialect = c.dialect
    · rw [List.filter_cons_of_pos (by simpa using h), List.foldl_cons]
    · rw [List.filter_cons_of_neg (by simpa using h), joinFront_of_dialect_ne h]

/-- Only the located conditions of the same dialect count. -/
theorem combineLevels_filter (levels : List (List Condition)) (c : Condition) :
    combineLevels levels c =
      combineLevels (levels.map (List.filter fun l => l.dialect = c.dialect)) c := by
  rw [combineLevels_eq_foldl, combineLevels_eq_foldl, foldl_joinFront_filter, List.filter_flatten,
    List.map_reverse]

theorem combineLevels_of_dialect_ne {levels : List (List Condition)} {c : Condition}
    (h : ∀ level ∈ levels, ∀ l ∈ level, l.dialect ≠ c.dialect) : combineLevels levels c = c := by
  have hnone : (levels.reverse.flatten.filter fun l => l.dialect = c.dialect) = [] := by
    rw [List.filter_eq_nil_iff]
    intro l hl
    obtain ⟨level, hlevel, hmem⟩ := List.mem_flatten.mp hl
    simpa using h level (List.mem_reverse.mp hlevel) l hmem
  rw [combineLevels_eq_foldl, foldl_joinFront_filter, hnone]
  rfl

/-! ## What is located -/

namespace Scanner

/-- A condition that the index has for the compiled unit of a file, or for a
directory above it. -/
def Locates (s : Scanner) (w : Workspace) (located : Condition) : Prop :=
  ∃ keys found, s.keys w = .ok keys ∧ (scan w s.index.text keys).1 = .ok found ∧
    ∃ key ∈ keys, ∃ text level, found[key]? = some text ∧ s.reader.read text = .ok level ∧
      located ∈ level

theorem mem_readLevels {r : ConditionReader} {texts : List String}
    {levels : List (List Condition)} (h : readLevels r texts = .ok levels)
    (level : List Condition) : level ∈ levels ↔ ∃ text ∈ texts, r.read text = .ok level := by
  induction texts generalizing levels with
  | nil =>
    cases h
    simp
  | cons text texts ih =>
    unfold readLevels at h
    cases hread : r.read text with
    | error e =>
      rw [hread] at h
      cases h
    | ok first =>
      cases hrest : readLevels r texts with
      | error e =>
        rw [hread, hrest] at h
        cases h
      | ok others =>
        rw [hread, hrest] at h
        cases h
        simp [ih hrest, hread, eq_comm]

section Locating

variable {s : Scanner} {w : Workspace} {owner : Nat} {before : Scanning}
  {levels : List (List Condition)}

theorem exists_of_lookUp {count : Nat} (h : (s.lookUp w).1 = .ok (levels, count)) :
    ∃ keys found, s.keys w = .ok keys ∧ (scan w s.index.text keys).1 = .ok found ∧
      readLevels s.reader (foundTexts keys found) = .ok levels := by
  unfold lookUp at h
  split at h
  · cases h
  · rename_i keys hkeys
    split at h
    · cases h
    · rename_i found events hscan
      split at h
      · cases h
      · rename_i hread
        cases h
        refine ⟨keys, found, hkeys, ?_, hread⟩
        rw [hscan]

theorem exists_lookUp_of_locate (hbefore : before.state = .unscanned)
    (h : (s.locate w owner before).answer = .ok levels) :
    ∃ count, (s.lookUp w).1 = .ok (levels, count) := by
  unfold locate at h
  simp only [hbefore] at h
  split at h
  · cases h
  · rename_i others count events hlook
    cases h
    exact ⟨count, by rw [hlook]⟩

/-- A scanner that has located nothing yet locates the conditions of all its
keys. -/
theorem mem_levels_of_locate (hbefore : before.state = .unscanned)
    (h : (s.locate w owner before).answer = .ok levels) (located : Condition) :
    (∃ level ∈ levels, located ∈ level) ↔ s.Locates w located := by
  obtain ⟨count, hlook⟩ := exists_lookUp_of_locate hbefore h
  obtain ⟨keys, found, hkeys, hscan, hread⟩ := exists_of_lookUp hlook
  unfold Locates
  simp only [mem_readLevels hread, foundTexts, List.mem_filterMap]
  constructor
  · rintro ⟨level, ⟨text, ⟨key, hkey, htext⟩, hlevel⟩, hlocated⟩
    exact ⟨keys, found, hkeys, hscan, key, hkey, text, level, htext, hlevel, hlocated⟩
  · rintro ⟨keys', found', hkeys', hscan', key, hkey, text, level, htext, hlevel, hlocated⟩
    rw [hkeys] at hkeys'
    cases hkeys'
    rw [hscan] at hscan'
    cases hscan'
    exact ⟨level, ⟨text, ⟨key, hkey, htext⟩, hlevel⟩, hlocated⟩

end Locating

/-! ## Combining -/

/-- Where the conditions of a file are located, combining succeeds: no two
dialects are conjoined, the result is of the dialect of the given condition, and
holds exactly where that and each located condition of its dialect hold. -/
theorem combining_conjoins_exactly_the_located_conditions_of_the_dialect
    {s : Scanner} {w : Workspace} {owner : Nat} {before : Scanning}
    {levels : List (List Condition)} (h : (s.locate w owner before).answer = .ok levels)
    (pc : Condition) :
    ∃ combined, (s.combine w owner before pc).answer = .ok combined ∧
      levels.reverse.foldlM (fun c level => level.foldlM joinCompatible c) pc = .ok combined ∧
      combined.dialect = pc.dialect ∧
      (∀ a : Assignment, combined.holds a = true ↔
        pc.holds a = true ∧ ∀ level ∈ levels, ∀ located ∈ level,
          located.dialect = pc.dialect → located.holds a = true) ∧
      combined = combineLevels (levels.map (List.filter fun l => l.dialect = pc.dialect)) pc ∧
      ((∀ level ∈ levels, ∀ located ∈ level, located.dialect ≠ pc.dialect) → combined = pc) ∧
      (before.state = .unscanned →
        ∀ located, (∃ level ∈ levels, located ∈ level) ↔ s.Locates w located) := by
  obtain ⟨hdialect, hholds⟩ := combineLevels_spec levels pc
  refine ⟨combineLevels levels pc, answer_combine h pc, foldlM_levels levels pc, hdialect, hholds,
    combineLevels_filter levels pc, combineLevels_of_dialect_ne, ?_⟩
  intro hbefore
  exact mem_levels_of_locate hbefore h

/-- The condition that is one feature. -/
def oneFeature (d : Dialect) (name : String) (valid : isFeatureName name = true) : Condition :=
  Condition.ofTerms d [Term.ofList [⟨name, false, valid⟩]]

@[simp] theorem dialect_oneFeature {d : Dialect} {name : String}
    {valid : isFeatureName name = true} : (oneFeature d name valid).dialect = d := rfl

@[simp] theorem holds_oneFeature {d : Dialect} {name : String} {valid : isFeatureName name = true}
    (a : Assignment) : (oneFeature d name valid).holds a = a name := by
  unfold oneFeature
  rw [Condition.holds_ofTerms, List.any_cons, List.any_nil, Bool.or_false, Term.holds_ofList,
    List.all_cons, List.all_nil, Bool.and_true]
  exact Bool.bne_false _

theorem read_directory_smallIndex : smallBuild.reader.read "A" =
    .ok [oneFeature .plain "A" (by decide), oneFeature .defined "A" (by decide)] := by
  have hatom : WritesAtom true ['A'] (.feature "A" (by decide)) :=
    .feature _ (.bare ⟨by simp, List.forall_mem_singleton.mpr (by decide)⟩ (by decide))
  have hwrites : WritesTerms true "A".toList [[⟨0, .feature "A" (by decide)⟩]] :=
    .bare (.one (.bare (.one (.bare (.atom hatom)))))
  have hterms : Condition.parseTerms smallBuild.reader.numericConstants "A" = _ :=
    Condition.parseTerms_of_writes hwrites
  unfold ConditionReader.read
  rw [if_neg (by decide), hterms]
  rfl

/-- A file of the small project has no condition of its own; that of its
directory is conjoined in the dialect it is asked for. -/
theorem a_file_combines_with_its_directory :
    let s := smallBuild.scanner "/lib/a.c"
    let pc := oneFeature .defined "C" (by decide)
    ∃ levels combined,
      (s.locate smallProject 0 ⟨.unscanned, History.empty⟩).answer = .ok levels ∧
      (s.combine smallProject 0 ⟨.unscanned, History.empty⟩ pc).answer = .ok combined ∧
      combined.dialect = .defined ∧
      ∀ a : Assignment, combined.holds a = true ↔ a "C" = true ∧ a "A" = true := by
  intro s pc
  obtain ⟨levels, hlevels, hmem⟩ := sees_smallProject.locate 0 History.empty
  obtain ⟨combined, hcombined, _, hdialect, hholds, _⟩ :=
    combining_conjoins_exactly_the_located_conditions_of_the_dialect hlevels pc
  have hunit : smallBuild.reader.read "" = .ok [] := rfl
  refine ⟨levels, combined, hlevels, hcombined, hdialect, ?_⟩
  intro a
  rw [locatedTexts_smallIndex] at hmem
  have hlevel : ∀ level, level ∈ levels ↔ level = [] ∨
      level = [oneFeature .plain "A" (by decide), oneFeature .defined "A" (by decide)] := by
    intro level
    have hread : smallBuild.reader.read = (smallBuild.scanner "/lib/a.c").reader.read := rfl
    rw [hmem, ← hread]
    simp [hunit, read_directory_smallIndex, eq_comm]
  rw [hholds a]
  simp only [hlevel, forall_eq_or_imp, forall_eq]
  simp [pc]

end Scanner

end Variability.BuildIndex
