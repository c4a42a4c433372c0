-- The build condition of a file: what its located conditions come to before any
-- condition of a location is combined with them.
import Variability.Proofs.Construction

namespace Variability.BuildIndex

/-! ## The build condition -/

/-- Conjoined with a condition that is true, the located conditions of a dialect
are multiplied out for themselves. -/
theorem combineLevels_always (levels : List (List Condition)) (d : Dialect) :
    combineLevels levels (.always d) =
      Condition.product d ((levels.flatMap List.reverse).filter fun l => l.dialect = d) := by
  have hchoices : Condition.choices [.always d] = [Term.empty] :=
    Condition.termProducts_true_right _
  rw [combineLevels_eq_product]
  unfold Condition.product factors
  rw [Condition.choices_append, hchoices, Condition.termProducts_true_right]
  rfl

/-- The located conditions can be conjoined first and the condition of a
location behind them. -/
theorem combineLevels_always_conjoin (levels : List (List Condition)) (pc : Condition) :
    (combineLevels levels (.always pc.dialect)).conjoin pc = .ok (combineLevels levels pc) := by
  have hproduct := Condition.conjoin_product pc.dialect
    ((levels.flatMap List.reverse).filter fun l => l.dialect = pc.dialect) [pc]
  rw [Condition.product_single] at hproduct
  rw [combineLevels_always, hproduct, combineLevels_eq_product]
  rfl

namespace Scanner

section Combining

variable {s : Scanner} {w : Workspace} {owner : Nat} {before : Scanning}
  {levels : List (List Condition)}

theorem state_locate (h : (s.locate w owner before).answer = .ok levels) :
    (s.locate w owner before).state.state = .scanned levels := by
  unfold locate at h ⊢
  split
  · rename_i kept hkept
    simp only [hkept, Except.ok.injEq] at h
    rw [hkept, h]
  · rename_i hunscanned
    simp only [hunscanned] at h
    split
    · rename_i hlook
      simp [hlook] at h
    · rename_i found count events hlook
      simp only [hlook, Except.ok.injEq] at h
      rw [h]

theorem answer_locate_of_scanned (h : before.state = .scanned levels) :
    (s.locate w owner before).answer = .ok levels := by
  unfold locate
  simp only [h]

/-- What has been located is kept for whatever is combined later. -/
theorem answer_combine_later (h : (s.locate w owner before).answer = .ok levels)
    (pc later : Condition) (w' : Workspace) :
    (s.combine w' owner (s.combine w owner before pc).state later).answer =
      .ok (combineLevels levels later) :=
  answer_combine (answer_locate_of_scanned (state_locate h)) later

end Combining

/-- Where the conditions of a file are located, there is one build condition for
each dialect: what the condition that is true combines to. Every condition of
the dialect combines to the conjunction of the build condition and itself, term
by term and literal by literal, whether the scanner is asked at once or later,
whatever has become of the files. -/
theorem all_locations_of_a_file_share_one_build_condition {s : Scanner} {w : Workspace}
    {owner : Nat} {before : Scanning} {levels : List (List Condition)}
    (h : (s.locate w owner before).answer = .ok levels) (d : Dialect) :
    ∃ build, (s.combine w owner before (.always d)).answer = .ok build ∧ build.dialect = d ∧
      ∀ pc : Condition, pc.dialect = d →
        ∃ combined, (s.combine w owner before pc).answer = .ok combined ∧
          build.conjoin pc = .ok combined ∧
          ∀ w' : Workspace, (s.combine w' owner
            (s.combine w owner before (.always d)).state pc).answer = .ok combined := by
  refine ⟨combineLevels levels (.always d), answer_combine h _, (combineLevels_spec levels _).1, ?_⟩
  rintro pc rfl
  exact ⟨combineLevels levels pc, answer_combine h pc, combineLevels_always_conjoin levels pc,
    answer_combine_later h _ pc⟩

theorem isFeatureName_C : isFeatureName "C" = true := by decide

/-- `B || !A && C`. -/
def featureOrContradiction : Condition :=
  Condition.ofTerms .plain [Term.ofList [⟨"B", false, Condition.isFeatureName_B⟩],
    Term.ofList [⟨"A", true, Condition.isFeatureName_A⟩, ⟨"C", false, isFeatureName_C⟩]]

theorem readLevels_smallIndex : readLevels smallBuild.reader ["", "A"] =
    .ok [[], [oneFeature .plain "A" (by decide), oneFeature .defined "A" (by decide)]] := by
  have hunit : smallBuild.reader.read "" = .ok [] := rfl
  unfold readLevels readLevels readLevels
  simp only [hunit, read_directory_smallIndex, Except.map]

/-- The build condition of a file of the small project contradicts one of two
terms. -/
theorem two_terms_share_the_build_condition_of_a_file :
    let s := smallBuild.scanner "/lib/a.c"
    let before : Scanning := ⟨.unscanned, History.empty⟩
    ∃ build combined, (s.combine smallProject 0 before (.always .plain)).answer = .ok build ∧
      (s.combine smallProject 0 before featureOrContradiction).answer = .ok combined ∧
      build.conjoin featureOrContradiction = .ok combined ∧ build.render = "A" ∧
      featureOrContradiction.render = "B || (!A && C)" ∧ combined.render = "A && B" := by
  intro s before
  have hlevels := sees_smallProject.locate_of_readLevels
    (locatedTexts_smallIndex ▸ readLevels_smallIndex) 0 History.empty
  obtain ⟨build, hbuild, _, hall⟩ :=
    all_locations_of_a_file_share_one_build_condition hlevels .plain
  obtain ⟨combined, hcombined, hconjoined, _⟩ := hall featureOrContradiction rfl
  have hbuilt := Except.ok.inj (hbuild.symm.trans (answer_combine hlevels _))
  have hsame := Except.ok.inj (hcombined.symm.trans (answer_combine hlevels _))
  refine ⟨build, combined, hbuild, hcombined, hconjoined, ?_, ?_, ?_⟩
  · rw [hbuilt]
    decide +kernel
  · decide +kernel
  · rw [hsame]
    decide +kernel

end Scanner

end Variability.BuildIndex
