-- The names of a feature model. A name is the feature of the last variable that
-- carries it; an earlier one with the name is lost, so all named variables are
-- features only if no two of them share a name.
import Mathlib.Data.List.Perm.Subperm
import Mathlib.Tactic.TFAE
import Variability.Proofs.Exactness
import Variability.Proofs.Files
import Variability.Proofs.Products
import Variability.Proofs.Validity

namespace Variability

open Cnf

/-! ## Variables that carry a name -/

/-- The variables that carry a name. -/
def Cnf.Document.carriers (d : Document) (name : String) : Set Int :=
  {x | d.names.get? x = some name}

section Carriers

variable {d : Document} {name : String} {x : Int} {text : List Char}

theorem mem_carriers : x ∈ d.carriers name ↔ (x, name) ∈ d.names.entries :=
  ⟨Table.mem_of_get?, Table.get?_of_mem⟩

theorem exists_carried_iff : (∃ name, x ∈ d.carriers name) ↔ x ∈ d.names.keys := by
  unfold Table.keys
  simp [mem_carriers]

/-- In a formula that is read the variables that carry a name are those that a
comment names. -/
theorem mem_keys_of_readDimacs (h : readDimacs text = .ok d) : x ∈ d.names.keys ↔
    ∃ line ∈ Text.lines text, ∃ id name, NamesVariable line id name ∧ x = id := by
  cases hread : readLines 1 .start (Text.lines text) with
  | error e => simp [readDimacs, hread] at h
  | ok p =>
    by_cases hopen : p.current = []
    · rw [readDimacs_of_readLines hread hopen] at h
      cases hparts : Document.ofParts (variableCount p.header p.clauses.reverse p.names)
          p.clauses.reverse p.names with
      | error violations =>
        rw [hparts] at h
        cases h
      | ok found =>
        rw [hparts] at h
        cases h
        rw [(ofParts_eq_ok_iff.mp hparts).2.2, (readFrom_of_readLines hread).mem_keys_iff]
    · simp [readDimacs, hread, hopen] at h

end Carriers

/-! ## Features -/

/-- In an ascending list the last value of a key is its greatest. -/
theorem lastValue?_ascending {κ : Type} [DecidableEq κ] {l : List (κ × Int)} {k : κ} {x : Int}
    (h : l.Pairwise fun p q => p.2 ≤ q.2) :
    Table.lastValue? l k = some x ↔ IsGreatest {y | (k, y) ∈ l} x := by
  have hgreatest : ∀ {x}, Table.lastValue? l k = some x → IsGreatest {y | (k, y) ∈ l} x := by
    intro x hx
    obtain ⟨p, hp, rfl⟩ := Option.map_eq_some_iff.mp hx
    obtain ⟨hkey, later, earlier, hsplit, hlater⟩ := List.find?_eq_some_iff_append.mp hp
    obtain rfl := of_decide_eq_true hkey
    have hl : l = earlier.reverse ++ (p :: later.reverse) := by
      rw [← List.reverse_reverse l, hsplit]
      simp
    refine ⟨by simp [hl], fun y hy => ?_⟩
    rw [Set.mem_ofPred_eq, hl, List.mem_append, List.mem_cons, List.mem_reverse,
      List.mem_reverse] at hy
    rcases hy with hearlier | hsame | hlast
    · rw [hl, List.pairwise_append] at h
      exact h.2.2 _ (List.mem_reverse.mpr hearlier) p List.mem_cons_self
    · rw [← hsame]
    · simpa using hlater _ hlast
  refine ⟨hgreatest, fun hx => ?_⟩
  obtain ⟨y, hy⟩ : ∃ y, Table.lastValue? l k = some y := by
    unfold Table.lastValue?
    rw [← Option.isSome_iff_exists, Option.isSome_map, List.find?_isSome]
    exact ⟨(k, x), List.mem_reverse.mpr hx.1, decide_eq_true rfl⟩
  rw [hy, (hgreatest hy).unique hx]

namespace FeatureModel

section Features

variable {m : FeatureModel} {name : String} {x : Int}

theorem get?_index_iff : m.index.get? name = some x ↔ (name, x) ∈ m.features := by
  unfold index
  rw [Index.get?_ofList]
  constructor
  · intro h
    obtain ⟨p, hp, rfl⟩ := Option.map_eq_some_iff.mp h
    obtain rfl : p.1 = name := by simpa using List.find?_some hp
    exact List.mem_of_find?_eq_some hp
  · intro h
    rw [find?_of_mem m.wellNumbered_features.names h]
    rfl

/-- A name is the feature of the last variable that carries it. -/
theorem get?_index_of_named (hnamed : m.document.names.entries ≠ []) :
    m.index.get? name = some x ↔ IsGreatest (m.document.carriers name) x := by
  have hcarriers : m.document.carriers name =
      {y | (name, y) ∈ (sortedNames m.document).map fun p => (p.2, p.1)} := by
    ext y
    rw [mem_carriers, Set.mem_ofPred_eq, List.mem_map]
    unfold sortedNames
    constructor
    · intro hy
      exact ⟨(y, name), List.mem_mergeSort.mpr hy, rfl⟩
    · rintro ⟨p, hp, hsame⟩
      cases hsame
      exact List.mem_mergeSort.mp hp
  rw [hcarriers, ← lastValue?_ascending, ← Table.get?_ofList]
  · unfold index features
    rw [if_neg hnamed, Index.get?_ofList]
    rfl
  · rw [List.pairwise_map]
    exact mergeSort_ascending _

theorem mem_entries_of_mem_features (hnamed : m.document.names.entries ≠ []) {p : String × Int}
    (hp : p ∈ m.features) : (p.2, p.1) ∈ m.document.names.entries :=
  mem_carriers.mp ((get?_index_of_named hnamed).mp (get?_index_iff.mpr hp)).1

/-- All named variables are features if and only if no two of them share a name,
that is if there are as many features as named variables. -/
theorem tfae_named_variables_are_features (hnamed : m.document.names.entries ≠ []) :
    List.TFAE [∀ name, ∀ x ∈ m.document.carriers name, m.index.get? name = some x,
      ∀ name, (m.document.carriers name).Subsingleton,
      m.features.length = m.document.names.size] := by
  have hnodup : (m.features.map Prod.swap).Nodup := by
    apply List.Nodup.of_map Prod.fst
    rw [List.map_map]
    exact m.wellNumbered_features.variables_nodup
  have hsub : m.features.map Prod.swap ⊆ m.document.names.entries := by
    intro q hq
    obtain ⟨p, hp, rfl⟩ := List.mem_map.mp hq
    exact mem_entries_of_mem_features hnamed hp
  have hless := List.subperm_of_subset hnodup hsub
  tfae_have 1 → 2 := by
    intro h name x hx y hy
    exact Option.some.inj ((h name x hx).symm.trans (h name y hy))
  tfae_have 2 → 3 := by
    intro h
    have hall : m.document.names.entries ⊆ m.features.map Prod.swap := by
      rintro ⟨x, name⟩ hp
      have hx : x ∈ m.document.carriers name := mem_carriers.mpr hp
      have hgreatest : IsGreatest (m.document.carriers name) x :=
        ⟨hx, fun y hy => (h name hy hx).le⟩
      exact List.mem_map.mpr ⟨(name, x),
        get?_index_iff.mp ((get?_index_of_named hnamed).mpr hgreatest), rfl⟩
    have hmore := List.subperm_of_subset (List.Nodup.of_map _ m.document.names.nodup) hall
    rw [← List.length_map Prod.swap]
    exact (hless.antisymm hmore).length_eq
  tfae_have 3 → 1 := by
    intro h name x hx
    have hperm := hless.perm_of_length_le (by rw [List.length_map, h]; rfl)
    obtain ⟨p, hp, hsame⟩ := List.mem_map.mp (hperm.mem_iff.mpr (mem_carriers.mp hx))
    cases hsame
    exact get?_index_iff.mpr hp
  tfae_finish

/-! ## Conditions -/

/-- Values that satisfy the encoding of a condition satisfy it with those of the
features. -/
theorem holds_of_encode {c : Condition} {v : Valuation} {a : Assignment}
    (h : clausesHold v (c.encode m).clauses = true)
    (hvalues : ∀ name ∈ c.features, ∃ x, m.index.get? name = some x ∧ a name = v x.natAbs) :
    c.holds a = true := by
  have hw := Encoding.wellNumbered_variableTable c m
  let index := Index.ofList (Encoding.variableTable c m)
  let read : Assignment := fun name => v (Encoding.variableOf index name).natAbs
  have hcarries : Encoding.Carries v (Encoding.variableTable c m) read := by
    intro p hp
    show v p.2.natAbs = v (Encoding.variableOf index p.1).natAbs
    rw [Encoding.variableOf_of_mem hw hp]
  have hread : c.holds read = true := by
    unfold Condition.encode at h
    rw [clausesHold_append, Bool.and_eq_true] at h
    exact Encoding.holds_of_conditionClauses hw hcarries (Encoding.covers_variableTable c m)
      (Encoding.firstSelector_pos c m) h.2
  rw [← hread]
  apply Condition.holds_congr
  intro name hname
  obtain ⟨x, hx, hvalue⟩ := hvalues name hname
  rw [hvalue]
  exact hcarries (name, x) (List.mem_append_left _ (get?_index_iff.mp hx))

/-- No configuration shows the variable, and no condition says anything about
it. -/
structure Lost (m : FeatureModel) (x : Int) : Prop where
  not_projected (c : Condition) : x ∉ (c.encode m).projection.map Prod.fst
  not_constrained (c : Condition) : ∀ cl ∈ (c.encode m).clauses,
    cl ∈ m.clauses ∨ ∀ l ∈ cl, l.natAbs ≠ x.natAbs

/-- A variable of the model that is no feature is lost. -/
theorem lost_of_not_feature (hx : 0 < x ∧ x ≤ m.varCount) (h : ∀ name, (name, x) ∉ m.features) :
    m.Lost x := by
  have hprojected : ∀ c : Condition, x ∉ (Encoding.variableTable c m).map Prod.snd := by
    intro c hmem
    obtain ⟨p, hp, rfl⟩ := List.mem_map.mp hmem
    rcases List.mem_append.mp hp with hknown | hunknown
    · exact h p.1 hknown
    · obtain ⟨i, _, hnew⟩ := Encoding.mem_numberFrom.mp hunknown
      omega
  constructor
  · intro c hmem
    obtain ⟨p, hp, rfl⟩ := List.mem_map.mp hmem
    exact hprojected c (List.mem_map_of_mem (Encoding.mem_projectionOf.mp hp))
  · intro c cl hcl
    rcases List.mem_append.mp hcl with hmodel | hcondition
    · exact Or.inl hmodel
    · right
      intro l hl heq
      obtain ⟨y, hy, hly⟩ := Encoding.variable_of_conditionClauses
        (Encoding.wellNumbered_variableTable c m) (Encoding.covers_variableTable c m) hcondition hl
      rcases List.mem_append.mp hy with htable | hselector
      · obtain ⟨p, hp, rfl⟩ := List.mem_map.mp htable
        have := ((Encoding.wellNumbered_variableTable c m).within p hp).1
        obtain rfl : x = p.2 := by omega
        exact hprojected c htable
      · have := Encoding.le_of_mem_selectorsOf hselector
        have hbehind : (m.varCount : Int) < Encoding.firstSelector c m := by
          unfold Encoding.firstSelector
          omega
        omega

end Features

/-- In a formula with a comment that names a variable, the named variables are
those with such a comment, and a name is the feature of the last variable that
carries it. All named variables are features of their names exactly if no two of
them carry one name, which is if there are as many features as named variables.
A variable that a later one shares its name with is lost. What satisfies the
encoding of a condition satisfies it, with the values of the last variables that
carry its names. -/
theorem a_named_variable_is_a_feature_unless_a_later_one_has_its_name {text : List Char}
    {d : Document} (hread : readDimacs text = .ok d)
    (hcomment : ∃ line ∈ Text.lines text, ∃ id name, NamesVariable line id name)
    (source : String) :
    let m : FeatureModel := ⟨d, source⟩
    (∀ x, (∃ name, x ∈ d.carriers name) ↔
      ∃ line ∈ Text.lines text, ∃ id name, NamesVariable line id name ∧ x = id) ∧
    (∀ name x, m.index.get? name = some x ↔ IsGreatest (d.carriers name) x) ∧
    List.TFAE [∀ name, ∀ x ∈ d.carriers name, m.index.get? name = some x,
      ∀ name, (d.carriers name).Subsingleton,
      m.features.length = d.names.size] ∧
    (∀ name, ∀ x ∈ d.carriers name, ¬ IsGreatest (d.carriers name) x → m.Lost x) ∧
    ∀ (c : Condition) (v : Valuation), clausesHold v (c.encode m).clauses = true →
      ∀ a : Assignment,
        (∀ name ∈ c.features, ∃ x, IsGreatest (d.carriers name) x ∧ a name = v x.natAbs) →
        c.holds a = true := by
  intro m
  have hnamed : m.document.names.entries ≠ [] := by
    obtain ⟨line, hline, id, name, hname⟩ := hcomment
    have hkey := (mem_keys_of_readDimacs hread).mpr ⟨line, hline, id, name, hname, rfl⟩
    rintro hnone
    rw [Table.keys, hnone] at hkey
    cases hkey
  have hfeature : ∀ name x, m.index.get? name = some x ↔ IsGreatest (d.carriers name) x :=
    fun _ _ => get?_index_of_named hnamed
  refine ⟨fun x => exists_carried_iff.trans (mem_keys_of_readDimacs hread), hfeature,
    tfae_named_variables_are_features hnamed, ?_, ?_⟩
  · intro name x hx hless
    have hwithin := d.names_within x (exists_carried_iff.mp ⟨name, hx⟩)
    refine lost_of_not_feature hwithin fun other hother => hless ?_
    have hname := Table.get?_of_mem (mem_entries_of_mem_features hnamed hother)
    obtain rfl : other = name := Option.some.inj (hname.symm.trans hx)
    exact (hfeature other x).mp (get?_index_iff.mpr hother)
  · intro c v h a hvalues
    refine holds_of_encode h fun name hname => ?_
    obtain ⟨x, hx, hvalue⟩ := hvalues name hname
    exact ⟨x, (hfeature name x).mpr hx, hvalue⟩

/-! ## Two variables with one name -/

/-- A formula in which two variables have one name. -/
def sharedName : List Char := "c 1 A\nc 2 A\n1 2 0".toList

/-- The condition that is the name alone. -/
def nameAlone : Condition :=
  Condition.ofTerms .plain [Term.ofList [⟨"A", false, Condition.isFeatureName_A⟩]]

theorem read_sharedName :
    ∃ d, readDimacs sharedName = .ok d ∧ d.names.entries = [(1, "A"), (2, "A")] ∧
      d.clauses = [[1, 2]] := by
  have hparts : (readDimacs sharedName).map (fun d => (d.names.entries, d.clauses)) =
      .ok ([(1, "A"), (2, "A")], [[1, 2]]) := by
    decide +kernel
  obtain ⟨d, hread, hd⟩ := exists_of_map_eq_ok hparts
  exact ⟨d, hread, Prod.mk.inj hd⟩

/-- The name is the feature of the second variable, which the condition asks
for. -/
theorem clauses_sharedName {d : Document} {source : String}
    (hentries : d.names.entries = [(1, "A"), (2, "A")]) (hclauses : d.clauses = [[1, 2]]) :
    (nameAlone.encode ⟨d, source⟩).clauses = [[1, 2], [2]] := by
  have hfeatures : (FeatureModel.mk d source).features = [("A", 2)] := by
    rw [features_of_ascending (by simp [hentries]) (by simp [hentries]), hentries]
    rfl
  have hsorted : nameAlone.sortedFeatures = ["A"] := List.mergeSort_singleton _
  have hunknown : Encoding.unknownFeatures nameAlone ⟨d, source⟩ = [] := by
    unfold Encoding.unknownFeatures index
    rw [hsorted, hfeatures]
    decide
  unfold Condition.encode Encoding.variableTable clauses
  rw [hfeatures, hunknown, hclauses]
  rfl

theorem namesVariable_sharedName :
    ∃ line ∈ Text.lines sharedName, ∃ id name, NamesVariable line id name := by
  have hform : NameForm "c 1 A".toList ['1'] ['A'] :=
    nameForm_of_namedVariable? (by decide +kernel)
  have hlines : Text.lines sharedName = ["c 1 A".toList, "c 2 A".toList, "1 2 0".toList] := by
    decide +kernel
  have hone : Text.readNatural ['1'] = .ok 1 := by decide +kernel
  rw [hlines]
  exact ⟨_, List.mem_cons_self, 1, ['A'], ['1'], hform, Text.readNatural_eq_ok_iff.mp hone⟩

/-- Of two variables with one name one is not the feature of its name. -/
theorem a_variable_that_shares_its_name_is_no_feature :
    ¬ ∀ (text : List Char) (d : Document) (source : String), readDimacs text = .ok d →
      (∃ line ∈ Text.lines text, ∃ id name, NamesVariable line id name) →
      ∀ name, ∀ x ∈ d.carriers name, (FeatureModel.mk d source).index.get? name = some x := by
  intro hall
  obtain ⟨d, hread, hentries, _⟩ := read_sharedName
  have hfeature := hall sharedName d "" hread namesVariable_sharedName "A"
  have hfirst := hfeature 1 (mem_carriers.mpr (by simp [hentries]))
  have hsecond := hfeature 2 (mem_carriers.mpr (by simp [hentries]))
  rw [hfirst] at hsecond
  cases hsecond

/-- The first of two variables with one name is lost: it can be false where the
condition that is the name is satisfied. -/
theorem the_first_of_two_variables_with_one_name_is_lost :
    ∃ d, readDimacs sharedName = .ok d ∧
      let m : FeatureModel := ⟨d, "<memory>"⟩
      m.index.get? "A" = some 2 ∧ m.features.length ≠ d.names.size ∧ m.Lost 1 ∧
      ∃ v : Valuation, v 1 = false ∧ clausesHold v (nameAlone.encode m).clauses = true := by
  obtain ⟨d, hread, hentries, hgiven⟩ := read_sharedName
  obtain ⟨_, hfeature, htfae, hlost, _⟩ :=
    a_named_variable_is_a_feature_unless_a_later_one_has_its_name hread namesVariable_sharedName
      "<memory>"
  have hcarriers : ∀ x, x ∈ d.carriers "A" ↔ x = 1 ∨ x = 2 := by
    intro x
    simp [mem_carriers, hentries]
  have hgreatest : IsGreatest (d.carriers "A") 2 := by
    refine ⟨(hcarriers 2).mpr (Or.inr rfl), fun x hx => ?_⟩
    have := (hcarriers x).mp hx
    omega
  refine ⟨d, hread, (hfeature "A" 2).mpr hgreatest, ?_, hlost "A" 1 ?_ ?_, ?_⟩
  · intro hlength
    have halone : ∀ name, (d.carriers name).Subsingleton := (htfae.out 2 1).mp hlength
    cases halone "A" ((hcarriers 1).mpr (Or.inl rfl)) hgreatest.1
  · exact (hcarriers 1).mpr (Or.inl rfl)
  · intro hfirst
    have := hfirst.2 hgreatest.1
    omega
  · have hclauses : (nameAlone.encode ⟨d, "<memory>"⟩).clauses = [[1, 2], [2]] :=
      clauses_sharedName hentries hgiven
    exact ⟨fun n => n = 2, by decide, hclauses ▸ by decide⟩

end FeatureModel

end Variability
