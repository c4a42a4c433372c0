-- The meaning of conditions: the normal form changes no truth value, a
-- conjunction holds where both sides hold, and the located conditions of a
-- file are joined to a condition of their dialect one by one.
import Variability.BuildIndex.Scanner

namespace Variability

/-! ## Terms -/

namespace Term

theorem holds_iff {a : Assignment} {t : Term} :
    t.holds a = true ↔ ∀ l ∈ t.literals, l.holds a = true := by
  simp [holds, List.all_eq_true]

theorem holds_ofList (a : Assignment) (ls : List Literal) :
    (ofList ls).holds a = ls.all (·.holds a) := by
  rw [Bool.eq_iff_iff, holds_iff, List.all_eq_true]
  simp only [ofList, mem_distinct]

@[simp] theorem holds_empty (a : Assignment) : empty.holds a = true := rfl

/-- A term that contradicts itself never holds. -/
theorem holds_of_contradictory {t : Term} (h : t.isContradictory = true) (a : Assignment) :
    t.holds a = false := by
  rw [isContradictory_eq, List.any_eq_true] at h
  obtain ⟨l, hl, hn⟩ := h
  rw [List.contains_iff_mem] at hn
  rw [Bool.eq_false_iff]
  intro ht
  have h1 := holds_iff.mp ht l hl
  have h2 := holds_iff.mp ht l.negate hn
  rw [Literal.holds_negate, h1] at h2
  simp at h2

/-- A term reads nothing but the features of its literals. -/
theorem holds_congr {a b : Assignment} {t : Term} (h : ∀ l ∈ t.literals, a l.name = b l.name) :
    t.holds a = t.holds b := by
  unfold holds Literal.holds
  rw [Bool.eq_iff_iff, List.all_eq_true, List.all_eq_true]
  constructor
  · intro ha l hl
    rw [← h l hl]
    exact ha l hl
  · intro hb l hl
    rw [h l hl]
    exact hb l hl

end Term

/-! ## The normal form -/

/-- Dropping terms that never hold and terms that repeat changes no truth
value. -/
theorem any_holds_normalizeTerms (a : Assignment) (ts : List Term) :
    (normalizeTerms ts).any (·.holds a) = ts.any (·.holds a) := by
  have hkept : (consistentTerms ts).any (·.holds a) = ts.any (·.holds a) := by
    rw [Bool.eq_iff_iff, List.any_eq_true, List.any_eq_true]
    constructor
    · rintro ⟨t, ht, hold⟩
      exact ⟨t, (mem_consistentTerms.mp ht).1, hold⟩
    · rintro ⟨t, ht, hold⟩
      refine ⟨t, mem_consistentTerms.mpr ⟨ht, ?_⟩, hold⟩
      rw [Bool.eq_false_iff]
      intro hc
      rw [Term.holds_of_contradictory hc] at hold
      simp at hold
  unfold normalizeTerms
  split
  · rename_i he
    obtain ⟨t, ht, hempty⟩ := List.any_eq_true.mp he
    rw [Term.isEmpty_iff] at hempty
    subst hempty
    rw [← hkept, List.any_eq_true.mpr ⟨_, ht, Term.holds_empty a⟩]
    simp
  · exact hkept

namespace Condition

theorem holds_iff {a : Assignment} {c : Condition} :
    c.holds a = true ↔ ∃ t ∈ c.terms, t.holds a = true := by
  simp [holds, List.any_eq_true]

theorem holds_ofTerms (a : Assignment) (d : Dialect) (ts : List Term) :
    (ofTerms d ts).holds a = ts.any (·.holds a) :=
  any_holds_normalizeTerms a ts

theorem holds_of_isTrue {c : Condition} (h : c.isTrue = true) (a : Assignment) :
    c.holds a = true := by
  unfold isTrue at h
  unfold holds
  rw [of_decide_eq_true h]
  simp

theorem holds_of_isFalse {c : Condition} (h : c.isFalse = true) (a : Assignment) :
    c.holds a = false := by
  unfold isFalse at h
  unfold holds
  rw [List.isEmpty_iff.mp h]
  rfl

theorem mem_features {c : Condition} {name : String} :
    name ∈ c.features ↔ ∃ t ∈ c.terms, ∃ l ∈ t.literals, l.name = name := by
  unfold features
  rw [mem_distinct]
  simp

/-- A condition reads nothing but its features. -/
theorem holds_congr {a b : Assignment} {c : Condition} (h : ∀ name ∈ c.features, a name = b name) :
    c.holds a = c.holds b := by
  have hterm : ∀ t ∈ c.terms, t.holds a = t.holds b := by
    intro t ht
    apply Term.holds_congr
    intro l hl
    exact h l.name (mem_features.mpr ⟨t, ht, l, hl, rfl⟩)
  rw [Bool.eq_iff_iff, holds_iff, holds_iff]
  constructor
  · rintro ⟨t, ht, hold⟩
    exact ⟨t, ht, by rw [← hterm t ht]; exact hold⟩
  · rintro ⟨t, ht, hold⟩
    exact ⟨t, ht, by rw [hterm t ht]; exact hold⟩

/-! ## Terms in normal form -/

section NormalForms

variable {ts : List Term}

theorem normalizeTerms_of_normal (h : NormalTerms ts) : normalizeTerms ts = ts := by
  have hkept : consistentTerms ts = ts := by
    unfold consistentTerms
    rw [List.filter_eq_self.mpr, distinct_eq_self h.nodup]
    intro t ht
    simp [h.consistent t ht]
  unfold normalizeTerms
  rw [hkept]
  split
  · rename_i hempty
    obtain ⟨t, ht, hnone⟩ := List.any_eq_true.mp hempty
    obtain rfl := Term.isEmpty_iff.mp hnone
    exact (h.empty_alone ht).symm
  · rfl

theorem ofTerms_terms (c : Condition) : ofTerms c.dialect c.terms = c :=
  ext rfl (normalizeTerms_of_normal c.normal)

/-- Of terms that are consistent, all are kept, or the empty one alone. -/
theorem mem_normalizeTerms {t : Term} :
    t ∈ normalizeTerms ts ↔
      t ∈ ts ∧ t.isContradictory = false ∧ (Term.empty ∈ ts → t = Term.empty) := by
  have hany : (consistentTerms ts).any Term.isEmpty = true ↔ Term.empty ∈ ts := by
    rw [List.any_eq_true]
    constructor
    · rintro ⟨s, hs, hempty⟩
      exact Term.isEmpty_iff.mp hempty ▸ (mem_consistentTerms.mp hs).1
    · intro hempty
      exact ⟨_, mem_consistentTerms.mpr ⟨hempty, Term.empty_not_contradictory⟩, rfl⟩
  unfold normalizeTerms
  split
  · rename_i hempty
    have hempty := hany.mp hempty
    rw [List.mem_singleton]
    constructor
    · rintro rfl
      exact ⟨hempty, Term.empty_not_contradictory, fun _ => rfl⟩
    · rintro ⟨_, _, honly⟩
      exact honly hempty
  · rename_i hempty
    rw [mem_consistentTerms]
    constructor
    · rintro ⟨ht, hc⟩
      exact ⟨ht, hc, fun h => absurd (hany.mpr h) hempty⟩
    · rintro ⟨ht, hc, _⟩
      exact ⟨ht, hc⟩

theorem mem_of_mem_ofTerms {d : Dialect} {t : Term} (h : t ∈ (ofTerms d ts).terms) : t ∈ ts :=
  (mem_normalizeTerms.mp h).1

end NormalForms

/-! ## Conjunction -/

theorem any_holds_termProducts (a : Assignment) (ss ts : List Term) :
    (termProducts ss ts).any (·.holds a) = (ss.any (·.holds a) && ts.any (·.holds a)) := by
  rw [Bool.eq_iff_iff]
  simp only [termProducts, List.any_eq_true, List.mem_flatMap, List.mem_map, Bool.and_eq_true]
  constructor
  · rintro ⟨_, ⟨s, hs, t, ht, rfl⟩, hold⟩
    rw [Term.holds_ofList, List.all_append, Bool.and_eq_true] at hold
    exact ⟨⟨s, hs, hold.1⟩, ⟨t, ht, hold.2⟩⟩
  · rintro ⟨⟨s, hs, hsa⟩, ⟨t, ht, hta⟩⟩
    refine ⟨_, ⟨s, hs, t, ht, rfl⟩, ?_⟩
    rw [Term.holds_ofList, List.all_append, Bool.and_eq_true]
    exact ⟨hsa, hta⟩

/-- Conditions of one dialect have a conjunction, which holds where both
hold. -/
theorem conjoin_of_dialect {a b : Condition} (h : a.dialect = b.dialect) :
    ∃ c, a.conjoin b = .ok c ∧ c.dialect = b.dialect ∧
      ∀ s : Assignment, c.holds s = (a.holds s && b.holds s) := by
  unfold conjoin
  rw [if_neg (by simpa using h)]
  split
  · rename_i ht
    refine ⟨b, rfl, rfl, ?_⟩
    intro s
    rw [holds_of_isTrue ht, Bool.true_and]
  · split
    · rename_i ht
      refine ⟨a, rfl, h, ?_⟩
      intro s
      rw [holds_of_isTrue ht, Bool.and_true]
    · refine ⟨_, rfl, h, ?_⟩
      intro s
      rw [holds_ofTerms, any_holds_termProducts]
      rfl

theorem conjoin_of_dialect_ne {a b : Condition} (h : a.dialect ≠ b.dialect) :
    a.conjoin b = .error ⟨a.dialect, b.dialect⟩ := by
  unfold conjoin
  rw [if_pos h]

/-- The truth values in a table. A feature that it does not mention is
deselected. -/
def valuesIn (given : Table String Bool) : PartialAssignment :=
  fun name => some ((given.get? name).getD false)

/-- Two conditions of one dialect have a conjunction, of their dialect, that
holds exactly where both hold, also under values that are not given for every
feature. Conditions of different dialects have none, whatever they say. -/
theorem a_conjunction_holds_exactly_where_both_sides_hold (a b : Condition) :
    (a.dialect = b.dialect → ∃ c, a.conjoin b = .ok c ∧ c.dialect = a.dialect ∧
      (∀ s : Assignment, c.holds s = (a.holds s && b.holds s)) ∧
      ∀ given : Table String Bool, c.agrees (valuesIn given) =
        (a.agrees (valuesIn given) && b.agrees (valuesIn given))) ∧
    (a.dialect ≠ b.dialect → a.conjoin b = .error ⟨a.dialect, b.dialect⟩) := by
  constructor
  · intro hsame
    obtain ⟨c, hc, hdialect, hholds⟩ := conjoin_of_dialect hsame
    refine ⟨c, hc, hdialect.trans hsame.symm, hholds, ?_⟩
    intro given
    unfold valuesIn
    rw [agrees_some, agrees_some, agrees_some]
    exact hholds _
  · intro hdifferent
    exact conjoin_of_dialect_ne hdifferent

example : (always .plain).conjoin (never .defined) = .error ⟨.plain, .defined⟩ := rfl

end Condition

/-! ## Located conditions -/

namespace BuildIndex

theorem joinFront_of_dialect_ne {c located : Condition} (h : located.dialect ≠ c.dialect) :
    joinFront c located = c := by
  unfold joinFront
  rw [Condition.conjoin_of_dialect_ne h]

/-- Joining one located condition: one of another dialect changes nothing. -/
theorem joinFront_spec (c located : Condition) :
    (joinFront c located).dialect = c.dialect ∧
      ∀ a : Assignment, (joinFront c located).holds a = true ↔
        c.holds a = true ∧ (located.dialect = c.dialect → located.holds a = true) := by
  by_cases h : located.dialect = c.dialect
  · obtain ⟨joined, hj, hd, hh⟩ := Condition.conjoin_of_dialect h
    unfold joinFront
    rw [hj]
    refine ⟨hd, ?_⟩
    intro a
    simp only [hh a, Bool.and_eq_true]
    exact ⟨fun hb => ⟨hb.2, fun _ => hb.1⟩, fun hb => ⟨hb.2 h, hb.1⟩⟩
  · rw [joinFront_of_dialect_ne h]
    refine ⟨rfl, ?_⟩
    intro a
    exact ⟨fun hc => ⟨hc, fun hd => absurd hd h⟩, fun hc => hc.1⟩

theorem foldl_joinFront_spec (located : List Condition) (c : Condition) :
    (located.foldl joinFront c).dialect = c.dialect ∧
      ∀ a : Assignment, (located.foldl joinFront c).holds a = true ↔
        c.holds a = true ∧ ∀ l ∈ located, l.dialect = c.dialect → l.holds a = true := by
  induction located generalizing c with
  | nil => simp
  | cons l located ih =>
    obtain ⟨hd, hh⟩ := joinFront_spec c l
    obtain ⟨ihd, ihh⟩ := ih (joinFront c l)
    rw [List.foldl_cons]
    refine ⟨ihd.trans hd, ?_⟩
    intro a
    rw [ihh a, hh a, hd]
    simp only [List.mem_cons, forall_eq_or_imp, and_assoc]

theorem combineLevels_eq_foldl (levels : List (List Condition)) (c : Condition) :
    combineLevels levels c = levels.reverse.flatten.foldl joinFront c := by
  unfold combineLevels
  rw [List.foldl_flatten]

/-- Combining keeps the dialect and adds exactly the located conditions of
that dialect. -/
theorem combineLevels_spec (levels : List (List Condition)) (c : Condition) :
    (combineLevels levels c).dialect = c.dialect ∧
      ∀ a : Assignment, (combineLevels levels c).holds a = true ↔
        c.holds a = true ∧ ∀ level ∈ levels, ∀ l ∈ level,
          l.dialect = c.dialect → l.holds a = true := by
  obtain ⟨hd, hh⟩ := foldl_joinFront_spec levels.reverse.flatten c
  rw [combineLevels_eq_foldl]
  refine ⟨hd, ?_⟩
  intro a
  rw [hh a]
  simp only [List.mem_flatten, List.mem_reverse]
  constructor
  · rintro ⟨hc, hl⟩
    exact ⟨hc, fun level hlevel l hm hld => hl l ⟨level, hlevel, hm⟩ hld⟩
  · rintro ⟨hc, hl⟩
    exact ⟨hc, fun l ⟨level, hlevel, hm⟩ hld => hl level hlevel l hm hld⟩

end BuildIndex

end Variability
