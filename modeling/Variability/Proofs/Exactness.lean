-- The encoding of a condition is exact: a selection of the projected features
-- extends to the clauses if and only if the condition holds of it and it
-- extends to the clauses of the model.
import Variability.Cnf.Valuation
import Variability.Proofs.Conjunction
import Variability.Proofs.Variables

namespace Variability

open Cnf

/-! ## Selections that extend to clauses -/

/-- Some values of all variables give the features the values of the selection
and satisfy the clauses of the model. -/
def FeatureModel.Admits (m : FeatureModel) (a : Assignment) : Prop :=
  ∃ v : Valuation, (∀ p ∈ m.features, v p.2.natAbs = a p.1) ∧ clausesHold v m.clauses = true

/-- Some values of all variables give the projected names the values of the
selection and satisfy the clauses of the encoding. -/
def Encoding.Admits (e : Encoding) (a : Assignment) : Prop :=
  ∃ v : Valuation, (∀ p ∈ e.projection, v p.1.natAbs = a p.2) ∧ clausesHold v e.clauses = true

namespace Encoding

/-! ## The clauses of a condition -/

/-- The variables of the table have the values of the selection. -/
def Carries (v : Valuation) (table : List (String × Int)) (a : Assignment) : Prop :=
  ∀ p ∈ table, v p.2.natAbs = a p.1

/-- Every feature of the condition has a variable. -/
def Covers (table : List (String × Int)) (c : Condition) : Prop :=
  ∀ t ∈ c.terms, ∀ l ∈ t.literals, l.name ∈ table.map Prod.fst

section Clauses

variable {table : List (String × Int)} {bound first : Int} {v : Valuation} {a : Assignment}
  {c : Condition}

theorem literalHolds_literalOf (hw : WellNumbered table bound) (hv : Carries v table a)
    {l : Literal} (hl : l.name ∈ table.map Prod.fst) :
    literalHolds v (literalOf (Index.ofList table) l) = l.holds a := by
  obtain ⟨p, hp, hname⟩ := List.mem_map.mp hl
  have hx := variableOf_of_mem hw hp
  have hpos := (hw.within p hp).1
  have hval := hv p hp
  rw [hname] at hx hval
  unfold literalOf Literal.holds
  rw [hx]
  cases l.negated with
  | false =>
    have : ¬ p.2 < 0 := by omega
    simp [literalHolds, this, hval]
  | true => simp [literalHolds, hpos, hval]

/-- The terms with their selectors, which are consecutive variables. -/
theorem mem_selected {ts : List Term} {p : Term × Int} :
    p ∈ (ts.zipIdx.map fun q => (q.1, first + (q.2 : Int))) ↔
      ∃ i : Nat, ts[i]? = some p.1 ∧ p.2 = first + i := by
  rw [List.mem_map]
  constructor
  · rintro ⟨q, hq, rfl⟩
    exact ⟨q.2, List.mem_zipIdx_iff_getElem?.mp hq, rfl⟩
  · rintro ⟨i, hi, hp⟩
    exact ⟨(p.1, i), List.mem_zipIdx_iff_getElem?.mpr hi, by rw [← hp]⟩

theorem mem_selected_of_getElem? {ts : List Term} {i : Nat} {t : Term} (h : ts[i]? = some t) :
    (t, first + (i : Int)) ∈ ts.zipIdx.map fun q => (q.1, first + (q.2 : Int)) :=
  mem_selected.mpr ⟨i, h, rfl⟩

theorem literalHolds_selector (hfirst : 0 < first) (i : Nat) :
    literalHolds v (first + i) = v (first + (i : Int)).natAbs := by
  have : ¬ first + (i : Int) < 0 := by omega
  rw [literalHolds, if_neg this]

theorem literalHolds_neg_selector (hfirst : 0 < first) (i : Nat) :
    literalHolds v (-(first + i)) = !v (first + (i : Int)).natAbs := by
  have : -(first + (i : Int)) < 0 := by omega
  rw [literalHolds, if_pos this, Int.natAbs_neg]

/-- Every true selector brings its term. -/
theorem clausesHold_selected (hfirst : 0 < first) (index : Index String Int) (ts : List Term) :
    clausesHold v ((ts.zipIdx.map fun p => (p.1, first + (p.2 : Int))).flatMap
        fun p => selectedClauses index p.2 p.1) = true ↔
      ∀ (i : Nat) t, ts[i]? = some t → v (first + i).natAbs = true →
        ∀ l ∈ t.literals, literalHolds v (literalOf index l) = true := by
  rw [clausesHold_eq_true_iff]
  constructor
  · intro h i t ht hi l hl
    have hcl : [-(first + (i : Int)), literalOf index l] ∈ selectedClauses index (first + i) t :=
      List.mem_map.mpr ⟨l, hl, rfl⟩
    obtain ⟨k, hk, hkv⟩ := h _ (List.mem_flatMap.mpr ⟨_, mem_selected_of_getElem? ht, hcl⟩)
    simp only [List.mem_cons, List.not_mem_nil, or_false] at hk
    rcases hk with rfl | rfl
    · rw [literalHolds_neg_selector hfirst, hi] at hkv
      cases hkv
    · exact hkv
  · intro h cl hcl
    obtain ⟨p, hp, hcl⟩ := List.mem_flatMap.mp hcl
    obtain ⟨l, hl, rfl⟩ := List.mem_map.mp hcl
    obtain ⟨i, hi, hp2⟩ := mem_selected.mp hp
    rw [hp2]
    cases hvi : v (first + (i : Int)).natAbs with
    | false => exact ⟨_, List.mem_cons_self, by rw [literalHolds_neg_selector hfirst, hvi]; rfl⟩
    | true => exact ⟨literalOf index l, by simp, h i p.1 hi hvi l hl⟩

/-- Some selector is true. -/
theorem clauseHolds_selectors (hfirst : 0 < first) (ts : List Term) :
    (∃ l ∈ (ts.zipIdx.map fun p => (p.1, first + (p.2 : Int))).map Prod.snd,
        literalHolds v l = true) ↔
      ∃ (i : Nat) (t : Term), ts[i]? = some t ∧ v (first + i).natAbs = true := by
  constructor
  · rintro ⟨x, hx, hxv⟩
    obtain ⟨p, hp, rfl⟩ := List.mem_map.mp hx
    obtain ⟨i, hi, hp2⟩ := mem_selected.mp hp
    rw [hp2, literalHolds_selector hfirst] at hxv
    exact ⟨i, p.1, hi, hxv⟩
  · rintro ⟨i, t, ht, hi⟩
    refine ⟨_, List.mem_map.mpr ⟨_, mem_selected_of_getElem? ht, rfl⟩, ?_⟩
    rw [literalHolds_selector hfirst]
    exact hi

/-- Several terms hold where some selector is true and every true selector
brings its term. -/
theorem clausesHold_several (hfirst : 0 < first) (index : Index String Int) (ts : List Term) :
    let selected := ts.zipIdx.map fun p => (p.1, first + (p.2 : Int))
    clausesHold v (selected.flatMap (fun p => selectedClauses index p.2 p.1) ++
        [selected.map Prod.snd]) = true ↔
      (∀ (i : Nat) t, ts[i]? = some t → v (first + i).natAbs = true →
        ∀ l ∈ t.literals, literalHolds v (literalOf index l) = true) ∧
      ∃ (i : Nat) (t : Term), ts[i]? = some t ∧ v (first + i).natAbs = true := by
  intro selected
  rw [clausesHold_append, Bool.and_eq_true, clausesHold_selected hfirst, clausesHold_eq_true_iff,
    List.forall_mem_singleton, clauseHolds_selectors hfirst]

/-- Where the clauses of a condition are satisfied, the condition holds. -/
theorem holds_of_conditionClauses (hw : WellNumbered table bound) (hv : Carries v table a)
    (hc : Covers table c) (hfirst : 0 < first)
    (h : clausesHold v (conditionClauses (Index.ofList table) first c) = true) :
    c.holds a = true := by
  unfold conditionClauses at h
  split at h
  · rename_i ht
    exact Condition.holds_of_isTrue ht a
  · split at h
    · rename_i t ht
      rw [clausesHold_eq_true_iff] at h
      refine Condition.holds_iff.mpr ⟨t, by simp [ht], Term.holds_iff.mpr ?_⟩
      intro l hl
      obtain ⟨k, hk, hkv⟩ := h _ (List.mem_map.mpr ⟨l, hl, rfl⟩)
      rw [List.mem_singleton.mp hk, literalHolds_literalOf hw hv (hc t (by simp [ht]) l hl)] at hkv
      exact hkv
    · obtain ⟨hbring, i, t, hi, hvi⟩ := (clausesHold_several hfirst _ _).mp h
      have ht := List.mem_of_getElem? hi
      refine Condition.holds_iff.mpr ⟨t, ht, Term.holds_iff.mpr ?_⟩
      intro l hl
      rw [← literalHolds_literalOf hw hv (hc t ht l hl)]
      exact hbring i t hi hvi l hl

/-- Where a condition holds and each selector says whether its term holds, the
clauses of the condition are satisfied. -/
theorem conditionClauses_of_holds (hw : WellNumbered table bound) (hv : Carries v table a)
    (hc : Covers table c) (hfirst : 0 < first)
    (hs : ∀ (i : Nat) t, c.terms[i]? = some t → v (first + i).natAbs = t.holds a)
    (h : c.holds a = true) :
    clausesHold v (conditionClauses (Index.ofList table) first c) = true := by
  obtain ⟨t, ht, hta⟩ := Condition.holds_iff.mp h
  unfold conditionClauses
  split
  · rfl
  · split
    · rename_i s hs'
      rw [clausesHold_eq_true_iff]
      intro cl hcl
      obtain ⟨l, hl, rfl⟩ := List.mem_map.mp hcl
      have hts : t = s := by simpa [hs'] using ht
      subst hts
      refine ⟨_, List.mem_singleton.mpr rfl, ?_⟩
      rw [literalHolds_literalOf hw hv (hc t ht l hl)]
      exact Term.holds_iff.mp hta l hl
    · refine (clausesHold_several hfirst _ _).mpr ⟨?_, ?_⟩
      · intro i s hi hvi l hl
        rw [hs i s hi] at hvi
        rw [literalHolds_literalOf hw hv (hc s (List.mem_of_getElem? hi) l hl)]
        exact Term.holds_iff.mp hvi l hl
      · obtain ⟨i, hi⟩ := List.getElem?_of_mem ht
        exact ⟨i, t, hi, by rw [hs i t hi]; exact hta⟩

end Clauses

/-! ## Values for the new variables -/

/-- The values of the model's variables stay. A new variable has the value of
its feature in the selection, and a selector says whether its term holds. -/
def extension (c : Condition) (m : FeatureModel) (a : Assignment) (v : Valuation) : Valuation :=
  fun n =>
    if n ≤ m.varCount then v n
    else
      match (unknownFeatures c m)[n - m.varCount - 1]? with
      | some name => a name
      | none =>
        (c.terms[n - m.varCount - 1 - (unknownFeatures c m).length]?).any (·.holds a)

section Extension

variable {c : Condition} {m : FeatureModel} {a : Assignment} {v : Valuation}

theorem mentions_le_varCount {n : Nat} (h : Mentions m.clauses n) : n ≤ m.varCount := by
  obtain ⟨cl, hcl, l, hl, rfl⟩ := h
  exact ((m.document.clauses_within cl hcl).2 l hl).2

theorem clausesHold_extension (h : clausesHold v m.clauses = true) :
    clausesHold (extension c m a v) m.clauses = true := by
  refine clausesHold_congr ?_ h
  intro n hn
  rw [extension, if_pos (mentions_le_varCount hn)]

theorem carries_extension (h : Carries v m.features a) :
    Carries (extension c m a v) (variableTable c m) a := by
  intro p hp
  unfold extension
  rcases List.mem_append.mp hp with hp | hp
  · have := m.wellNumbered_features.within p hp
    rw [if_pos (by omega)]
    exact h p hp
  · obtain ⟨i, hi, hp2⟩ := mem_numberFrom.mp hp
    rw [if_neg (by omega)]
    have hindex : p.2.natAbs - m.varCount - 1 = i := by omega
    rw [hindex, hi]

theorem extension_selector {i : Nat} {t : Term} (hi : c.terms[i]? = some t) :
    extension c m a v (firstSelector c m + i).natAbs = t.holds a := by
  unfold extension firstSelector
  rw [if_neg (by omega)]
  have hnone : (unknownFeatures c m)[((m.varCount : Int) + 1 + (unknownFeatures c m).length +
      i).natAbs - m.varCount - 1]? = none :=
    List.getElem?_eq_none (by omega)
  have hindex : ((m.varCount : Int) + 1 + (unknownFeatures c m).length + i).natAbs -
      m.varCount - 1 - (unknownFeatures c m).length = i := by omega
  rw [hnone, hindex, hi]
  rfl

theorem covers_variableTable (c : Condition) (m : FeatureModel) :
    Covers (variableTable c m) c := by
  intro t ht l hl
  exact mem_names_variableTable.mpr (Or.inr (Condition.mem_features.mpr ⟨t, ht, l, hl, rfl⟩))

theorem firstSelector_pos (c : Condition) (m : FeatureModel) : 0 < firstSelector c m := by
  unfold firstSelector
  omega

/-- A selection extends to the encoding where the condition holds of it and it
extends to the model, and only there. -/
theorem encode_admits_iff (c : Condition) (m : FeatureModel) (a : Assignment) :
    (c.encode m).Admits a ↔ c.holds a = true ∧ m.Admits a := by
  have hw := wellNumbered_variableTable c m
  have hc := covers_variableTable c m
  have hpos := firstSelector_pos c m
  unfold Encoding.Admits Condition.encode
  simp only
  constructor
  · rintro ⟨v, hv, hcl⟩
    have hcarries : Carries v (variableTable c m) a := by
      intro p hp
      exact hv (p.2, p.1) (mem_projectionOf.mpr hp)
    rw [clausesHold_append, Bool.and_eq_true] at hcl
    refine ⟨holds_of_conditionClauses hw hcarries hc hpos hcl.2, v, ?_, hcl.1⟩
    intro p hp
    exact hcarries p (List.mem_append_left _ hp)
  · rintro ⟨hold, v, hv, hcl⟩
    have hcarries := carries_extension (c := c) hv
    refine ⟨extension c m a v, ?_, ?_⟩
    · intro p hp
      exact hcarries (p.2, p.1) (mem_projectionOf.mp hp)
    · rw [clausesHold_append, Bool.and_eq_true]
      refine ⟨clausesHold_extension hcl, ?_⟩
      exact conditionClauses_of_holds hw hcarries hc hpos (fun i t hi => extension_selector hi) hold

end Extension

/-! ## The variables that the clauses mention -/

/-- The selectors of the terms. A single term has none. -/
def selectorsOf (first : Int) (c : Condition) : List Int :=
  if c.terms.length = 1 then [] else (List.range c.terms.length).map fun i : Nat => first + i

theorem getElem?_selectorsOf {first : Int} {c : Condition} (hlen : c.terms.length ≠ 1) {i : Nat}
    {t : Term} (hi : c.terms[i]? = some t) :
    (selectorsOf first c)[i]? = some (first + (i : Int)) := by
  have hlt := (List.getElem?_eq_some_iff.mp hi).1
  unfold selectorsOf
  rw [if_neg hlen, List.getElem?_map, List.getElem?_range hlt]
  rfl

theorem length_selectorsOf (first : Int) (c : Condition) :
    (selectorsOf first c).length = if c.terms.length = 1 then 0 else c.terms.length := by
  unfold selectorsOf
  split
  · rfl
  · rw [List.length_map, List.length_range]

theorem le_of_mem_selectorsOf {first x : Int} {c : Condition} (h : x ∈ selectorsOf first c) :
    first ≤ x := by
  unfold selectorsOf at h
  split at h
  · simp at h
  · obtain ⟨i, _, rfl⟩ := List.mem_map.mp h
    omega

theorem selectorsOf_nodup (first : Int) (c : Condition) : (selectorsOf first c).Nodup := by
  unfold selectorsOf
  split
  · simp
  · apply List.nodup_range.map
    intro i j hij
    simp only at hij
    omega

/-- Unless a condition has a single term, its clauses are those of the
selectors. -/
theorem conditionClauses_of_several (index : Index String Int) (first : Int) {c : Condition}
    (hlen : c.terms.length ≠ 1) :
    conditionClauses index first c =
      (c.terms.zipIdx.map fun p => (p.1, first + (p.2 : Int))).flatMap
        (fun p => selectedClauses index p.2 p.1) ++ [selectorsOf first c] := by
  have htrue : ¬ c.isTrue = true := by
    intro h
    unfold Condition.isTrue at h
    rw [of_decide_eq_true h] at hlen
    exact hlen rfl
  have hselectors : (c.terms.zipIdx.map fun p => (p.1, first + (p.2 : Int))).map Prod.snd =
      selectorsOf first c := by
    unfold selectorsOf
    rw [if_neg hlen, List.range_eq_range', ← List.zipIdx_map_snd 0 c.terms, List.map_map,
      List.map_map]
    rfl
  unfold conditionClauses
  rw [if_neg htrue, ← hselectors]
  split
  · rename_i t ht
    rw [ht] at hlen
    exact absurd rfl hlen
  · rfl

theorem literalOf_of_mem {table : List (String × Int)} {bound : Int}
    (hw : WellNumbered table bound) {p : String × Int} (hp : p ∈ table) {l : Literal}
    (hname : p.1 = l.name) :
    literalOf (Index.ofList table) l = if l.negated then -p.2 else p.2 := by
  unfold literalOf
  rw [← hname, variableOf_of_mem hw hp]

/-- The literals of a condition's clauses are of features in the table or of
selectors. -/
theorem variable_of_conditionClauses {table : List (String × Int)} {bound first : Int}
    {c : Condition} (hw : WellNumbered table bound) (hc : Covers table c) {cl : Clause} {l : Int}
    (hcl : cl ∈ conditionClauses (Index.ofList table) first c) (hl : l ∈ cl) :
    ∃ x ∈ table.map Prod.snd ++ selectorsOf first c, l.natAbs = x.natAbs := by
  have hfeature : ∀ t ∈ c.terms, ∀ k ∈ t.literals,
      ∃ x ∈ table.map Prod.snd ++ selectorsOf first c,
        (literalOf (Index.ofList table) k).natAbs = x.natAbs := by
    intro t ht k hk
    obtain ⟨p, hp, hname⟩ := List.mem_map.mp (hc t ht k hk)
    refine ⟨p.2, List.mem_append_left _ (List.mem_map.mpr ⟨p, hp, rfl⟩), ?_⟩
    rw [literalOf_of_mem hw hp hname]
    split <;> simp
  by_cases hlen : c.terms.length = 1
  · obtain ⟨t, ht⟩ := List.length_eq_one_iff.mp hlen
    unfold conditionClauses at hcl
    simp only [ht] at hcl
    split at hcl
    · cases hcl
    · obtain ⟨k, hk, rfl⟩ := List.mem_map.mp hcl
      rw [List.mem_singleton.mp hl]
      exact hfeature t (by simp [ht]) k hk
  · rw [conditionClauses_of_several _ _ hlen] at hcl
    rcases List.mem_append.mp hcl with hcl | hcl
    · obtain ⟨p, hp, hcl⟩ := List.mem_flatMap.mp hcl
      obtain ⟨k, hk, rfl⟩ := List.mem_map.mp hcl
      obtain ⟨i, hi, hp2⟩ := mem_selected.mp hp
      simp only [List.mem_cons, List.not_mem_nil, or_false] at hl
      rcases hl with rfl | rfl
      · have hselector : first + (i : Int) ∈ selectorsOf first c :=
          List.mem_of_getElem? (getElem?_selectorsOf hlen hi)
        exact ⟨_, List.mem_append_right _ hselector, by rw [Int.natAbs_neg, hp2]⟩
      · exact hfeature p.1 (List.mem_of_getElem? hi) k hk
    · rw [List.mem_singleton.mp hcl] at hl
      exact ⟨l, List.mem_append_right _ hl, rfl⟩

/-- Selectors of the terms of a condition: unless it has a single term, each
term has one that brings its literals, and a clause asks for one of them. -/
structure Selects (e : Encoding) (c : Condition) (selectors : List Int) : Prop where
  length_eq : selectors.length = if c.terms.length = 1 then 0 else c.terms.length
  brings : ∀ (i : Nat) t s, c.terms[i]? = some t → selectors[i]? = some s → ∀ l ∈ t.literals,
    ∃ p ∈ e.projection, p.2 = l.name ∧ [-s, if l.negated then -p.1 else p.1] ∈ e.clauses
  chosen : c.terms.length ≠ 1 → selectors ∈ e.clauses

theorem selects_selectorsOf (c : Condition) (m : FeatureModel) :
    (c.encode m).Selects c (selectorsOf (firstSelector c m) c) := by
  have hw := wellNumbered_variableTable c m
  have hclauses : ∀ {cl}, cl ∈ conditionClauses (Index.ofList (variableTable c m))
      (firstSelector c m) c → cl ∈ (c.encode m).clauses := List.mem_append_right _
  refine ⟨length_selectorsOf _ c, ?_, ?_⟩
  · intro i t s ht hs l hl
    have hlen : c.terms.length ≠ 1 := by
      intro hlen
      unfold selectorsOf at hs
      rw [if_pos hlen] at hs
      cases hs
    rw [getElem?_selectorsOf hlen ht] at hs
    cases hs
    obtain ⟨p, hp, hname⟩ :=
      List.mem_map.mp (covers_variableTable c m t (List.mem_of_getElem? ht) l hl)
    refine ⟨(p.2, p.1), mem_projectionOf.mpr hp, hname, hclauses ?_⟩
    rw [conditionClauses_of_several _ _ hlen, ← literalOf_of_mem hw hp hname]
    refine List.mem_append_left _ (List.mem_flatMap.mpr ⟨_, mem_selected_of_getElem? ht, ?_⟩)
    exact List.mem_map.mpr ⟨l, hl, rfl⟩
  · intro hlen
    apply hclauses
    rw [conditionClauses_of_several _ _ hlen]
    exact List.mem_append_right _ (List.mem_singleton.mpr rfl)

/-- The variables of the projected features that the model does not have. -/
def newVariables (e : Encoding) (m : FeatureModel) : List Int :=
  (e.projection.filter fun p => p.2 ∉ m.features.map Prod.fst).map Prod.fst

theorem mem_newVariables {c : Condition} {m : FeatureModel} {x : Int}
    (h : x ∈ newVariables (c.encode m) m) : (m.varCount : Int) < x ∧ x < firstSelector c m := by
  obtain ⟨p, hp, rfl⟩ := List.mem_map.mp h
  obtain ⟨hp, hnew⟩ := List.mem_filter.mp hp
  have hp := mem_projectionOf.mp hp
  have hbound := (wellNumbered_variableTable c m).within _ hp
  rcases List.mem_append.mp hp with hknown | hunknown
  · simp only [decide_eq_true_eq] at hnew
    exact absurd (List.mem_map.mpr ⟨_, hknown, rfl⟩) hnew
  · obtain ⟨i, _, hp2⟩ := mem_numberFrom.mp hunknown
    simp only at hp2 hbound
    omega

end Encoding

/-! ## The law -/

/-- The encoding of a condition is exact on the projection. Each feature of the
model and of the condition is projected once, on variables that ascend. A
selection extends to the encoding where the condition holds of it and it extends
to the model, and nowhere else. All other variables of the clauses are selectors
of the terms; they and the variables of new features are different, and the
model mentions none of them. -/
theorem the_encoding_is_exact_on_the_projection (c : Condition) (m : FeatureModel) :
    (∀ name, name ∈ (c.encode m).projection.map Prod.snd ↔
      name ∈ m.features.map Prod.fst ∨ name ∈ c.features) ∧
    ((c.encode m).projection.map Prod.snd).Nodup ∧
    (∀ p ∈ (c.encode m).projection, 0 < p.1) ∧
    (c.encode m).projection.Pairwise (fun p q => p.1 < q.1) ∧
    (∀ p ∈ m.features, (p.2, p.1) ∈ (c.encode m).projection) ∧
    (∀ a : Assignment, (c.encode m).Admits a ↔ c.holds a = true ∧ m.Admits a) ∧
    ∃ selectors : List Int, (c.encode m).Selects c selectors ∧
      ((c.encode m).newVariables m ++ selectors).Nodup ∧
      (∀ x ∈ (c.encode m).newVariables m ++ selectors, 0 < x ∧ ¬ Mentions m.clauses x.natAbs) ∧
      ∀ cl ∈ (c.encode m).clauses, cl ∈ m.clauses ∨
        ∀ l ∈ cl, ∃ x ∈ (c.encode m).projection.map Prod.fst ++ selectors, l.natAbs = x.natAbs := by
  have hw := Encoding.wellNumbered_variableTable c m
  have hmodel : ∀ x : Int, (m.varCount : Int) < x → 0 < x ∧ ¬ Mentions m.clauses x.natAbs := by
    intro x hx
    refine ⟨by omega, fun hm => ?_⟩
    have := Encoding.mentions_le_varCount hm
    omega
  have hbehind : (m.varCount : Int) < Encoding.firstSelector c m := by
    unfold Encoding.firstSelector
    omega
  refine ⟨?_, Encoding.names_projectionOf_nodup hw, ?_, Encoding.projectionOf_ascending hw, ?_,
    Encoding.encode_admits_iff c m,
    Encoding.selectorsOf (Encoding.firstSelector c m) c, Encoding.selects_selectorsOf c m,
    ?_, ?_, ?_⟩
  · intro name
    rw [← Encoding.mem_names_variableTable]
    exact Encoding.mem_names_projectionOf
  · intro p hp
    exact (hw.within _ (Encoding.mem_projectionOf.mp hp)).1
  · intro p hp
    exact Encoding.mem_projectionOf.mpr (List.mem_append_left _ hp)
  · rw [List.nodup_append]
    refine ⟨?_, Encoding.selectorsOf_nodup _ c, ?_⟩
    · have hnodup : ((c.encode m).projection.map Prod.fst).Nodup := by
        rw [List.nodup_iff_pairwise_ne, List.pairwise_map]
        exact (Encoding.projectionOf_ascending hw).imp fun h => Int.ne_of_lt h
      exact hnodup.sublist (List.filter_sublist.map Prod.fst)
    · intro x hx y hy
      have := (Encoding.mem_newVariables hx).2
      have := Encoding.le_of_mem_selectorsOf hy
      omega
  · intro x hx
    rcases List.mem_append.mp hx with hx | hx
    · exact hmodel x (Encoding.mem_newVariables hx).1
    · have := Encoding.le_of_mem_selectorsOf hx
      exact hmodel x (by omega)
  · intro cl hcl
    rcases List.mem_append.mp hcl with hcl | hcl
    · exact Or.inl hcl
    · right
      intro l hl
      obtain ⟨x, hx, hlx⟩ := Encoding.variable_of_conditionClauses hw
        (Encoding.covers_variableTable c m) hcl hl
      refine ⟨x, ?_, hlx⟩
      rcases List.mem_append.mp hx with hx | hx
      · obtain ⟨p, hp, rfl⟩ := List.mem_map.mp hx
        exact List.mem_append_left _
          (List.mem_map.mpr ⟨(p.2, p.1), Encoding.mem_projectionOf.mpr hp, rfl⟩)
      · exact List.mem_append_right _ hx

end Variability
