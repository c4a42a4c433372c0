-- The variables of an encoding: every feature of the model and of the
-- condition has one of its own, and the new ones lie behind those of the model.
import Std.Data.String.ToNat
import Variability.Proofs.Entries
import Variability.Space.Encoding

namespace Variability

open Cnf

/-! ## The features of a model -/

/-- Different names on different positive variables, none above `bound`. -/
structure WellNumbered (table : List (String × Int)) (bound : Int) : Prop where
  names : (table.map Prod.fst).Nodup
  variables_nodup : (table.map Prod.snd).Nodup
  within : ∀ p ∈ table, 0 < p.2 ∧ p.2 ≤ bound

theorem mergeSort_ascending (l : List (Int × String)) :
    (l.mergeSort fun p q => decide (p.1 ≤ q.1)).Pairwise fun p q => p.1 ≤ q.1 := by
  have hsorted : (l.mergeSort fun p q => decide (p.1 ≤ q.1)).Pairwise
      fun p q => decide (p.1 ≤ q.1) = true := by
    apply List.pairwise_mergeSort
    · intro p q r hpq hqr
      simp only [decide_eq_true_eq] at hpq hqr ⊢
      omega
    · intro p q
      simp only [Bool.or_eq_true, decide_eq_true_eq]
      omega
  exact hsorted.imp of_decide_eq_true

theorem mergeSort_of_ascending {l : List (Int × String)}
    (h : l.Pairwise fun p q => p.1 ≤ q.1) :
    (l.mergeSort fun p q => decide (p.1 ≤ q.1)) = l :=
  List.mergeSort_of_pairwise (h.imp decide_eq_true)

namespace FeatureModel

/-- Names that come in the order of their variables keep it. -/
theorem features_of_ascending {m : FeatureModel} (hne : m.document.names.entries ≠ [])
    (h : m.document.names.entries.Pairwise fun p q => p.1 ≤ q.1) :
    m.features = (Table.ofList (m.document.names.entries.map fun p => (p.2, p.1))).entries := by
  rw [features, if_neg hne, sortedNames, mergeSort_of_ascending h]

theorem wellNumbered_numberedFeatures (n : Nat) : WellNumbered (numberedFeatures n) n := by
  refine ⟨?_, ?_, ?_⟩
  · unfold numberedFeatures
    rw [List.map_map]
    apply List.nodup_range.map
    intro i j hij
    exact Nat.succ.inj (Nat.repr_injective hij)
  · unfold numberedFeatures
    rw [List.map_map]
    apply List.nodup_range.map
    intro i j hij
    exact Nat.succ.inj (Int.ofNat.inj hij)
  · intro p hp
    simp only [numberedFeatures, List.mem_map, List.mem_range] at hp
    obtain ⟨i, hi, rfl⟩ := hp
    simp only
    omega

/-- Of the named variables of a document each has one name, so different
features have different variables, also where a name is given twice. -/
theorem wellNumbered_features (m : FeatureModel) : WellNumbered m.features m.varCount := by
  unfold features
  split
  · exact wellNumbered_numberedFeatures m.varCount
  · have hmem : ∀ p ∈ (Table.ofList ((sortedNames m.document).map fun p => (p.2, p.1))).entries,
        (p.2, p.1) ∈ m.document.names.entries := by
      intro p hp
      obtain ⟨q, hq, rfl⟩ := List.mem_map.mp (Table.mem_of_mem_ofList hp)
      exact List.mem_mergeSort.mp hq
    have hkeys := (Table.ofList ((sortedNames m.document).map fun p => (p.2, p.1))).nodup
    refine ⟨hkeys, ?_, ?_⟩
    · rw [List.nodup_iff_pairwise_ne, List.pairwise_map] at hkeys ⊢
      refine hkeys.imp_of_mem ?_
      intro p q hp hq hne heq
      have hp' := hmem p hp
      have hq' := hmem q hq
      rw [heq] at hp'
      have hsame : (q.2, p.1) = (q.2, q.1) :=
        List.inj_on_of_nodup_map m.document.names.nodup hp' hq' rfl
      exact hne (congrArg Prod.snd hsame)
    · intro p hp
      have hkey : p.2 ∈ m.document.names.keys :=
        List.mem_map.mpr ⟨_, hmem p hp, rfl⟩
      exact m.document.names_within p.2 hkey

end FeatureModel

/-! ## The features of an encoding -/

namespace Encoding

theorem contains_index {l : List (String × Int)} {name : String} :
    (Index.ofList l).contains name = true ↔ name ∈ l.map Prod.fst := by
  unfold Index.contains
  rw [Index.get?_ofList]
  simp [List.find?_isSome]

theorem mem_unknownFeatures {c : Condition} {m : FeatureModel} {name : String} :
    name ∈ unknownFeatures c m ↔ name ∈ c.features ∧ name ∉ m.features.map Prod.fst := by
  unfold unknownFeatures Condition.sortedFeatures FeatureModel.index
  rw [List.mem_filter, List.mem_mergeSort]
  simp only [Bool.not_eq_true', Bool.eq_false_iff, ne_eq, contains_index]

theorem nodup_unknownFeatures (c : Condition) (m : FeatureModel) :
    (unknownFeatures c m).Nodup := by
  unfold unknownFeatures Condition.sortedFeatures
  apply List.Nodup.filter
  exact (List.mergeSort_perm _ _).nodup_iff.mpr (nodup_distinct _)

theorem map_fst_numberFrom (first : Int) (names : List String) :
    (numberFrom first names).map Prod.fst = names := by
  unfold numberFrom
  rw [List.map_map]
  exact List.zipIdx_map_fst 0 names

theorem mem_numberFrom {first : Int} {names : List String} {p : String × Int} :
    p ∈ numberFrom first names ↔ ∃ i : Nat, names[i]? = some p.1 ∧ p.2 = first + i := by
  unfold numberFrom
  rw [List.mem_map]
  constructor
  · rintro ⟨q, hq, rfl⟩
    exact ⟨q.2, List.mem_zipIdx_iff_getElem?.mp hq, rfl⟩
  · rintro ⟨i, hi, hp⟩
    refine ⟨(p.1, i), List.mem_zipIdx_iff_getElem?.mpr hi, ?_⟩
    rw [← hp]

theorem wellNumbered_numberFrom {first : Int} {names : List String} (h : names.Nodup)
    (hfirst : 0 < first) :
    WellNumbered (numberFrom first names) (first + names.length - 1) := by
  refine ⟨by rwa [map_fst_numberFrom], ?_, ?_⟩
  · have hsnd : (numberFrom first names).map Prod.snd =
        (List.range names.length).map fun i : Nat => first + i := by
      unfold numberFrom
      rw [List.range_eq_range', ← List.zipIdx_map_snd 0 names, List.map_map, List.map_map]
      rfl
    rw [hsnd]
    apply List.nodup_range.map
    intro i j hij
    simp only at hij
    omega
  · intro p hp
    obtain ⟨i, hi, hp2⟩ := mem_numberFrom.mp hp
    have := (List.getElem?_eq_some_iff.mp hi).1
    omega

/-- The new variables lie behind those of the model, the selectors behind
both. -/
theorem wellNumbered_variableTable (c : Condition) (m : FeatureModel) :
    WellNumbered (variableTable c m) (firstSelector c m - 1) := by
  have hm := m.wellNumbered_features
  have hu := wellNumbered_numberFrom (nodup_unknownFeatures c m)
    (show 0 < (m.varCount : Int) + 1 by omega)
  have hbehind : ∀ p ∈ numberFrom (m.varCount + 1) (unknownFeatures c m),
      (m.varCount : Int) < p.2 := by
    intro p hp
    obtain ⟨i, _, hp2⟩ := mem_numberFrom.mp hp
    omega
  unfold variableTable firstSelector
  refine ⟨?_, ?_, ?_⟩
  · rw [List.map_append, map_fst_numberFrom, List.nodup_append]
    refine ⟨hm.names, nodup_unknownFeatures c m, ?_⟩
    intro name hknown other hunknown heq
    exact (mem_unknownFeatures.mp hunknown).2 (heq ▸ hknown)
  · rw [List.map_append, List.nodup_append]
    refine ⟨hm.variables_nodup, hu.variables_nodup, ?_⟩
    intro x hx y hy heq
    obtain ⟨p, hp, rfl⟩ := List.mem_map.mp hx
    obtain ⟨q, hq, rfl⟩ := List.mem_map.mp hy
    have := (hm.within p hp).2
    have := hbehind q hq
    omega
  · intro p hp
    rcases List.mem_append.mp hp with hp | hp
    · have := hm.within p hp
      omega
    · have := hu.within p hp
      omega

/-- The names of the table: the features of the model and of the condition. -/
theorem mem_names_variableTable {c : Condition} {m : FeatureModel} {name : String} :
    name ∈ (variableTable c m).map Prod.fst ↔
      name ∈ m.features.map Prod.fst ∨ name ∈ c.features := by
  unfold variableTable
  rw [List.map_append, map_fst_numberFrom, List.mem_append, mem_unknownFeatures]
  by_cases h : name ∈ m.features.map Prod.fst
  · simp [h]
  · simp [h]

/-- A look-up gives the variable of the one entry with the name. -/
theorem variableOf_of_mem {table : List (String × Int)} {bound : Int}
    (h : WellNumbered table bound) {p : String × Int} (hp : p ∈ table) :
    variableOf (Index.ofList table) p.1 = p.2 := by
  unfold variableOf
  rw [Index.get?_ofList, find?_of_mem h.names hp]
  rfl

/-- The variables to enumerate ascend, and are those of the table. -/
theorem mem_projectionOf {table : List (String × Int)} {p : Int × String} :
    p ∈ projectionOf table ↔ (p.2, p.1) ∈ table := by
  unfold projectionOf
  rw [List.mem_mergeSort, List.mem_map]
  constructor
  · rintro ⟨q, hq, rfl⟩
    exact hq
  · intro hp
    exact ⟨_, hp, rfl⟩

theorem mem_names_projectionOf {table : List (String × Int)} {name : String} :
    name ∈ (projectionOf table).map Prod.snd ↔ name ∈ table.map Prod.fst := by
  rw [List.mem_map, List.mem_map]
  constructor
  · rintro ⟨p, hp, rfl⟩
    exact ⟨_, mem_projectionOf.mp hp, rfl⟩
  · rintro ⟨p, hp, rfl⟩
    exact ⟨(p.2, p.1), mem_projectionOf.mpr hp, rfl⟩

theorem projectionOf_perm (table : List (String × Int)) :
    (projectionOf table).Perm (table.map fun p => (p.2, p.1)) :=
  List.mergeSort_perm _ _

theorem projectionOf_ascending {table : List (String × Int)} {bound : Int}
    (h : WellNumbered table bound) : (projectionOf table).Pairwise fun p q => p.1 < q.1 := by
  have hle : (projectionOf table).Pairwise fun p q => p.1 ≤ q.1 := mergeSort_ascending _
  have hnodup : ((projectionOf table).map Prod.fst).Nodup := by
    rw [((projectionOf_perm table).map Prod.fst).nodup_iff, List.map_map]
    exact h.variables_nodup
  rw [List.nodup_iff_pairwise_ne, List.pairwise_map] at hnodup
  refine (hle.and hnodup).imp ?_
  rintro p q ⟨hpq, hne⟩
  omega

theorem names_projectionOf_nodup {table : List (String × Int)} {bound : Int}
    (h : WellNumbered table bound) : ((projectionOf table).map Prod.snd).Nodup := by
  rw [((projectionOf_perm table).map Prod.snd).nodup_iff, List.map_map]
  exact h.names

end Encoding

end Variability
