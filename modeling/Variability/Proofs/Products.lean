-- Products of conditions: whichever of them are conjoined first, the
-- conjunction is the normal form of all choices of one term from each, so the
-- conditions of a dialect form a monoid with a zero.
import Variability.Proofs.Conjunction
import Variability.Proofs.Occurrences

namespace Variability

/-! ## Joined terms -/

namespace Term

/-- Both terms hold. -/
def join (s t : Term) : Term := ofList (s.literals ++ t.literals)

theorem mem_ofList {ls : List Literal} {l : Literal} : l ∈ (ofList ls).literals ↔ l ∈ ls :=
  mem_distinct

theorem join_ofList (ls ms : List Literal) : (ofList ls).join (ofList ms) = ofList (ls ++ ms) := by
  apply ext
  simp only [join, ofList, distinct_eq_firsts]
  exact firsts_append_congr (firsts_firsts ls) (firsts_firsts ms)

theorem join_assoc (s t u : Term) : (s.join t).join u = s.join (t.join u) := by
  calc (s.join t).join u
      = ofList (s.literals ++ t.literals ++ u.literals) := by
        rw [← join_ofList, ofList_literals]
        rfl
    _ = ofList (s.literals ++ (t.literals ++ u.literals)) := by rw [List.append_assoc]
    _ = s.join (t.join u) := by
        rw [← join_ofList, ofList_literals]
        rfl

@[simp] theorem empty_join (t : Term) : empty.join t = t := ofList_literals t

@[simp] theorem join_empty (t : Term) : t.join empty = t := by
  unfold join empty
  rw [List.append_nil, ofList_literals]

theorem join_eq_empty {s t : Term} (h : s.join t = empty) : s = empty ∧ t = empty := by
  have hnone : ∀ l, l ∉ s.literals ++ t.literals := by
    intro l hl
    have hjoined : l ∈ (s.join t).literals := mem_ofList.mpr hl
    rw [h] at hjoined
    cases hjoined
  obtain ⟨hs, ht⟩ := List.append_eq_nil_iff.mp (List.eq_nil_iff_forall_not_mem.mpr hnone)
  exact ⟨ext hs, ext ht⟩

theorem isContradictory_iff {t : Term} :
    t.isContradictory = true ↔ ∃ l ∈ t.literals, l.negate ∈ t.literals := by
  rw [isContradictory_eq, List.any_eq_true]
  simp only [List.contains_iff_mem]

theorem join_contradictory {s t : Term}
    (h : s.isContradictory = true ∨ t.isContradictory = true) :
    (s.join t).isContradictory = true := by
  have hmem : ∀ l, l ∈ s.literals ∨ l ∈ t.literals → l ∈ (s.join t).literals := by
    intro l hl
    exact mem_ofList.mpr (List.mem_append.mpr hl)
  rw [isContradictory_iff]
  rcases h with h | h
  · obtain ⟨l, hl, hn⟩ := isContradictory_iff.mp h
    exact ⟨l, hmem l (Or.inl hl), hmem _ (Or.inl hn)⟩
  · obtain ⟨l, hl, hn⟩ := isContradictory_iff.mp h
    exact ⟨l, hmem l (Or.inr hl), hmem _ (Or.inr hn)⟩

end Term

/-! ## What is kept of a list of terms -/

theorem consistentTerms_eq (ts : List Term) :
    consistentTerms ts = firsts (ts.filter fun t => !t.isContradictory) :=
  distinct_eq_firsts _

/-- The normal form depends on the consistent terms alone. -/
theorem normalizeTerms_congr {ss ts : List Term} (h : consistentTerms ss = consistentTerms ts) :
    normalizeTerms ss = normalizeTerms ts := by
  unfold normalizeTerms
  rw [h]

theorem consistentTerms_flatMap_congr {f g : Term → List Term}
    (h : ∀ t, consistentTerms (f t) = consistentTerms (g t)) (ts : List Term) :
    consistentTerms (ts.flatMap f) = consistentTerms (ts.flatMap g) := by
  simp only [consistentTerms_eq, List.filter_flatMap] at h ⊢
  exact firsts_flatMap_congr h ts

/-- Terms that contradict themselves, and terms that repeat, may be dropped
first. -/
theorem consistentTerms_flatMap {f : Term → List Term}
    (h : ∀ t, t.isContradictory = true → ∀ u ∈ f t, u.isContradictory = true) (ts : List Term) :
    consistentTerms ((consistentTerms ts).flatMap f) = consistentTerms (ts.flatMap f) := by
  simp only [consistentTerms_eq, List.filter_flatMap, firsts_flatMap_firsts]
  congr 1
  induction ts with
  | nil => rfl
  | cons t ts ih =>
    cases hc : t.isContradictory with
    | false =>
      rw [List.filter_cons_of_pos (by simp [hc]), List.flatMap_cons, List.flatMap_cons, ih]
    | true =>
      have hnone : (f t).filter (fun u => !u.isContradictory) = [] := by
        rw [List.filter_eq_nil_iff]
        intro u hu
        simp [h t hc u hu]
      rw [List.filter_cons_of_neg (by simp [hc]), List.flatMap_cons, hnone, List.nil_append, ih]

namespace Condition

/-! ## Products of terms -/

theorem termProducts_eq (ss ts : List Term) :
    termProducts ss ts = ss.flatMap fun s => ts.map s.join := rfl

theorem mem_termProducts {ss ts : List Term} {u : Term} :
    u ∈ termProducts ss ts ↔ ∃ s ∈ ss, ∃ t ∈ ts, s.join t = u := by
  simp only [termProducts_eq, List.mem_flatMap, List.mem_map]

theorem termProducts_assoc (ss ts us : List Term) :
    termProducts (termProducts ss ts) us = termProducts ss (termProducts ts us) := by
  have hjoin : ∀ s t : Term, (s.join t).join = s.join ∘ t.join := by
    intro s t
    funext u
    exact Term.join_assoc s t u
  simp only [termProducts_eq, List.flatMap_assoc, List.map_flatMap, List.flatMap_map,
    List.map_map, hjoin]

@[simp] theorem termProducts_true (ts : List Term) : termProducts [Term.empty] ts = ts := by
  have hjoin : Term.empty.join = id := funext Term.empty_join
  simp [termProducts_eq, hjoin]

@[simp] theorem termProducts_true_right (ts : List Term) : termProducts ts [Term.empty] = ts := by
  simp [termProducts_eq]

@[simp] theorem termProducts_false_right (ts : List Term) : termProducts ts [] = [] := by
  simp [termProducts_eq]

theorem consistentTerms_termProducts_left (ss ts : List Term) :
    consistentTerms (termProducts (consistentTerms ss) ts) =
      consistentTerms (termProducts ss ts) := by
  apply consistentTerms_flatMap
  intro s hs u hu
  obtain ⟨t, _, rfl⟩ := List.mem_map.mp hu
  exact Term.join_contradictory (Or.inl hs)

theorem consistentTerms_termProducts_right (ss ts : List Term) :
    consistentTerms (termProducts ss (consistentTerms ts)) =
      consistentTerms (termProducts ss ts) := by
  apply consistentTerms_flatMap_congr
  intro s
  simp only [← List.flatMap_pure_eq_map]
  apply consistentTerms_flatMap
  intro t ht u hu
  obtain rfl := List.mem_singleton.mp hu
  exact Term.join_contradictory (Or.inr ht)

/-! ## The empty term -/

/-- With the empty term there is no other. -/
def EmptyAlone (ts : List Term) : Prop := Term.empty ∈ ts → ∀ t ∈ ts, t = Term.empty

theorem EmptyAlone.normalizeTerms_eq {ts : List Term} (h : EmptyAlone ts) :
    normalizeTerms ts = consistentTerms ts := by
  unfold normalizeTerms
  split
  · rename_i hempty
    obtain ⟨t, ht, hnone⟩ := List.any_eq_true.mp hempty
    obtain rfl := Term.isEmpty_iff.mp hnone
    have hall : ∀ t ∈ consistentTerms ts, t = Term.empty := by
      intro t hmem
      exact h (mem_consistentTerms.mp ht).1 t (mem_consistentTerms.mp hmem).1
    have hrepeated := List.eq_replicate_of_mem hall
    have hle : (consistentTerms ts).Nodup := nodup_distinct _
    rw [hrepeated, List.nodup_replicate] at hle
    have hpos := List.length_pos_of_mem ht
    rw [hrepeated, show (consistentTerms ts).length = 1 by omega]
    rfl
  · rfl

theorem EmptyAlone.termProducts {ss ts : List Term} (hs : EmptyAlone ss) (ht : EmptyAlone ts) :
    EmptyAlone (termProducts ss ts) := by
  intro hempty u hu
  obtain ⟨s, hsm, t, htm, hjoin⟩ := mem_termProducts.mp hempty
  obtain ⟨rfl, rfl⟩ := Term.join_eq_empty hjoin
  obtain ⟨s, hsm', t, htm', rfl⟩ := mem_termProducts.mp hu
  rw [hs hsm s hsm', ht htm t htm', Term.empty_join]

theorem emptyAlone_terms (c : Condition) : EmptyAlone c.terms := by
  intro hempty t ht
  rw [c.normal.empty_alone hempty] at ht
  exact List.mem_singleton.mp ht

theorem normalizeTerms_termProducts_left {ss : List Term} (h : EmptyAlone ss) (ts : List Term) :
    normalizeTerms (termProducts (normalizeTerms ss) ts) = normalizeTerms (termProducts ss ts) := by
  rw [h.normalizeTerms_eq]
  exact normalizeTerms_congr (consistentTerms_termProducts_left ss ts)

theorem normalizeTerms_termProducts_right (ss : List Term) {ts : List Term} (h : EmptyAlone ts) :
    normalizeTerms (termProducts ss (normalizeTerms ts)) = normalizeTerms (termProducts ss ts) := by
  rw [h.normalizeTerms_eq]
  exact normalizeTerms_congr (consistentTerms_termProducts_right ss ts)

/-! ## Products of conditions -/

section Conjunction

variable {a b : Condition}

/-- Distributing over a condition that is true leaves the other as it is. -/
theorem ofTerms_of_isTrue_left (h : a.dialect = b.dialect) (htrue : a.isTrue = true) :
    ofTerms a.dialect (termProducts a.terms b.terms) = b := by
  rw [show a.terms = [Term.empty] from of_decide_eq_true htrue, termProducts_true, h,
    ofTerms_terms]

theorem ofTerms_of_isTrue_right (htrue : b.isTrue = true) :
    ofTerms a.dialect (termProducts a.terms b.terms) = a := by
  rw [show b.terms = [Term.empty] from of_decide_eq_true htrue, termProducts_true_right,
    ofTerms_terms]

theorem conjoin_eq_ofTerms (h : a.dialect = b.dialect) :
    a.conjoin b = .ok (ofTerms a.dialect (termProducts a.terms b.terms)) := by
  unfold conjoin
  rw [if_neg (by simpa using h)]
  split
  · rename_i htrue
    rw [ofTerms_of_isTrue_left h htrue]
  · split
    · rename_i htrue
      rw [ofTerms_of_isTrue_right htrue]
    · rfl

end Conjunction

/-- One term from each condition, in every way, the terms of the first condition
changing slowest. -/
def choices : List Condition → List Term
  | [] => [Term.empty]
  | c :: cs => termProducts c.terms (choices cs)

/-- The conjunction of conditions of one dialect, worked out at once. -/
def product (d : Dialect) (cs : List Condition) : Condition := ofTerms d (choices cs)

theorem emptyAlone_choices (cs : List Condition) : EmptyAlone (choices cs) := by
  induction cs with
  | nil =>
    intro _ t ht
    exact List.mem_singleton.mp ht
  | cons c cs ih => exact (emptyAlone_terms c).termProducts ih

theorem choices_append (cs ds : List Condition) :
    choices (cs ++ ds) = termProducts (choices cs) (choices ds) := by
  induction cs with
  | nil => exact (termProducts_true _).symm
  | cons c cs ih =>
    rw [List.cons_append, choices, choices, ih, termProducts_assoc]

theorem product_single (c : Condition) : product c.dialect [c] = c := by
  unfold product choices choices
  rw [termProducts_true_right, ofTerms_terms]

/-- Conjunctions of conjunctions are the products of all that is in them. -/
theorem conjoin_product (d : Dialect) (cs ds : List Condition) :
    (product d cs).conjoin (product d ds) = .ok (product d (cs ++ ds)) := by
  rw [conjoin_eq_ofTerms (show (product d cs).dialect = (product d ds).dialect from rfl)]
  congr 1
  refine ext rfl ?_
  calc normalizeTerms (termProducts (normalizeTerms (choices cs)) (normalizeTerms (choices ds)))
      = normalizeTerms (termProducts (choices cs) (normalizeTerms (choices ds))) :=
        normalizeTerms_termProducts_left (emptyAlone_choices cs) _
    _ = normalizeTerms (termProducts (choices cs) (choices ds)) :=
        normalizeTerms_termProducts_right _ (emptyAlone_choices ds)
    _ = normalizeTerms (choices (cs ++ ds)) := by rw [choices_append]

theorem product_of_never {d : Dialect} {cs : List Condition} (h : never d ∈ cs) :
    product d cs = never d := by
  have hnone : choices cs = [] := by
    obtain ⟨before, behind, rfl⟩ := List.append_of_mem h
    rw [choices_append, choices]
    exact termProducts_false_right _
  unfold product
  rw [hnone]
  rfl

theorem conjoin_eq_product {a b : Condition} (h : a.dialect = b.dialect) :
    a.conjoin b = .ok (product a.dialect [a, b]) := by
  have hproduct := conjoin_product a.dialect [a] [b]
  rw [product_single, show product a.dialect [b] = b from h ▸ product_single b] at hproduct
  exact hproduct

theorem always_conjoin (c : Condition) : (always c.dialect).conjoin c = .ok c := by
  have hproduct := conjoin_product c.dialect [] [c]
  rw [List.nil_append, product_single] at hproduct
  exact hproduct

theorem conjoin_always (c : Condition) : c.conjoin (always c.dialect) = .ok c := by
  have hproduct := conjoin_product c.dialect [c] []
  rw [List.append_nil, product_single] at hproduct
  exact hproduct

theorem never_conjoin (c : Condition) :
    (never c.dialect).conjoin c = .ok (never c.dialect) := by
  rw [conjoin_eq_product (show (never c.dialect).dialect = c.dialect from rfl)]
  exact congrArg Except.ok (product_of_never List.mem_cons_self)

theorem conjoin_never (c : Condition) :
    c.conjoin (never c.dialect) = .ok (never c.dialect) := by
  rw [conjoin_eq_product (show c.dialect = (never c.dialect).dialect from rfl)]
  exact congrArg Except.ok (product_of_never (List.mem_cons_of_mem _ List.mem_cons_self))

/-- However three conditions of one dialect are nested, their conjunction is the
same, term by term and literal by literal; the true condition changes nothing,
and the false one leaves nothing. The short cuts for true conditions give what
distributing the terms gives. -/
theorem the_conditions_of_a_dialect_form_a_monoid_with_zero {a b c : Condition}
    (hab : a.dialect = b.dialect) (hbc : b.dialect = c.dialect) :
    (∃ ab bc abc, a.conjoin b = .ok ab ∧ b.conjoin c = .ok bc ∧
      ab.conjoin c = .ok abc ∧ a.conjoin bc = .ok abc) ∧
    ((always a.dialect).conjoin a = .ok a ∧ a.conjoin (always a.dialect) = .ok a) ∧
    ((never a.dialect).conjoin a = .ok (never a.dialect) ∧
      a.conjoin (never a.dialect) = .ok (never a.dialect)) ∧
    a.conjoin b = .ok (ofTerms a.dialect (termProducts a.terms b.terms)) ∧
    (a.isTrue = true → ofTerms a.dialect (termProducts a.terms b.terms) = b) ∧
    (b.isTrue = true → ofTerms a.dialect (termProducts a.terms b.terms) = a) := by
  refine ⟨?_, ⟨always_conjoin a, conjoin_always a⟩, ⟨never_conjoin a, conjoin_never a⟩,
    conjoin_eq_ofTerms hab, ofTerms_of_isTrue_left hab, ofTerms_of_isTrue_right⟩
  have ha := product_single a
  have hc : product a.dialect [c] = c := hab.trans hbc ▸ product_single c
  refine ⟨product a.dialect [a, b], product a.dialect [b, c], product a.dialect [a, b, c],
    conjoin_eq_product hab, hab ▸ conjoin_eq_product hbc, ?_, ?_⟩
  · have hnested := conjoin_product a.dialect [a, b] [c]
    rw [hc] at hnested
    exact hnested
  · have hnested := conjoin_product a.dialect [a] [b, c]
    rw [ha] at hnested
    exact hnested

theorem isFeatureName_A : isFeatureName "A" = true := by decide

theorem isFeatureName_B : isFeatureName "B" = true := by decide

/-- `A || !B`, `B || A` and `A || !A && B`. -/
def threeConditions : Condition × Condition × Condition :=
  let a : Literal := ⟨"A", false, isFeatureName_A⟩
  let b : Literal := ⟨"B", false, isFeatureName_B⟩
  (ofTerms .plain [Term.ofList [a], Term.ofList [b.negate]],
    ofTerms .plain [Term.ofList [b], Term.ofList [a]],
    ofTerms .plain [Term.ofList [a], Term.ofList [a.negate, b]])

/-- Different products contradict themselves in the two nestings, and what is
left stands in one order. -/
theorem three_conditions_have_one_conjunction :
    let (a, b, c) := threeConditions
    ∃ ab bc abc, a.conjoin b = .ok ab ∧ b.conjoin c = .ok bc ∧ ab.conjoin c = .ok abc ∧
      a.conjoin bc = .ok abc ∧ bc.render = "(B && A) || (B && !A) || A" ∧
      abc.render = "(A && B) || A || (!B && A)" := by
  obtain ⟨⟨ab, bc, abc, hab, hbc, hleft, hright⟩, _⟩ :=
    the_conditions_of_a_dialect_form_a_monoid_with_zero
      (show threeConditions.1.dialect = threeConditions.2.1.dialect from rfl)
      (show threeConditions.2.1.dialect = threeConditions.2.2.dialect from rfl)
  have hpair : (threeConditions.2.1.conjoin threeConditions.2.2).map render =
      .ok "(B && A) || (B && !A) || A" := by decide +kernel
  have hall : ((threeConditions.1.conjoin threeConditions.2.1).bind fun ab =>
      ab.conjoin threeConditions.2.2).map render = .ok "(A && B) || A || (!B && A)" := by
    decide +kernel
  rw [hbc] at hpair
  rw [hab, Except.bind, hleft] at hall
  exact ⟨ab, bc, abc, hab, hbc, hleft, hright, Except.ok.inj hpair, Except.ok.inj hall⟩

end Condition

end Variability
