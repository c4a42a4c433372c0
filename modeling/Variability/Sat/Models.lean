-- What the search finds makes every clause true, and it finds something
-- whenever the clauses can be made true.
import Variability.Cnf.Valuation
import Variability.Sat.Search

namespace Variability.Sat

open Cnf

/-! ## What committing to a literal keeps -/

theorem mem_assign {l : Int} {d : Clause} {cs : List Clause} :
    d ∈ assign l cs ↔ ∃ c ∈ cs, l ∉ c ∧ c.filter (· ≠ -l) = d := by
  simp [assign, and_assoc]

/-- Where a literal holds, committing to it changes nothing. -/
theorem clausesHold_assign {v : Valuation} {l : Int} (hz : l ≠ 0)
    (hl : literalHolds v l = true) (cs : List Clause) :
    clausesHold v (assign l cs) = true ↔ clausesHold v cs = true := by
  rw [clausesHold_eq_true_iff, clausesHold_eq_true_iff]
  constructor
  · intro h c hc
    by_cases hlc : l ∈ c
    · exact ⟨l, hlc, hl⟩
    · obtain ⟨k, hk, hkv⟩ := h _ (mem_assign.2 ⟨c, hc, hlc, rfl⟩)
      exact ⟨k, (List.mem_filter.1 hk).1, hkv⟩
  · intro h d hd
    obtain ⟨c, hc, _, rfl⟩ := mem_assign.1 hd
    obtain ⟨k, hk, hkv⟩ := h c hc
    refine ⟨k, List.mem_filter.2 ⟨hk, ?_⟩, hkv⟩
    have hne : k ≠ -l := by
      rintro rfl
      rw [literalHolds_neg hz, hl] at hkv
      cases hkv
    simpa using hne

/-- Clauses without the literal zero. -/
def ZeroFree (cs : List Clause) : Prop := ∀ c ∈ cs, ∀ l ∈ c, l ≠ 0

theorem zeroFree_assign {cs : List Clause} (h : ZeroFree cs) (l : Int) :
    ZeroFree (assign l cs) := by
  intro d hd k hk
  obtain ⟨c, hc, _, rfl⟩ := mem_assign.1 hd
  exact h c hc k (List.mem_filter.1 hk).1

theorem mentions_of_assign {cs : List Clause} {l : Int} {n : Nat}
    (h : Mentions (assign l cs) n) : Mentions cs n := by
  obtain ⟨d, hd, k, hk, rfl⟩ := h
  obtain ⟨c, hc, _, rfl⟩ := mem_assign.1 hd
  exact ⟨c, hc, k, (List.mem_filter.1 hk).1, rfl⟩

/-- After a commitment its variable is gone. -/
theorem not_mentions_assign (cs : List Clause) (l : Int) :
    ¬ Mentions (assign l cs) l.natAbs := by
  rintro ⟨d, hd, k, hk, hkl⟩
  obtain ⟨c, _, hlc, rfl⟩ := mem_assign.1 hd
  obtain ⟨hkc, hkn⟩ := List.mem_filter.1 hk
  rcases Int.natAbs_eq_natAbs_iff.1 hkl with rfl | rfl
  · exact hlc hkc
  · simp at hkn

/-! ## What the search finds -/

/-- A search that goes on after `l` finds literals of other variables. -/
theorem consistent_cons {cs : List Clause} {l : Int} {found : List Int} (hl : l ≠ 0)
    (hm : ∀ k ∈ found, Mentions (assign l cs) k.natAbs) (hc : Consistent found) :
    Consistent (l :: found) := by
  have hother : ∀ k ∈ found, k.natAbs ≠ l.natAbs := by
    intro k hk heq
    exact not_mentions_assign cs l (heq ▸ hm k hk)
  intro k hk
  rcases List.mem_cons.1 hk with rfl | hk
  · refine ⟨hl, fun hneg => ?_⟩
    rcases List.mem_cons.1 hneg with h | h
    · omega
    · exact hother _ h (by simp)
  · refine ⟨(hc k hk).1, fun hneg => ?_⟩
    rcases List.mem_cons.1 hneg with h | h
    · exact hother k hk (by rw [← h]; simp)
    · exact (hc k hk).2 h

/-- A model of what is left after committing to `l`, with `l`, is a model. -/
theorem clausesHold_completion_cons {cs : List Clause} {l : Int} {found : List Int}
    (hc : Consistent (l :: found))
    (h : clausesHold (completion found) (assign l cs) = true) :
    clausesHold (completion (l :: found)) cs = true := by
  have hl := literalHolds_completion hc List.mem_cons_self
  refine (clausesHold_assign (hc l List.mem_cons_self).1 hl cs).1 (clausesHold_congr ?_ h)
  intro n hn
  have hne : (n : Int) ≠ l := by
    intro heq
    have hln : l.natAbs = n := by omega
    exact not_mentions_assign cs l (hln ▸ hn)
  simp [completion, hne]

/-- The literals that the search finds belong to the clauses, fit together and
make every clause true. -/
theorem search_eq_some {cs : List Clause} {found : List Int} (hz : ZeroFree cs)
    (h : search cs = some found) :
    (∀ k ∈ found, Mentions cs k.natAbs) ∧ Consistent found ∧
      clausesHold (completion found) cs = true := by
  fun_induction search cs generalizing found with
  | case1 cs hs =>
    cases h
    cases cs with
    | nil => simp [Consistent, clausesHold]
    | cons c cs =>
      unfold shortest? at hs
      split at hs <;> (try split at hs) <;> cases hs
  | case2 => cases h
  | case3 cs l c hs found' hf ih =>
    cases h
    have hmem := mem_of_shortest? hs
    have hl := hz _ hmem l List.mem_cons_self
    obtain ⟨hm, hc, hh⟩ := ih (zeroFree_assign hz l) hf
    have hcons := consistent_cons hl hm hc
    refine ⟨fun k hk => ?_, hcons, clausesHold_completion_cons hcons hh⟩
    rcases List.mem_cons.1 hk with rfl | hk
    · exact ⟨_, hmem, k, List.mem_cons_self, rfl⟩
    · exact mentions_of_assign (hm k hk)
  | case4 cs l c hs _ _ ih =>
    obtain ⟨found', hf, rfl⟩ := Option.map_eq_some_iff.1 h
    have hmem := mem_of_shortest? hs
    have hl : -l ≠ 0 := Int.neg_ne_zero.2 (hz _ hmem l List.mem_cons_self)
    obtain ⟨hm, hc, hh⟩ := ih (zeroFree_assign hz (-l)) hf
    have hcons := consistent_cons hl hm hc
    refine ⟨fun k hk => ?_, hcons, clausesHold_completion_cons hcons hh⟩
    rcases List.mem_cons.1 hk with rfl | hk
    · exact ⟨_, hmem, l, List.mem_cons_self, by simp⟩
    · exact mentions_of_assign (hm k hk)

/-- Clauses for which the search finds nothing cannot be made true. -/
theorem search_eq_none {cs : List Clause} (hz : ZeroFree cs) (h : search cs = none)
    (v : Valuation) : clausesHold v cs = false := by
  fun_induction search cs with
  | case1 => cases h
  | case2 cs hs =>
    rw [Bool.eq_false_iff]
    intro hv
    obtain ⟨l, hl, _⟩ := clausesHold_eq_true_iff.1 hv _ (mem_of_shortest? hs)
    cases hl
  | case3 => cases h
  | case4 cs l c hs hnone ih1 ih2 =>
    have hl := hz _ (mem_of_shortest? hs) l List.mem_cons_self
    have h1 := ih1 (zeroFree_assign hz l) hnone
    have h2 := ih2 (zeroFree_assign hz (-l)) (Option.map_eq_none_iff.1 h)
    rw [Bool.eq_false_iff] at h1 h2 ⊢
    intro hv
    by_cases hlv : literalHolds v l = true
    · exact h1 ((clausesHold_assign hl hlv cs).2 hv)
    · have hneg : literalHolds v (-l) = true := by
        rw [literalHolds_neg hl]
        simpa using hlv
      exact h2 ((clausesHold_assign (Int.neg_ne_zero.2 hl) hneg cs).2 hv)

end Variability.Sat
