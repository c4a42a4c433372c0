-- First occurrences: they keep the order of a list, and repetitions may as
-- well be dropped before lists are filtered, joined or multiplied out.
import Mathlib.Data.List.Basic
import Variability.Data.Distinct

namespace Variability

variable {α β : Type} [DecidableEq α] [DecidableEq β]

/-! ## Order -/

/-- What is kept of a list stands in it in the same order, and the order is that
in which its members first occur. -/
structure KeepsOrder (kept l : List α) : Prop where
  sublist : kept.Sublist l
  first : kept.Pairwise fun a b => l.idxOf a < l.idxOf b

theorem firsts_sublist (l : List α) : (firsts l).Sublist l := by
  induction l with
  | nil => exact List.Sublist.refl []
  | cons a l ih =>
    unfold firsts
    exact (List.filter_sublist.trans ih).cons_cons a

theorem pairwise_firsts (l : List α) :
    (firsts l).Pairwise fun a b => l.idxOf a < l.idxOf b := by
  induction l with
  | nil => exact List.Pairwise.nil
  | cons a l ih =>
    unfold firsts
    refine List.pairwise_cons.mpr ⟨?_, ?_⟩
    · intro b hb
      have hne : b ≠ a := by simpa using (List.mem_filter.mp hb).2
      rw [List.idxOf_cons_self, List.idxOf_cons_ne _ hne.symm]
      exact Nat.succ_pos _
    · refine (ih.filter (· ≠ a)).imp_of_mem ?_
      intro b c hb hc hlt
      have hb : b ≠ a := by simpa using (List.mem_filter.mp hb).2
      have hc : c ≠ a := by simpa using (List.mem_filter.mp hc).2
      rw [List.idxOf_cons_ne _ hb.symm, List.idxOf_cons_ne _ hc.symm]
      exact Nat.succ_lt_succ hlt

/-! ## Filtering and joining -/

theorem firsts_firsts (l : List α) : firsts (firsts l) = firsts l :=
  firsts_eq_self (nodup_firsts l)

theorem firsts_filter (p : α → Bool) (l : List α) :
    firsts (l.filter p) = (firsts l).filter p := by
  induction l with
  | nil => rfl
  | cons a l ih =>
    by_cases h : p a = true
    · rw [List.filter_cons_of_pos h, firsts, firsts, List.filter_cons_of_pos h, ih,
        List.filter_comm]
    · rw [List.filter_cons_of_neg h, firsts, List.filter_cons_of_neg h, ih, List.filter_filter]
      refine List.filter_congr fun b _ => ?_
      by_cases hb : b = a
      · subst hb
        simp [h]
      · simp [hb]

theorem keepsOrder_firsts_filter (p : α → Bool) (l : List α) :
    KeepsOrder (firsts (l.filter p)) l := by
  refine ⟨(firsts_sublist _).trans List.filter_sublist, ?_⟩
  rw [firsts_filter]
  exact (pairwise_firsts l).filter p

theorem firsts_append (l m : List α) :
    firsts (l ++ m) = firsts l ++ (firsts m).filter fun a => a ∉ l := by
  induction l with
  | nil => simp [firsts]
  | cons a l ih =>
    rw [List.cons_append, firsts, ih, firsts, List.filter_append, List.cons_append,
      List.filter_filter]
    congr 2
    refine List.filter_congr fun b _ => ?_
    simp

theorem firsts_append_congr {l l' m m' : List α} (hl : firsts l = firsts l')
    (hm : firsts m = firsts m') : firsts (l ++ m) = firsts (l' ++ m') := by
  have hmem : ∀ a, a ∈ l ↔ a ∈ l' := by
    intro a
    rw [← mem_firsts, hl, mem_firsts]
  rw [firsts_append, firsts_append, hl, hm]
  simp only [hmem]

/-! ## Multiplying out -/

omit [DecidableEq α] in
theorem firsts_flatMap_congr {f g : α → List β} (h : ∀ a, firsts (f a) = firsts (g a))
    (l : List α) : firsts (l.flatMap f) = firsts (l.flatMap g) := by
  induction l with
  | nil => rfl
  | cons a l ih =>
    rw [List.flatMap_cons, List.flatMap_cons]
    exact firsts_append_congr (h a) ih

/-- A member whose image is there already adds nothing. -/
theorem filter_flatMap_ne (f : α → List β) (a : α) (l : List α) :
    ((l.filter (· ≠ a)).flatMap f).filter (· ∉ f a) = (l.flatMap f).filter (· ∉ f a) := by
  induction l with
  | nil => rfl
  | cons b l ih =>
    by_cases h : b = a
    · subst h
      rw [List.filter_cons_of_neg (by simp), List.flatMap_cons, List.filter_append, ih]
      have hnone : (f b).filter (· ∉ f b) = [] := List.filter_eq_nil_iff.mpr (by simp)
      rw [hnone, List.nil_append]
    · rw [List.filter_cons_of_pos (by simpa using h), List.flatMap_cons, List.flatMap_cons,
        List.filter_append, List.filter_append, ih]

theorem firsts_flatMap_firsts (f : α → List β) (l : List α) :
    firsts ((firsts l).flatMap f) = firsts (l.flatMap f) := by
  induction l with
  | nil => rfl
  | cons a l ih =>
    rw [firsts, List.flatMap_cons, List.flatMap_cons, firsts_append, firsts_append, ← ih]
    congr 1
    calc (firsts (((firsts l).filter (· ≠ a)).flatMap f)).filter (· ∉ f a)
        = firsts ((((firsts l).filter (· ≠ a)).flatMap f).filter (· ∉ f a)) :=
          (firsts_filter _ _).symm
      _ = firsts (((firsts l).flatMap f).filter (· ∉ f a)) := by rw [filter_flatMap_ne]
      _ = (firsts ((firsts l).flatMap f)).filter (· ∉ f a) := firsts_filter _ _

end Variability
