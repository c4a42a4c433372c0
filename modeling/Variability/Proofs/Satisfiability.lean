-- Satisfiability: a condition without terms is the only one that no values
-- satisfy, so whether conditions can hold together is read off their
-- conjunction, and no solver has to be asked.
import Variability.Proofs.Construction
import Variability.Proofs.Enumeration

namespace Variability

/-! ## Values that satisfy a term -/

namespace Term

variable {t : Term}

/-- The values that a term demands: its features are selected, unless they are
negated. -/
def demanded (t : Term) : Table String Bool :=
  Table.ofList (t.literals.map fun l => (l.name, !l.negated))

theorem names_nodup (h : t.isContradictory = false) : (t.literals.map (·.name)).Nodup := by
  refine List.Nodup.map_on ?_ t.nodup
  intro l hl m hm hname
  exact eq_of_name_eq h hl hm hname

theorem get?_demanded (h : t.isContradictory = false) {l : Literal} (hl : l ∈ t.literals) :
    t.demanded.get? l.name = some (!l.negated) := by
  have hentries : t.demanded.entries = t.literals.map fun l => (l.name, !l.negated) := by
    apply Table.entries_ofList
    rw [List.map_map]
    exact names_nodup h
  apply Table.get?_of_mem (p := (l.name, !l.negated))
  rw [hentries]
  exact List.mem_map_of_mem hl

/-- A term that does not contradict itself is satisfied by what it demands,
whatever else is deselected. -/
theorem agrees_demanded (h : t.isContradictory = false) :
    t.agrees (Condition.valuesIn t.demanded) = true := by
  unfold Condition.valuesIn
  rw [agrees_some, holds_iff]
  intro l hl
  change ((t.demanded.get? l.name).getD false != l.negated) = true
  rw [get?_demanded h hl, Option.getD_some]
  cases l.negated <;> rfl

end Term

/-! ## Conditions that nothing satisfies -/

namespace Condition

theorem isFalse_iff_no_values {c : Condition} :
    c.isFalse = true ↔ ∀ given : Table String Bool, c.agrees (valuesIn given) = false := by
  constructor
  · intro hfalse given
    unfold valuesIn
    rw [agrees_some]
    exact holds_of_isFalse hfalse _
  · intro hnone
    unfold isFalse
    rw [List.isEmpty_iff, List.eq_nil_iff_forall_not_mem]
    intro t ht
    have hsatisfied : c.agrees (valuesIn t.demanded) = true :=
      List.any_eq_true.mpr ⟨t, ht, Term.agrees_demanded (c.normal.consistent t ht)⟩
    rw [hnone] at hsatisfied
    cases hsatisfied

theorem isFalse_iff_no_assignment {c : Condition} :
    c.isFalse = true ↔ ∀ a : Assignment, c.holds a = false := by
  constructor
  · exact holds_of_isFalse
  · intro hnone
    rw [isFalse_iff_no_values]
    intro given
    unfold valuesIn
    rw [agrees_some]
    exact hnone _

/-! ## Conditions that hold together -/

theorem holds_product (d : Dialect) (cs : List Condition) (a : Assignment) :
    (product d cs).holds a = cs.all (·.holds a) := by
  unfold product
  rw [holds_ofTerms]
  induction cs with
  | nil => rfl
  | cons c cs ih =>
    rw [choices, any_holds_termProducts, ih, List.all_cons]
    rfl

/-- Conjoining one condition after the other multiplies all of them out. -/
theorem foldlM_conjoin_product {d : Dialect} {cs : List Condition}
    (h : ∀ c ∈ cs, c.dialect = d) (before : List Condition) :
    cs.foldlM conjoin (product d before) = .ok (product d (before ++ cs)) := by
  induction cs generalizing before with
  | nil =>
    rw [List.append_nil]
    rfl
  | cons c cs ih =>
    obtain ⟨hc, hcs⟩ := List.forall_mem_cons.mp h
    have hstep : (product d before).conjoin c = .ok (product d (before ++ [c])) := by
      rw [← conjoin_product, ← hc, product_single]
    rw [List.foldlM_cons, hstep]
    change cs.foldlM conjoin (product d (before ++ [c])) = _
    rw [ih hcs, List.append_assoc]
    rfl

theorem isFalse_product_iff (d : Dialect) (cs : List Condition) :
    (product d cs).isFalse = true ↔
      ∀ given : Table String Bool, ∃ c ∈ cs, c.agrees (valuesIn given) = false := by
  rw [isFalse_iff_no_values]
  refine forall_congr' fun given => ?_
  unfold valuesIn
  simp only [agrees_some, holds_product, List.all_eq_false, Bool.not_eq_true]

/-- However a condition is made, it is false exactly if no values satisfy it,
those missing counting as false, and so exactly if none satisfy the raw terms
that it is made of. With others of its dialect it has a conjunction, and that is
false exactly if no values satisfy all of them. Then its space is empty and
exhausted, whatever solver there would be, or none. -/
theorem conditions_conjoin_to_false_exactly_if_no_values_satisfy_all {raw : List (List Literal)}
    {c : Condition} (h : Made raw c) {others : List Condition}
    (hdialect : ∀ k ∈ others, k.dialect = c.dialect) :
    (c.isFalse = true ↔ ∀ a : Assignment, c.holds a = false) ∧
    (c.isFalse = true ↔ ∀ given : Table String Bool, c.agrees (valuesIn given) = false) ∧
    (c.isFalse = true ↔ ∀ a : Assignment, ∀ ls ∈ raw, ∃ l ∈ ls, l.holds a = false) ∧
    ∃ joined, others.foldlM conjoin c = .ok joined ∧
      (joined.isFalse = true ↔ ∀ given : Table String Bool,
        ∃ k ∈ c :: others, k.agrees (valuesIn given) = false) ∧
      ∀ (choose : SolverChoice) (w : Workspace) (cache : ModelCache) (r : SpaceRequest)
        (limit : Nat) (budget : Option Float) (m : LoadedModel),
        limitError? r.limit = none → r.limit.readCount = .ok limit → 0 < limit →
        Budget.ofValue w.depths.values r.budget = .ok budget →
        (cache.load w r.modelPath).answer = .ok m → joined.isFalse = true →
        (joined.enumerate choose w cache r).answer =
          .ok { Space.start joined.render limit with exhausted := true } := by
  have hjoined : others.foldlM conjoin c = .ok (product c.dialect (c :: others)) := by
    have hfold := foldlM_conjoin_product hdialect [c]
    rw [product_single] at hfold
    exact hfold
  refine ⟨isFalse_iff_no_assignment, isFalse_iff_no_values, ?_, product c.dialect (c :: others),
    hjoined, isFalse_product_iff _ _, ?_⟩
  · obtain ⟨d, rfl⟩ := h.eq_ofTerms
    rw [isFalse_iff_no_assignment]
    refine forall_congr' fun a => ?_
    simp only [(isNormalFormOf_ofTerms d raw).meaning a, List.any_eq_false, List.all_eq_true,
      not_forall, Bool.not_eq_true, exists_prop]
  · intro choose w cache r limit budget m hlimit hcount hpos hbudget hload hfalse
    rw [enumerate_of_count choose _ hlimit hcount hbudget hload]
    simp only [spaceUnder_of_isFalse hfalse hpos]

/-- `A || B`, `!A` and `!B`: every two of them hold together somewhere. -/
def pairwiseSatisfiable : List Condition :=
  let a : Literal := ⟨"A", false, isFeatureName_A⟩
  let b : Literal := ⟨"B", false, isFeatureName_B⟩
  [ofTerms .plain [Term.ofList [a], Term.ofList [b]], ofTerms .plain [Term.ofList [a.negate]],
    ofTerms .plain [Term.ofList [b.negate]]]

/-- No values satisfy all three, and their space is found without a solver. -/
theorem three_conditions_are_enumerated_without_a_solver :
    let r : SpaceRequest := ⟨"/model", .int 2, .null, "none"⟩
    ∃ joined, pairwiseSatisfiable.foldlM conjoin (always .plain) = .ok joined ∧
      (∀ given : Table String Bool,
        ∃ k ∈ always .plain :: pairwiseSatisfiable, k.agrees (valuesIn given) = false) ∧
      (joined.enumerate (fun _ _ => .error .unknownName) oneClause .empty r).answer =
        .ok { Space.start joined.render 2 with exhausted := true } := by
  intro r
  obtain ⟨m, hload⟩ := load_oneClause
  obtain ⟨_, _, _, joined, hjoined, hiff, hspace⟩ :=
    conditions_conjoin_to_false_exactly_if_no_values_satisfy_all (.always .plain)
      (show ∀ k ∈ pairwiseSatisfiable, k.dialect = (always .plain).dialect by decide)
  have hmap : (pairwiseSatisfiable.foldlM conjoin (always .plain)).map isFalse = .ok true := by
    decide +kernel
  rw [hjoined] at hmap
  have hfalse : joined.isFalse = true := Except.ok.inj hmap
  exact ⟨joined, hjoined, hiff.mp hfalse,
    hspace (fun _ _ => .error .unknownName) oneClause .empty r 2 none m rfl rfl (by decide) rfl
      hload hfalse⟩

end Condition

end Variability
