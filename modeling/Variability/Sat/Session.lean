-- Sessions: clauses, what has been learned about them, and answers that come
-- with evidence.
import Variability.Sat.Learning
import Variability.Sat.Models
import Variability.Sat.Numbering

namespace Variability.Sat

open Cnf

/-! ## Clauses in terms of numbers -/

namespace Numbering

/-- The valuations of the numbers that satisfy the clauses. -/
def Models (n : Numbering) (cs : List Clause) (v : Valuation) : Prop :=
  clausesHold (n.named v) cs = true

/-- A clause in terms of numbers, in ascending order. -/
def clause (n : Numbering) (c : Clause) : Clause := inOrder (c.map n.literal)

theorem clauseHolds_clause {n : Numbering} {c : Clause} (h : c.all n.knows = true)
    (v : Valuation) : clauseHolds v (n.clause c) = clauseHolds (n.named v) c := by
  rw [clause, clauseHolds_inOrder, clauseHolds_map_literal h]

theorem clausesHold_map_clause {n : Numbering} {cs : List Clause} (h : n.Covers cs)
    (v : Valuation) : clausesHold v (cs.map n.clause) = true ↔ n.Models cs v := by
  rw [Models, clausesHold, clausesHold, List.all_map, List.all_eq_true, List.all_eq_true]
  exact forall_congr' fun c => forall_congr' fun hc => by
    rw [Function.comp, clauseHolds_clause (h c hc)]

/-- The variables that are true by their numbers. -/
def positives (n : Numbering) (v : Valuation) : List Int :=
  (n.names.toList.filter fun name => name ≠ 0 && v (n.number name)).map Int.ofNat

theorem mem_positives {n : Numbering} {v : Valuation} {m : Nat} :
    (m : Int) ∈ n.positives v ↔ m ∈ n.names ∧ m ≠ 0 ∧ v (n.number m) = true := by
  simp [positives, ← Int.ofNat_eq_natCast]

theorem consistent_positives (n : Numbering) (v : Valuation) : Consistent (n.positives v) := by
  have hpos : ∀ l ∈ n.positives v, 0 < l := by
    intro l hl
    obtain ⟨m, hm, rfl⟩ := List.mem_map.1 hl
    have := (List.mem_filter.1 hm).2
    simp only [Bool.and_eq_true, decide_eq_true_eq] at this
    exact Int.ofNat_lt.2 (Nat.pos_of_ne_zero this.1)
  intro l hl
  have := hpos l hl
  exact ⟨by omega, fun h => by have := hpos _ h; omega⟩

/-- The true variables make the clauses true. -/
theorem clausesHold_positives {n : Numbering} {cs : List Clause} (h : n.Covers cs)
    {v : Valuation} (hv : n.Models cs v) : clausesHold (completion (n.positives v)) cs = true := by
  refine clausesHold_congr (fun m hm => ?_) hv
  have hname := nameOf_number h hm
  have hzero : m ≠ 0 := by
    obtain ⟨c, hc, l, hl, rfl⟩ := hm
    have := List.all_eq_true.1 (h c hc) l hl
    simp only [knows, Bool.and_eq_true, decide_eq_true_eq] at this
    exact this.1.1
  have hmem : m ∈ n.names := by
    unfold nameOf at hname
    by_cases hb : n.number m < n.names.size
    · rw [Array.getD_eq_getD_getElem?, Array.getElem?_eq_getElem hb, Option.getD_some] at hname
      exact hname ▸ Array.getElem_mem hb
    · rw [Array.getD_eq_getD_getElem?, Array.getElem?_eq_none (by omega), Option.getD_none] at hname
      exact absurd hname.symm hzero
  rw [named, completion, Bool.eq_iff_iff, List.contains_iff_mem, mem_positives]
  exact ⟨fun hm => ⟨hmem, hzero, hm⟩, fun hm => hm.2.2⟩

end Numbering

/-! ## Sessions -/

/-- An engine for clauses, and the numbers it knows their variables by. -/
structure Learner (cs : List Clause) where
  numbering : Numbering
  covers : numbering.Covers cs
  engine : Engine (numbering.Models cs)

/-- What is known about clauses: what has been learned from them, or nothing. -/
inductive Session (cs : List Clause)
  | learner (l : Learner cs)
  | plain

/-- What a solver says. Variables that a model leaves out count as false. -/
inductive Verdict
  | model (literals : List Int)
  | unsatisfiable
  | interrupted
deriving DecidableEq, Repr

def verdictOf : Option (List Int) → Verdict
  | some found => .model found
  | none => .unsatisfiable

namespace Session

variable {cs : List Clause}

/-- A session with nothing learned. -/
def start (cs : List Clause) : Session cs :=
  let n := Numbering.ofClauses cs
  if h : cs.all (·.all n.knows) = true then
    have covers : n.Covers cs := List.all_eq_true.1 h
    let store := (Store.ofList (cs.map n.clause)).restate fun v =>
      (Numbering.clausesHold_map_clause covers v).symm
    .learner ⟨n, covers, Engine.start n.size store⟩
  else .plain

/-- One clause more. Where it has new variables, the session starts anew. -/
def give (c : Clause) : Session cs → Session (c :: cs)
  | .plain => .plain
  | .learner ⟨n, covers, engine⟩ =>
    if h : c.all n.knows = true then
      let engine := (engine.give (n.clause c)).restate fun v => by
        rw [Numbering.Models, Numbering.clauseHolds_clause h]
        simp [Numbering.Models, clausesHold]
      .learner ⟨n, List.forall_mem_cons.2 ⟨h, covers⟩, engine⟩
    else start (c :: cs)

/-- Whether the clauses can be satisfied, and what is known after the
question. Without an answer from what is learned, all is searched. -/
def ask : Session cs → Verdict × Session cs
  | .plain => (verdictOf (search cs), .plain)
  | .learner ⟨n, covers, engine⟩ =>
    match engine.solve with
    | (.found v _, engine) => (.model (n.positives v), .learner ⟨n, covers, engine⟩)
    | (.refuted _, engine) => (.unsatisfiable, .learner ⟨n, covers, engine⟩)
    | (.unknown, _) => (verdictOf (search cs), .plain)

/-- The models that the search gives make every clause true. -/
theorem of_verdictOf_search (hz : ZeroFree cs) :
    (∀ literals, verdictOf (search cs) = .model literals →
      Consistent literals ∧ clausesHold (completion literals) cs = true) ∧
    (verdictOf (search cs) = .unsatisfiable → ∀ v, clausesHold v cs = false) := by
  cases h : search cs with
  | none => exact ⟨(fun _ hm => nomatch hm), fun _ => search_eq_none hz h⟩
  | some found =>
    refine ⟨fun literals hm => ?_, fun hu => nomatch hu⟩
    cases hm
    exact (search_eq_some hz h).2

/-- A model consists of literals that fit together and make every clause
true. -/
theorem of_ask_model (hz : ZeroFree cs) {s : Session cs} {literals : List Int}
    (h : s.ask.1 = .model literals) :
    Consistent literals ∧ clausesHold (completion literals) cs = true := by
  unfold ask at h
  split at h
  · exact (of_verdictOf_search hz).1 _ h
  · rename_i n covers engine
    split at h
    · rename_i v hv _ _
      cases h
      exact ⟨n.consistent_positives v, Numbering.clausesHold_positives covers hv⟩
    · cases h
    · exact (of_verdictOf_search hz).1 _ h

/-- Clauses that are said to be unsatisfiable never hold together. -/
theorem of_ask_unsatisfiable (hz : ZeroFree cs) {s : Session cs}
    (h : s.ask.1 = .unsatisfiable) (v : Valuation) : clausesHold v cs = false := by
  unfold ask at h
  split at h
  · exact (of_verdictOf_search hz).2 h v
  · rename_i n covers engine
    split at h
    · cases h
    · rename_i none _ _
      exact Bool.eq_false_iff.2 fun hv =>
        none _ (Numbering.clausesHold_named_numbered covers hv)
    · exact (of_verdictOf_search hz).2 h v

end Session

end Variability.Sat
