-- Stores: the clauses of a question as a solver holds them, and the clauses
-- that it has derived.
import Std.Data.HashSet
import Variability.Sat.Resolution

namespace Variability.Sat

open Cnf

/-! ## Clauses that share their variables -/

/-- A clause in ascending order of its variables. -/
def byVariable (c : Clause) : Clause := c.mergeSort fun k l => decide (k.natAbs ≤ l.natAbs)

theorem clauseHolds_byVariable (v : Valuation) (c : Clause) :
    clauseHolds v (byVariable c) = clauseHolds v c :=
  (List.mergeSort_perm c _).any_eq

/-- The variables of a clause, literal by literal. -/
def scopeOf (c : Clause) : List Nat := c.map Int.natAbs

/-- The only clause with these variables that a valuation makes false. -/
def falseClause (v : Valuation) (scope : List Nat) : Clause :=
  scope.map fun n => if v n then -(n : Int) else n

theorem clauseHolds_of_ne_falseClause {v : Valuation} {c : Clause}
    (h : c ≠ falseClause v (scopeOf c)) : clauseHolds v c = true := by
  induction c with
  | nil => exact absurd rfl h
  | cons l c ih =>
    rw [clauseHolds, List.any_cons, Bool.or_eq_true]
    by_cases hl : l = if v l.natAbs then -(l.natAbs : Int) else l.natAbs
    · refine .inr (ih fun hc => h ?_)
      rw [scopeOf, List.map_cons, falseClause, List.map_cons, ← hl]
      exact congrArg (l :: ·) hc
    · left
      unfold literalHolds
      by_cases hv : v l.natAbs = true
      · rw [if_pos hv] at hl
        rw [if_neg (by omega), hv]
      · rw [if_neg hv] at hl
        rw [if_pos (by omega), eq_false_of_ne_true hv, Bool.not_false]

/-- Clauses in ascending order of their variables, and the lists of variables
that they have. -/
structure Scoped where
  clauses : Std.HashSet Clause
  scopes : Std.HashSet (List Nat)
  scope_mem : ∀ c ∈ clauses, scopeOf c ∈ scopes

namespace Scoped

def empty : Scoped := ⟨∅, ∅, by simp⟩

def insert : Scoped → Clause → Scoped
  | ⟨clauses, scopes, scope_mem⟩, c =>
    { clauses := clauses.insert (byVariable c)
      scopes := scopes.insert (scopeOf (byVariable c))
      scope_mem := fun d hd => by
        rcases Std.HashSet.mem_insert.1 hd with h | h
        · simp [eq_of_beq h]
        · exact Std.HashSet.mem_insert.2 (.inr (scope_mem d h)) }

theorem mem_insert {s : Scoped} {c d : Clause} :
    d ∈ (s.insert c).clauses ↔ byVariable c = d ∨ d ∈ s.clauses := by
  rw [insert, Std.HashSet.mem_insert, beq_iff_eq]

/-- No clause is false: one look-up for each list of variables. -/
def holds (s : Scoped) (v : Valuation) : Bool :=
  s.scopes.toList.all fun scope => !s.clauses.contains (falseClause v scope)

theorem clauseHolds_of_holds {s : Scoped} {v : Valuation} (h : s.holds v = true) {c : Clause}
    (hc : c ∈ s.clauses) : clauseHolds v c = true := by
  refine clauseHolds_of_ne_falseClause fun he => ?_
  have hnone := List.all_eq_true.1 h _ (Std.HashSet.mem_toList.2 (s.scope_mem c hc))
  rw [← he] at hnone
  simp [hc] at hnone

end Scoped

/-! ## Stores -/

/-- The clauses that say what `models` does, and clauses learned from them. The
first `base` of those given, and all `later` ones, are enough to say it. Many
of the later ones tend to share their variables. -/
structure Store (models : Valuation → Prop) where
  given : Array Clause
  base : Nat
  later : Scoped
  learned : Array Clause
  sound : ∀ c, c ∈ given ∨ c ∈ learned → ∀ v, models v → clauseHolds v c = true
  complete : ∀ v, (∀ i (h : i < given.size), i < base → clauseHolds v given[i] = true) →
    (∀ c ∈ later.clauses, clauseHolds v c = true) → models v

namespace Store

variable {models : Valuation → Prop}

/-! ## References -/

/-- The reference of a given clause; the clauses learned have the odd ones. -/
def givenRef (i : Nat) : Nat := 2 * i

def learnedRef (i : Nat) : Nat := 2 * i + 1

/-- The literals of the clause with a reference. -/
def literals (s : Store models) (ref : Nat) : Clause :=
  if ref % 2 = 0 then s.given.getD (ref / 2) [] else s.learned.getD (ref / 2) []

/-- The clause with a reference, as a consequence. -/
def consequence (s : Store models) (ref : Nat) : Consequence models :=
  if ref % 2 = 0 then
    if h : ref / 2 < s.given.size then
      ⟨s.given[ref / 2], s.sound _ (.inl (Array.getElem_mem h))⟩
    else .trivial
  else if h : ref / 2 < s.learned.size then
    ⟨s.learned[ref / 2], s.sound _ (.inr (Array.getElem_mem h))⟩
  else .trivial

/-! ## Changes -/

/-- The clauses of a list, with nothing learned. -/
def ofList (cs : List Clause) : Store fun v => clausesHold v cs = true where
  given := cs.toArray
  base := cs.length
  later := .empty
  learned := #[]
  sound c hc v hv := by
    rcases hc with hc | hc
    · exact List.all_eq_true.1 hv c (List.mem_toArray.1 hc)
    · cases List.mem_toArray.1 hc
  complete v h _ := List.all_eq_true.2 fun c hc => by
    obtain ⟨i, hi, rfl⟩ := List.getElem_of_mem hc
    exact List.getElem_toArray (by simpa using hi) ▸ h i (by simpa using hi) hi

/-- One clause more that models have to satisfy. -/
def give : Store models → (c : Clause) → Store fun v => clauseHolds v c = true ∧ models v
  | ⟨given, base, later, learned, sound, complete⟩, c =>
    { base, learned
      given := given.push c
      later := later.insert c
      sound := fun d hd v hv => by
        rw [Array.mem_push] at hd
        rcases hd with (hd | rfl) | hd
        · exact sound d (.inl hd) v hv.2
        · exact hv.1
        · exact sound d (.inr hd) v hv.2
      complete := fun v hbase hlater =>
        ⟨clauseHolds_byVariable v c ▸ hlater _ (Scoped.mem_insert.2 (.inl rfl)),
          complete v
            (fun i hi hib => by
              have := hbase i (by rw [Array.size_push]; omega) hib
              rwa [Array.getElem_push_lt hi] at this)
            fun d hd => hlater d (Scoped.mem_insert.2 (.inr hd))⟩ }

/-- Keeps a clause that follows. -/
def learn : Store models → Consequence models → Store models
  | ⟨given, base, later, learned, sound, complete⟩, c =>
    { given, base, later, complete
      learned := learned.push c.literals
      sound := fun d hd v hv => by
        rw [Array.mem_push] at hd
        rcases hd with hd | hd | rfl
        · exact sound d (.inl hd) v hv
        · exact sound d (.inr hd) v hv
        · exact c.holds v hv }

/-- Forgets the learned clauses with a place where `keep` does not hold. -/
def forget (s : Store models) (keep : Nat → Bool) : Store models where
  given := s.given
  base := s.base
  later := s.later
  learned := ((s.learned.toList.zipIdx.filter fun p => keep p.2).map Prod.fst).toArray
  sound d hd v hv := by
    refine s.sound d (hd.imp_right fun h => ?_) v hv
    obtain ⟨p, hp, rfl⟩ := List.mem_map.1 (List.mem_toArray.1 h)
    exact Array.mem_toList_iff.1 (List.fst_mem_of_mem_zipIdx (List.mem_filter.1 hp).1)
  complete := s.complete

/-- Replaces a given clause by a part of it that follows. -/
def strengthen (s : Store models) (i : Nat) (c : Consequence models) : Store models :=
  if h : i < s.given.size ∧ isPart c.literals (s.given.getD i []) = true then
    { given := s.given.set i c.literals h.1
      base := s.base
      later := s.later
      learned := s.learned
      sound := fun d hd v hv => by
        rcases hd with hd | hd
        · rcases Array.mem_or_eq_of_mem_set hd with hd | rfl
          · exact s.sound d (.inl hd) v hv
          · exact c.holds v hv
        · exact s.sound d (.inr hd) v hv
      complete := fun v hbase hlater => s.complete v (fun j hj hjb => by
        have hset := hbase j (by simpa using hj) hjb
        rw [Array.getElem_set] at hset
        by_cases hij : i = j
        · subst hij
          rw [if_pos rfl] at hset
          have hpart := h.2
          rw [Array.getD_eq_getD_getElem?, Array.getElem?_eq_getElem hj, Option.getD_some] at hpart
          exact clauseHolds_of_subset (subset_of_isPart hpart) hset
        · rwa [if_neg hij] at hset) hlater }
  else s

/-- The same clauses, with the models described in another way. -/
def restate {others : Valuation → Prop} (s : Store models) (h : ∀ v, others v ↔ models v) :
    Store others where
  given := s.given
  base := s.base
  later := s.later
  learned := s.learned
  sound c hc v hv := s.sound c hc v ((h v).1 hv)
  complete v hbase hlater := (h v).2 (s.complete v hbase hlater)

/-! ## Models -/

/-- Whether a valuation satisfies the clauses that say what models are. -/
@[inline] def holds (s : Store models) (v : Valuation) : Bool :=
  s.given.all (clauseHolds v) 0 s.base && s.later.holds v

theorem models_of_holds {s : Store models} {v : Valuation} (h : s.holds v = true) : models v := by
  unfold holds at h
  rw [Bool.and_eq_true, Array.all_iff_forall] at h
  exact s.complete v (fun i hi hib => h.1 i hi ⟨Nat.zero_le i, hib⟩)
    fun _ hc => Scoped.clauseHolds_of_holds h.2 hc

end Store

end Variability.Sat
