-- Numberings: short numbers for the variables that clauses mention.
import Std.Data.HashMap
import Variability.Cnf.Valuation

namespace Variability.Sat

open Cnf

/-- Numbers from 1 on for variables, and the variables by their numbers; there
is none with the number zero. -/
structure Numbering where
  numbers : Std.HashMap Nat Nat
  names : Array Nat

namespace Numbering

def empty : Numbering := ⟨Std.HashMap.emptyWithCapacity, #[0]⟩

/-- How many variables have numbers. -/
def size (n : Numbering) : Nat := n.names.size - 1

/-- The number of a variable, or zero. -/
def number (n : Numbering) (v : Nat) : Nat := n.numbers.getD v 0

def nameOf (n : Numbering) (number : Nat) : Nat := n.names.getD number 0

/-- Gives a variable a number, unless it has one. -/
def add (n : Numbering) (v : Nat) : Numbering :=
  if n.numbers.contains v then n
  else ⟨n.numbers.insert v n.names.size, n.names.push v⟩

/-- Numbers for all variables of the clauses. -/
def ofClauses (cs : List Clause) : Numbering :=
  cs.foldl (fun n c => c.foldl (fun n l => n.add l.natAbs) n) empty

/-- Whether a literal has a variable with a number. -/
def knows (n : Numbering) (l : Int) : Bool :=
  l.natAbs ≠ 0 && n.number l.natAbs ≠ 0 && n.nameOf (n.number l.natAbs) = l.natAbs

/-- A literal in terms of numbers. -/
def literal (n : Numbering) (l : Int) : Int :=
  if l < 0 then -(n.number l.natAbs : Int) else n.number l.natAbs

/-- The valuation of the variables that a valuation of the numbers gives. -/
def named (n : Numbering) (v : Valuation) : Valuation := fun name => v (n.number name)

/-- The valuation of the numbers that a valuation of the variables gives. -/
def numbered (n : Numbering) (v : Valuation) : Valuation := fun number => v (n.nameOf number)

theorem literalHolds_literal {n : Numbering} {l : Int} (h : n.knows l = true) (v : Valuation) :
    literalHolds v (n.literal l) = literalHolds (n.named v) l := by
  simp only [knows, Bool.and_eq_true, decide_eq_true_eq] at h
  unfold literal literalHolds named
  have hpos := h.1.2
  by_cases hl : l < 0
  · have : -(n.number l.natAbs : Int) < 0 := by omega
    rw [if_pos hl, if_pos this, if_pos hl]
    simp
  · have : ¬ (n.number l.natAbs : Int) < 0 := by omega
    rw [if_neg hl, if_neg this, if_neg hl]
    simp

theorem clauseHolds_map_literal {n : Numbering} {c : Clause} (h : c.all n.knows = true)
    (v : Valuation) : clauseHolds v (c.map n.literal) = clauseHolds (n.named v) c := by
  rw [List.all_eq_true] at h
  unfold clauseHolds
  rw [List.any_map]
  exact Bool.eq_iff_iff.2
    ⟨fun hv => by
      obtain ⟨l, hl, hlv⟩ := List.any_eq_true.1 hv
      exact List.any_eq_true.2 ⟨l, hl, by rw [← literalHolds_literal (h l hl)]; exact hlv⟩,
    fun hv => by
      obtain ⟨l, hl, hlv⟩ := List.any_eq_true.1 hv
      refine List.any_eq_true.2 ⟨l, hl, ?_⟩
      rw [Function.comp, literalHolds_literal (h l hl)]
      exact hlv⟩

/-- All variables of the clauses have numbers. -/
def Covers (n : Numbering) (cs : List Clause) : Prop := ∀ c ∈ cs, c.all n.knows = true

theorem nameOf_number {n : Numbering} {cs : List Clause} (h : n.Covers cs) {v : Nat}
    (hv : Mentions cs v) : n.nameOf (n.number v) = v := by
  obtain ⟨c, hc, l, hl, rfl⟩ := hv
  have := List.all_eq_true.1 (h c hc) l hl
  simp only [knows, Bool.and_eq_true, decide_eq_true_eq] at this
  exact this.2

/-- Naming the numbers gives back what the clauses see of a valuation. -/
theorem clausesHold_named_numbered {n : Numbering} {cs : List Clause} (h : n.Covers cs)
    {v : Valuation} (hv : clausesHold v cs = true) :
    clausesHold (n.named (n.numbered v)) cs = true :=
  clausesHold_congr (fun m hm => by rw [named, numbered, nameOf_number h hm]) hv

end Numbering

end Variability.Sat
