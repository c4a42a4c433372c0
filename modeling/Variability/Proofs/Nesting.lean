-- How the texts of formulas nest: the operators of a level that binds tighter
-- stand in parentheses, and what starts with a parenthesis is a group.
import Variability.Proofs.Grammar

namespace Variability

open Text Condition

/-! ## Operators in parentheses -/

/-- Wherever the operator stands, a parenthesis is open. -/
def Guarded (op : Char) (cs : List Char) : Prop :=
  ∀ front rest, cs = front ++ op :: rest → ∃ e, depth? 0 front = some (e + 1)

section Guarded

variable {op : Char} {xs ys : List Char}

theorem guarded_of_not_mem (h : op ∉ xs) : Guarded op xs := by
  rintro front rest rfl
  simp at h

theorem Guarded.append (hbalanced : Balanced xs) (hx : Guarded op xs) (hy : Guarded op ys) :
    Guarded op (xs ++ ys) := by
  intro front rest hsplit
  rcases List.append_eq_append_iff.mp hsplit with ⟨more, hfront, hys⟩ | ⟨more, hxs, hrest⟩
  · obtain ⟨e, he⟩ := hy more rest hys
    refine ⟨e, ?_⟩
    rw [hfront, depth?_append, hbalanced.depth? 0]
    exact he
  · cases more with
    | nil =>
      obtain ⟨e, he⟩ := hy [] rest hrest.symm
      cases he
    | cons c more =>
      rw [List.cons_append] at hrest
      cases hrest
      exact hx front more hxs

theorem Guarded.parens (hbalanced : Balanced xs) (hopen : op ≠ '(') (hclose : op ≠ ')') :
    Guarded op ('(' :: (xs ++ [')'])) := by
  intro front rest hsplit
  cases front with
  | nil =>
    cases hsplit
    exact absurd rfl hopen
  | cons c front =>
    rw [List.cons_append] at hsplit
    obtain ⟨rfl, hinside⟩ := List.cons.inj hsplit
    have hprefix : ∃ more, xs = front ++ more := by
      rcases List.append_eq_append_iff.mp hinside with ⟨more, hfront, hlast⟩ | ⟨more, hxs, _⟩
      · cases more with
        | nil => exact ⟨[], by rw [hfront]; simp⟩
        | cons d more =>
          rw [List.cons_append] at hlast
          have := (List.cons.inj hlast).2
          simp at this
      · exact ⟨more, hxs⟩
    obtain ⟨more, hmore⟩ := hprefix
    unfold Condition.Balanced at hbalanced
    rw [hmore] at hbalanced
    obtain ⟨k, hk⟩ := exists_depth?_of_append hbalanced
    exact ⟨k, by rw [depth?_open]; exact depth?_add hk 1⟩

end Guarded

theorem IsSign.eq_of_mem {op c : Char} {sign : List Char} (h : IsSign op sign) (hc : c ∈ sign) :
    c = op := by
  rcases h with rfl | rfl <;> simpa using hc

theorem IsSign.exists_front {op : Char} {sign : List Char} (h : IsSign op sign)
    (front rest : List Char) : ∃ more, front ++ (sign ++ rest) = more ++ op :: rest := by
  rcases h with rfl | rfl
  · exact ⟨front, rfl⟩
  · exact ⟨front ++ [op], by simp⟩

theorem IsSign.not_paren {op : Char} {sign : List Char} (h : IsSign op sign) (hopen : op ≠ '(')
    (hclose : op ≠ ')') : Balanced sign := by
  apply balanced_of_noParens
  intro c hc
  rw [h.eq_of_mem hc]
  exact ⟨hopen, hclose⟩

namespace Writes

section Nesting

variable {numericConstants : Bool} {level : Level} {cs : List Char} {f : Formula}

theorem balanced (h : Writes numericConstants level cs f) : Balanced cs := by
  induction h with
  | constant h => exact (isName_of_mem_constantWords h).isAtomText.balanced
  | feature h => exact h.isAtomText.balanced
  | negation hmark _ ih => rcases hmark with rfl | rfl <;> exact ih.cons (by decide) (by decide)
  | parens _ ih => exact ih.parens
  | before hblank _ ih =>
    exact ih.cons (not_paren_of_isBlank hblank).1 (not_paren_of_isBlank hblank).2
  | behind hblank _ ih =>
    apply ih.append
    apply balanced_of_blanks
    intro c hc
    rwa [List.mem_singleton.mp hc]
  | one_factor _ ih => exact ih
  | conjunction _ hsign _ ihf ihg =>
    exact ihf.append ((hsign.not_paren (by decide) (by decide)).append ihg)
  | one_conjunction _ ih => exact ih
  | disjunction _ hsign _ ihf ihg =>
    exact ihf.append ((hsign.not_paren (by decide) (by decide)).append ihg)

/-- In a factor both operators stand in parentheses. -/
theorem guarded_factor (h : Writes numericConstants .factor cs f) :
    Guarded '&' cs ∧ Guarded '|' cs := by
  induction h using Writes.factor_induction with
  | constant h =>
    have := (isName_of_mem_constantWords h).isAtomText.no_operator
    exact ⟨guarded_of_not_mem this.1, guarded_of_not_mem this.2⟩
  | feature h =>
    have := h.isAtomText.no_operator
    exact ⟨guarded_of_not_mem this.1, guarded_of_not_mem this.2⟩
  | @negation c _ _ hmark _ ih =>
    have hmarkb : Balanced [c] := by
      rcases hmark with rfl | rfl <;> rfl
    have hop : '&' ∉ [c] ∧ '|' ∉ [c] := by
      rcases hmark with rfl | rfl <;> decide
    exact ⟨Guarded.append hmarkb (guarded_of_not_mem hop.1) ih.1,
      Guarded.append hmarkb (guarded_of_not_mem hop.2) ih.2⟩
  | parens h =>
    exact ⟨Guarded.parens h.balanced (by decide) (by decide),
      Guarded.parens h.balanced (by decide) (by decide)⟩
  | @before c _ _ hblank _ ih =>
    have hblanks : ∀ d ∈ [c], isBlank d = true := by simpa using hblank
    have hop := not_operator_of_isBlank hblank
    exact ⟨Guarded.append (balanced_of_blanks hblanks) (guarded_of_not_mem (by simp [hop.1.symm]))
        ih.1,
      Guarded.append (balanced_of_blanks hblanks) (guarded_of_not_mem (by simp [hop.2.symm]))
        ih.2⟩
  | @behind c _ _ hblank h ih =>
    have hop := not_operator_of_isBlank hblank
    exact ⟨Guarded.append h.balanced ih.1 (guarded_of_not_mem (by simp [hop.1.symm])),
      Guarded.append h.balanced ih.2 (guarded_of_not_mem (by simp [hop.2.symm]))⟩

/-- In a conjunction the operator that binds less stands in parentheses. -/
theorem guarded_conjunction (h : Writes numericConstants .conjunction cs f) : Guarded '|' cs := by
  induction h using Writes.conjunction_induction with
  | one_factor h => exact h.guarded_factor.2
  | conjunction h hsign _ ih =>
    apply Guarded.append h.balanced h.guarded_factor.2
    apply Guarded.append (hsign.not_paren (by decide) (by decide)) _ ih
    apply guarded_of_not_mem
    rcases hsign with rfl | rfl <;> decide

/-! ## One level down -/

theorem conjunction_of_no_or (h : Writes numericConstants .disjunction cs f) (hor : '|' ∉ cs) :
    Writes numericConstants .conjunction cs f := by
  cases h with
  | one_conjunction h => exact h
  | disjunction _ hsign =>
    rcases hsign with rfl | rfl <;> simp at hor

theorem factor_of_no_and (h : Writes numericConstants .conjunction cs f) (hand : '&' ∉ cs) :
    Writes numericConstants .factor cs f := by
  cases h with
  | one_factor h => exact h
  | conjunction _ hsign =>
    rcases hsign with rfl | rfl <;> simp at hand

/-! ## Groups, negations and atoms -/

/-- A factor that starts with a parenthesis is a group. -/
theorem group_of_factor (h : Writes numericConstants .factor ('(' :: cs) f) :
    ∃ inner rest, cs = inner ++ ')' :: rest ∧ Writes numericConstants .disjunction inner f ∧
      ∀ c ∈ rest, isBlank c = true := by
  generalize hx : '(' :: cs = x at h
  induction h using Writes.factor_induction generalizing cs with
  | constant h =>
    have := (isName_of_mem_constantWords h).isAtomText.head '(' (by rw [← hx]; rfl)
    exact absurd rfl this.opening
  | feature h =>
    have := h.isAtomText.head '(' (by rw [← hx]; rfl)
    exact absurd rfl this.opening
  | negation hmark =>
    cases hx
    rcases hmark with hmark | hmark <;> cases hmark
  | parens h =>
    cases hx
    exact ⟨_, [], rfl, h, by simp⟩
  | before hblank =>
    cases hx
    exact absurd hblank (by decide)
  | @behind c _ _ hblank h ih =>
    obtain ⟨first, more, hcons⟩ := List.exists_cons_of_ne_nil h.ne_nil
    rw [hcons, List.cons_append] at hx
    cases hx
    obtain ⟨inner, rest, hmore, hinner, hrest⟩ := ih hcons.symm
    refine ⟨inner, rest ++ [c], ?_, hinner, ?_⟩
    · rw [hmore, List.append_assoc, List.cons_append]
    · intro d hd
      rcases List.mem_append.mp hd with hd | hd
      · exact hrest d hd
      · rwa [List.mem_singleton.mp hd]

theorem not_blanks_of_sign {op : Char} {sign front back : List Char} (hsign : IsSign op sign)
    (hop : isBlank op = false) : ¬ ∀ c ∈ front ++ (sign ++ back), isBlank c = true := by
  intro h
  have hmem : op ∈ front ++ (sign ++ back) := by
    rcases hsign with rfl | rfl <;> simp
  rw [h op hmem] at hop
  cases hop

/-- A conjunction that starts with a parenthesis starts with a group, which says
no less; if only blanks follow, it says the same. -/
theorem group_of_conjunction (h : Writes numericConstants .conjunction ('(' :: cs) f) :
    ∃ inner rest g, cs = inner ++ ')' :: rest ∧ Writes numericConstants .disjunction inner g ∧
      (∀ a, f.holds a = true → g.holds a = true) ∧
      ((∀ c ∈ rest, isBlank c = true) → f = g) := by
  generalize hx : '(' :: cs = x at h
  cases h with
  | one_factor h =>
    rw [← hx] at h
    obtain ⟨inner, rest, hcs, hinner, _⟩ := h.group_of_factor
    exact ⟨inner, rest, f, hcs, hinner, fun _ ha => ha, fun _ => rfl⟩
  | @conjunction front back sign g _ h hsign =>
    obtain ⟨first, more, hcons⟩ := List.exists_cons_of_ne_nil h.ne_nil
    rw [hcons, List.cons_append] at hx
    cases hx
    rw [hcons] at h
    obtain ⟨inner, rest, hmore, hinner, _⟩ := h.group_of_factor
    refine ⟨inner, rest ++ (sign ++ back), g, ?_, hinner, ?_, ?_⟩
    · rw [hmore, List.append_assoc, List.cons_append]
    · intro a ha
      exact (Bool.and_eq_true _ _ ▸ ha : _ ∧ _).1
    · intro hblanks
      exact absurd hblanks (not_blanks_of_sign hsign (by decide))

/-- A disjunction that starts with a parenthesis starts with a group; if only
blanks follow, it says the same. -/
theorem group_of_disjunction (h : Writes numericConstants .disjunction ('(' :: cs) f) :
    ∃ inner rest g, cs = inner ++ ')' :: rest ∧ Writes numericConstants .disjunction inner g ∧
      ((∀ c ∈ rest, isBlank c = true) → f = g) := by
  generalize hx : '(' :: cs = x at h
  cases h with
  | one_conjunction h =>
    rw [← hx] at h
    obtain ⟨inner, rest, g, hcs, hinner, _, hsame⟩ := h.group_of_conjunction
    exact ⟨inner, rest, g, hcs, hinner, hsame⟩
  | @disjunction front back sign _ _ h hsign =>
    obtain ⟨first, more, hcons⟩ := List.exists_cons_of_ne_nil h.ne_nil
    rw [hcons, List.cons_append] at hx
    cases hx
    rw [hcons] at h
    obtain ⟨inner, rest, g, hmore, hinner, _⟩ := h.group_of_conjunction
    refine ⟨inner, rest ++ (sign ++ back), g, ?_, hinner, ?_⟩
    · rw [hmore, List.append_assoc, List.cons_append]
    · intro hblanks
      exact absurd hblanks (not_blanks_of_sign hsign (by decide))

/-- What follows a mark of negation is the negated factor. -/
theorem negated_of_factor {c : Char} (h : Writes numericConstants .factor (c :: cs) f)
    (hmark : isNegation c = true) :
    ∃ g, Writes numericConstants .factor cs g ∧ ∀ a, f.holds a = !g.holds a := by
  generalize hx : c :: cs = x at h
  induction h using Writes.factor_induction generalizing cs with
  | constant h =>
    have := (isName_of_mem_constantWords h).isAtomText.head c (by rw [← hx]; rfl)
    rw [this.negation] at hmark
    cases hmark
  | feature h =>
    have := h.isAtomText.head c (by rw [← hx]; rfl)
    rw [this.negation] at hmark
    cases hmark
  | negation _ h =>
    cases hx
    exact ⟨_, h, fun _ => rfl⟩
  | parens =>
    cases hx
    exact absurd hmark (by decide)
  | before hblank =>
    cases hx
    unfold isNegation at hmark
    simp only [Bool.or_eq_true, decide_eq_true_eq] at hmark
    rcases hmark with rfl | rfl <;> exact absurd hblank (by decide)
  | behind hblank h ih =>
    obtain ⟨first, more, hcons⟩ := List.exists_cons_of_ne_nil h.ne_nil
    rw [hcons, List.cons_append] at hx
    cases hx
    obtain ⟨g, hg, hsame⟩ := ih hcons.symm
    exact ⟨g, behind hblank hg, hsame⟩

/-- A factor without blanks around it that is neither negated nor a group is a
constant or a feature. -/
theorem atom_of_factor (h : Writes numericConstants .factor cs f) (htrimmed : Trimmed cs)
    (hhead : ∀ c, cs.head? = some c → isNegation c = false ∧ c ≠ '(') :
    (∃ word value, (word, value) ∈ constantWords numericConstants ∧ cs = word.toList ∧
      f = .constant value) ∨
    ∃ name, WritesFeature numericConstants cs name ∧ f = .feature (String.ofList name) := by
  cases h with
  | constant h => exact Or.inl ⟨_, _, h, rfl, rfl⟩
  | feature h => exact Or.inr ⟨_, h, rfl⟩
  | negation hmark =>
    have := (hhead _ rfl).1
    rcases hmark with rfl | rfl <;> exact absurd this (by decide)
  | parens => exact absurd rfl (hhead _ rfl).2
  | before hblank =>
    have := htrimmed.head _ rfl
    rw [hblank] at this
    cases this
  | behind hblank =>
    have := htrimmed.last _ List.getLast?_concat
    rw [hblank] at this
    cases this

end Nesting

end Writes

end Variability
