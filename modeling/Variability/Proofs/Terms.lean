-- Reading one term: the text between two operators may be a conjunction, or
-- only as much of one as stands before the next operator.
import Variability.Proofs.Literals

namespace Variability.Condition

open Text

/-! ## What is seen of a text -/

/-- What a reader has of a text who does not look at parentheses: all of it, all
of it with the end of a group behind it, or a part that ends inside a group. -/
inductive Seen (whole : List Char) : List Char → Prop
  | all : Seen whole whole
  | closed (rest : List Char) : Seen whole (whole ++ ')' :: rest)
  | inside {cs rest : List Char} {e : Nat} : whole = cs ++ rest → depth? 0 cs = some (e + 1) →
      Seen whole cs

/-- The truth of what has been read as a term: `none` is false. -/
def readHolds (a : Assignment) : Option (List Literal) → Bool
  | none => false
  | some ls => ls.all (·.holds a)

section Terms

variable {numericConstants : Bool} {source : String} {whole cs : List Char} {f : Formula}

/-! ## Literals one after the other -/

/-- A literal that is read, before others: it is balanced, and unless it is
false, the others are read as well. -/
theorem readLiterals_cons {q : List Char} {more : List (List Char)} {r : Option (List Literal)}
    (h : readLiterals numericConstants source (q :: more) = .ok r) :
    ∃ x, readLiteral numericConstants source q = .ok x ∧
      ((r = none ∧ ∀ a, x.holds a = false) ∨
        ∃ others, readLiterals numericConstants source more = .ok others ∧
          (r.isSome = others.isSome) ∧
          ∀ a, readHolds a r = (x.holds a && readHolds a others)) := by
  unfold readLiterals at h
  split at h
  · cases h
  · rename_i hfalse
    cases h
    exact ⟨_, hfalse, Or.inl ⟨rfl, fun _ => rfl⟩⟩
  · rename_i htrue
    exact ⟨_, htrue, Or.inr ⟨r, h, rfl, fun _ => (Bool.true_and _).symm⟩⟩
  · rename_i l hl
    refine ⟨_, hl, Or.inr ?_⟩
    cases hmore : readLiterals numericConstants source more with
    | error e =>
      rw [hmore] at h
      cases h
    | ok others =>
      rw [hmore] at h
      cases h
      refine ⟨others, rfl, Option.isSome_map, ?_⟩
      intro a
      cases others with
      | none => exact (Bool.and_false _).symm
      | some ls => exact List.all_cons

theorem balanced_of_readLiterals {q : List Char} {more : List (List Char)}
    {r : Option (List Literal)} (h : readLiterals numericConstants source (q :: more) = .ok r) :
    Balanced q := by
  obtain ⟨x, hx, _⟩ := readLiterals_cons h
  exact balanced_of_readLiteral hx

theorem not_balanced_of_depth? {e : Nat} (h : depth? 0 cs = some (e + 1)) : ¬ Balanced cs := by
  unfold Balanced
  rw [h]
  simp

/-- The first operand of a factor, and of what follows it, is balanced only if
the factor has no operator. -/
theorem no_and_of_first (h : Writes numericConstants .factor whole f) (rest : List Char)
    (hfirst : ∀ q more, operands '&' (whole ++ rest) = q :: more → Balanced q) :
    '&' ∉ whole := by
  intro hand
  obtain ⟨q, more, rfl, hq⟩ := List.eq_append_cons_of_mem hand
  obtain ⟨e, he⟩ := h.guarded_factor.1 q more rfl
  rw [List.append_assoc, List.cons_append, operands_append_cons hq] at hfirst
  exact not_balanced_of_depth? he (hfirst _ _ rfl)

/-- The first operand of a part that ends inside a factor is not balanced. -/
theorem not_inside_of_first (h : Writes numericConstants .factor whole f) {rest : List Char}
    {e : Nat} (hwhole : whole = cs ++ rest) (hdepth : depth? 0 cs = some (e + 1))
    (hfirst : ∀ q more, operands '&' cs = q :: more → Balanced q) : False := by
  by_cases hand : '&' ∈ cs
  · obtain ⟨q, more, hcs, hq⟩ := List.eq_append_cons_of_mem hand
    have hsplit : whole = q ++ '&' :: (more ++ rest) := by
      rw [hwhole, hcs, List.append_assoc, List.cons_append]
    obtain ⟨e', he'⟩ := h.guarded_factor.1 q _ hsplit
    rw [hcs, operands_append_cons hq] at hfirst
    exact not_balanced_of_depth? he' (hfirst _ _ rfl)
  · rw [operands_of_not_mem hand] at hfirst
    exact not_balanced_of_depth? hdepth (hfirst _ _ rfl)

/-- A factor is not read with the end of a group behind it. -/
theorem not_closed_of_first (h : Writes numericConstants .factor whole f) {rest : List Char}
    (hfirst : ∀ q more, operands '&' (whole ++ ')' :: rest) = q :: more → Balanced q) : False := by
  have hwhole := no_and_of_first h _ hfirst
  by_cases hand : '&' ∈ rest
  · obtain ⟨q, more, rfl, hq⟩ := List.eq_append_cons_of_mem hand
    have hq' : '&' ∉ whole ++ ')' :: q := by simp [hwhole, hq]
    rw [← List.cons_append, ← List.append_assoc, operands_append_cons hq'] at hfirst
    exact h.balanced.not_close q (hfirst _ _ rfl)
  · have hnone : '&' ∉ whole ++ ')' :: rest := by simp [hwhole, hand]
    rw [operands_of_not_mem hnone] at hfirst
    exact h.balanced.not_close rest (hfirst _ _ rfl)

/-! ## Conjunctions -/

theorem operands_sign {op : Char} {sign front back : List Char} (hsign : IsSign op sign)
    (hfront : op ∉ front) (hback : back.head? ≠ some op) :
    operands op (front ++ (sign ++ back)) = front :: operands op back := by
  rcases hsign with rfl | rfl
  · rw [List.singleton_append, operands_append_cons hfront, dropOne_of_ne hback]
  · rw [List.cons_append, List.singleton_append, operands_append_cons hfront, dropOne_self]

/-- What is seen of a text starts as the text does. -/
theorem Seen.head?_eq (hseen : Seen whole cs) (hwhole : whole ≠ []) : cs.head? = whole.head? := by
  cases hseen with
  | all => rfl
  | closed rest => exact List.head?_append_of_ne_nil _ hwhole
  | inside hsplit hdepth =>
    cases cs with
    | nil => cases hdepth
    | cons c cs =>
      rw [hsplit]
      rfl

/-- Where some of a conjunction is seen and its first operand is balanced, its
first factor is seen, and some of what follows it. -/
theorem Seen.after_factor {front sign : List Char} {g : Formula} (hsign : IsSign '&' sign)
    (h : Writes numericConstants .factor front f)
    (hback : Writes numericConstants .conjunction whole g)
    (hseen : Seen (front ++ (sign ++ whole)) cs)
    (hfirst : ∀ q more, operands '&' cs = q :: more → Balanced q) :
    ∃ rest, cs = front ++ (sign ++ rest) ∧ Seen whole rest ∧ '&' ∉ front ∧
      operands '&' cs = front :: operands '&' rest := by
  have hbalanced := hsign.not_paren (by decide) (by decide)
  have hcases : ∃ rest, cs = front ++ (sign ++ rest) ∧ Seen whole rest := by
    cases hseen with
    | all => exact ⟨whole, rfl, .all⟩
    | closed rest =>
      exact ⟨whole ++ ')' :: rest, by simp only [List.append_assoc], .closed rest⟩
    | inside hsplit hdepth =>
      rcases List.append_eq_append_iff.mp hsplit with ⟨more, hcs, hmore⟩ | ⟨more, hfront, _⟩
      · rw [hcs, depth?_append, h.balanced.depth? 0, Option.bind_some] at hdepth
        rcases List.append_eq_append_iff.mp hmore with ⟨rest, hrest, hwhole⟩ | ⟨rest, hrest, _⟩
        · rw [hrest, depth?_append, hbalanced.depth? 0] at hdepth
          exact ⟨rest, by rw [hcs, hrest], .inside hwhole hdepth⟩
        · rw [hrest] at hbalanced
          obtain ⟨k, hk⟩ := exists_depth?_of_append hbalanced
          have hmarks : ∀ c ∈ more, c ≠ '(' ∧ c ≠ ')' := by
            intro c hc
            have hmem : c ∈ sign := hrest ▸ List.mem_append_left _ hc
            rw [hsign.eq_of_mem hmem]
            decide
          rw [depth?_of_noParens hmarks] at hdepth
          cases hdepth
      · exact (not_inside_of_first h hfront hdepth hfirst).elim
  obtain ⟨rest, rfl, hrest⟩ := hcases
  have hand := no_and_of_first h _ hfirst
  refine ⟨rest, rfl, hrest, hand, operands_sign hsign hand ?_⟩
  rw [hrest.head?_eq hback.ne_nil]
  intro hhead
  exact (hback.head_ne hhead).1 rfl

/-- What is read of a conjunction, without a look at parentheses, is what the
conjunction says; unless it is false, the whole conjunction has been read. -/
theorem readLiterals_of_conjunction (h : Writes numericConstants .conjunction whole f)
    (hseen : Seen whole cs) (hor : '|' ∉ cs) {r : Option (List Literal)}
    (hread : readLiterals numericConstants source (operands '&' cs) = .ok r) :
    (r.isSome = true → cs = whole) ∧ ∀ a, readHolds a r = f.holds a := by
  have hfirst : ∀ q more, operands '&' cs = q :: more → Balanced q := by
    intro q more hq
    rw [hq] at hread
    exact balanced_of_readLiterals hread
  induction h using Writes.conjunction_induction generalizing cs r with
  | @one_factor text _ h =>
    cases hseen with
    | closed rest => exact (not_closed_of_first h hfirst).elim
    | inside hsplit hdepth => exact (not_inside_of_first h hsplit hdepth hfirst).elim
    | all =>
      have hand : '&' ∉ text := no_and_of_first h [] (by rwa [List.append_nil])
      rw [operands_of_not_mem hand] at hread
      obtain ⟨x, hx, hcases⟩ := readLiterals_cons hread
      have hsame := readLiteral_of_factor h hand hor hx
      refine ⟨fun _ => rfl, ?_⟩
      intro a
      rw [← hsame a]
      rcases hcases with ⟨rfl, hfalse⟩ | ⟨others, hothers, _, hholds⟩
      · exact (hfalse a).symm
      · cases hothers
        rw [hholds a]
        exact Bool.and_true _
  | conjunction h hsign hback ih =>
    obtain ⟨rest, rfl, hrest, hand, hops⟩ := hseen.after_factor hsign h hback hfirst
    rw [hops] at hread
    obtain ⟨x, hx, hcases⟩ := readLiterals_cons hread
    have horFront := fun hm => hor (List.mem_append_left _ hm)
    have horRest := fun hm => hor (List.mem_append_right _ (List.mem_append_right _ hm))
    have hsame := readLiteral_of_factor h hand horFront hx
    rcases hcases with ⟨rfl, hfalse⟩ | ⟨others, hothers, hsome, hholds⟩
    · refine ⟨nofun, ?_⟩
      intro a
      rw [Formula.holds, ← hsame a, hfalse a]
      rfl
    · have hfirst' : ∀ q more, operands '&' rest = q :: more → Balanced q := by
        intro q more hq
        rw [hq] at hothers
        exact balanced_of_readLiterals hothers
      obtain ⟨hall, hmeaning⟩ := ih hrest horRest hothers hfirst'
      refine ⟨?_, ?_⟩
      · intro hr
        rw [hall (hsome ▸ hr)]
      · intro a
        rw [Formula.holds, hholds a, hsame a, hmeaning a]

/-! ## Terms -/

theorem not_blank_of_close {cs : List Char} (h : ∀ c ∈ cs, isBlank c = true) : ')' ∉ cs :=
  fun hm => absurd (h _ hm) (by decide)

/-- What is seen of a conjunction is, without the blanks around it, what is seen
of the conjunction without some blanks. -/
theorem Seen.trim (h : Writes numericConstants .conjunction whole f) (hseen : Seen whole cs) :
    ∃ front middle back, whole = front ++ (middle ++ back) ∧
      Writes numericConstants .conjunction middle f ∧ Seen middle (Text.trim cs) ∧
      (Text.trim cs = middle → cs = whole) := by
  obtain ⟨front, back, hcs, hf, hb⟩ := exists_blanks_trim cs
  cases hseen with
  | all => exact ⟨front, Text.trim whole, back, by rwa [← List.append_assoc], h.trim, .all,
      fun _ => rfl⟩
  | closed rest =>
    rw [List.append_assoc] at hcs
    rcases List.append_eq_append_iff.mp hcs with ⟨more, hfront, hmore⟩ | ⟨middle, hwhole, hmiddle⟩
    · -- only blanks would be written before the parenthesis
      have hblanks : ∀ c ∈ whole, isBlank c = true := by
        intro c hc
        exact hf c (hfront ▸ List.mem_append_left _ hc)
      exact absurd (trim_eq_nil_iff.mpr hblanks) h.trim.ne_nil
    · rw [hwhole] at h
      have hclosed : ∃ more, Text.trim (whole ++ ')' :: rest) = middle ++ ')' :: more := by
        rcases List.append_eq_append_iff.mp hmiddle with
          ⟨more, hback, hclose⟩ | ⟨more, htrim, hclose⟩
        · refine absurd ?_ (not_blank_of_close hb)
          rw [hclose]
          simp
        · cases more with
          | nil =>
            refine absurd ?_ (not_blank_of_close hb)
            rw [List.nil_append] at hclose
            rw [← hclose]
            exact List.mem_cons_self
          | cons c more =>
            rw [List.cons_append] at hclose
            cases hclose
            exact ⟨more, htrim⟩
      obtain ⟨more, hmore⟩ := hclosed
      rw [hmore]
      refine ⟨front, middle, [], by rwa [List.append_nil], h.of_blanks_append hf, .closed more, ?_⟩
      intro hall
      have hlength := congrArg List.length hall
      simp at hlength
  | @inside _ rest e hsplit hdepth =>
    rw [← depth?_trim] at hdepth
    have hmiddle : whole = front ++ (Text.trim cs ++ (back ++ rest)) := by
      rw [hsplit, ← List.append_assoc, ← List.append_assoc, ← hcs]
    rw [hmiddle] at h
    have hpart := h.of_blanks_append hf
    refine ⟨front, Text.trim cs ++ (back ++ rest), [], by rwa [List.append_nil], hpart,
      .inside rfl hdepth, ?_⟩
    intro hall
    rw [← hall] at hpart
    exact absurd hpart.balanced (not_balanced_of_depth? hdepth)

/-- A part of a disjunction that ends inside it and has no operator ends inside
the first conjunction, behind which the disjunction may go on. -/
theorem first_of_disjunction (h : Writes numericConstants .disjunction whole f) {rest : List Char}
    {e : Nat} (hwhole : whole = cs ++ rest) (hdepth : depth? 0 cs = some (e + 1))
    (hor : '|' ∉ cs) :
    ∃ first g, Writes numericConstants .conjunction first g ∧ Seen first cs ∧
      ((∀ a, f.holds a = g.holds a) ∨ ∃ front others k,
        whole = front ++ '|' :: others ∧ Writes numericConstants .disjunction others k ∧
        ∀ a, f.holds a = (g.holds a || k.holds a)) := by
  cases h with
  | one_conjunction h => exact ⟨whole, f, h, .inside hwhole hdepth, Or.inl fun _ => rfl⟩
  | @disjunction first others sign g k h hsign hothers =>
    have hfirst : ∃ more, first = cs ++ more := by
      rcases List.append_eq_append_iff.mp hwhole with ⟨more, hcs, hmore⟩ | ⟨more, hfirst, _⟩
      · cases more with
        | nil =>
          rw [hcs, List.append_nil] at hdepth
          exact absurd h.balanced (not_balanced_of_depth? hdepth)
        | cons c more =>
          refine absurd ?_ hor
          have hc : c = '|' := by
            rcases hsign with rfl | rfl <;>
            · rw [List.cons_append, List.cons_append] at hmore
              exact (List.cons.inj hmore).1.symm
          rw [hcs, hc]
          simp
      · exact ⟨more, hfirst⟩
    obtain ⟨more, hmore⟩ := hfirst
    refine ⟨first, g, h, .inside hmore hdepth, Or.inr ?_⟩
    rcases hsign with rfl | rfl
    · exact ⟨first, others, k, rfl, hothers, fun _ => rfl⟩
    · exact ⟨first ++ ['|'], others, k, by simp, hothers, fun _ => rfl⟩

theorem not_mem_trim {c : Char} (h : c ∉ cs) : c ∉ Text.trim cs := by
  obtain ⟨front, back, hcs, _, _⟩ := exists_blanks_trim cs
  intro hm
  apply h
  rw [hcs]
  exact List.mem_append_left _ (List.mem_append_right _ hm)

/-- What is read of the inside of a group that is seen to its end. -/
theorem readLiterals_of_group (h : Writes numericConstants .disjunction cs f) (hor : '|' ∉ cs)
    {r : Option (List Literal)}
    (hread : readLiterals numericConstants source (operands '&' (trim cs)) = .ok r)
    (a : Assignment) :
    readHolds a r = f.holds a := by
  have hconjunction := (h.conjunction_of_no_or hor).trim
  exact (readLiterals_of_conjunction hconjunction .all (not_mem_trim hor) hread).2 a

/-- What is read of a part of a group without its end is false; if the group
holds, another part of it does. -/
theorem readLiterals_of_part (h : Writes numericConstants .disjunction whole f) {rest : List Char}
    {e : Nat} (hwhole : whole = cs ++ rest) (hdepth : depth? 0 cs = some (e + 1))
    (hor : '|' ∉ cs) {r : Option (List Literal)}
    (hread : readLiterals numericConstants source (operands '&' (trim cs)) = .ok r) :
    r = none ∧ ∀ a, f.holds a = true → ∃ front others k,
      whole = front ++ '|' :: others ∧ Writes numericConstants .disjunction others k ∧
      k.holds a = true := by
  obtain ⟨first, g, hfirst, hseen, hothers⟩ := first_of_disjunction h hwhole hdepth hor
  obtain ⟨_, middle, _, _, hmiddle, hseen', hall⟩ := hseen.trim hfirst
  obtain ⟨hsome, hsame⟩ := readLiterals_of_conjunction hmiddle hseen' (not_mem_trim hor) hread
  have hnone : r = none := by
    cases r with
    | none => rfl
    | some ls =>
      have hcs := hall (hsome rfl)
      rw [hcs] at hdepth
      exact absurd hfirst.balanced (not_balanced_of_depth? hdepth)
  refine ⟨hnone, ?_⟩
  intro a ha
  have hg : g.holds a = false := by
    rw [← hsame a, hnone]
    rfl
  rcases hothers with hsame' | ⟨front, others, k, hsplit, hk, hsame'⟩
  · rw [hsame' a, hg] at ha
    cases ha
  · rw [hsame' a, hg, Bool.false_or] at ha
    exact ⟨front, others, k, hsplit, hk, ha⟩

/-- A text from the start of a group to a closing parenthesis that leaves
another one open ends before the group does. -/
theorem ends_inside_group {group inner rest back : List Char} {e : Nat} (hgroup : Balanced group)
    (hsplit : group ++ ')' :: back = inner ++ ')' :: rest)
    (hearly : closesEarly 1 (inner ++ [')']) = false)
    (hdepth : depth? 0 ('(' :: (inner ++ [')'])) = some (e + 1)) :
    ∃ more, group = inner ++ ')' :: more := by
  have hne : group ≠ inner := by
    rintro rfl
    exact absurd hgroup.parens (not_balanced_of_depth? hdepth)
  rcases List.append_eq_append_iff.mp hsplit with ⟨more, hinner, hmore⟩ | ⟨more, hinner, hmore⟩
  · cases more with
    | nil => exact absurd (by rw [hinner, List.append_nil]) hne
    | cons c more =>
      -- the parenthesis of the group would close it before the end
      rw [List.cons_append] at hmore
      cases hmore
      rw [hinner, List.append_assoc, List.cons_append] at hearly
      have := eq_nil_of_not_closesEarly hgroup hearly
      simp at this
  · cases more with
    | nil => exact absurd (by rw [hinner, List.append_nil]) hne
    | cons c more =>
      rw [List.cons_append] at hmore
      cases hmore
      exact ⟨more, hinner⟩

/-- What is read of a conjunction behind an opening parenthesis, once a closing
one at the end has been taken for its partner. -/
theorem readLiterals_of_enclosed {inner : List Char}
    (h : Writes numericConstants .conjunction whole f)
    (hseen : Seen whole ('(' :: (inner ++ [')']))) (hearly : closesEarly 1 (inner ++ [')']) = false)
    (hor : '|' ∉ inner) {r : Option (List Literal)}
    (hread : readLiterals numericConstants source (operands '&' (trim inner)) = .ok r) :
    (r.isSome = true → '(' :: (inner ++ [')']) = whole) ∧
      (∀ a, readHolds a r = true → f.holds a = true) ∧
      ∀ a, f.holds a = true → readHolds a r = true ∨ ∃ front others k back,
        whole = front ++ '|' :: (others ++ ')' :: back) ∧
        Writes numericConstants .disjunction others k ∧ k.holds a = true := by
  have hhead := hseen.head?_eq h.ne_nil
  obtain ⟨rest, rfl⟩ := List.head?_eq_some_iff.mp hhead.symm
  obtain ⟨group, back, g, rfl, hgroup, hless, hsame⟩ := h.group_of_conjunction
  generalize hq : '(' :: (inner ++ [')']) = q at hseen
  cases hseen with
  | all =>
    have hinside := (List.cons.inj hq).2
    rw [hinside] at hearly
    obtain rfl := eq_nil_of_not_closesEarly hgroup.balanced hearly
    obtain ⟨rfl, _⟩ := List.append_inj' hinside rfl
    have hread' := readLiterals_of_group hgroup hor hread
    rw [hsame (by simp)]
    refine ⟨fun _ => rfl, fun a ha => hread' a ▸ ha, fun a ha => Or.inl ?_⟩
    rw [hread' a]
    exact ha
  | closed rest =>
    rw [List.cons_append, List.append_assoc, List.cons_append] at hq
    rw [(List.cons.inj hq).2] at hearly
    have := eq_nil_of_not_closesEarly hgroup.balanced hearly
    simp at this
  | @inside _ rest e hsplit hdepth =>
    subst hq
    rw [List.cons_append, List.append_assoc, List.singleton_append] at hsplit
    obtain ⟨more, hinner⟩ :=
      ends_inside_group hgroup.balanced (List.cons.inj hsplit).2 hearly hdepth
    obtain ⟨k, hk⟩ := exists_depth?_before_close (hinner ▸ hgroup.balanced)
    obtain ⟨rfl, hothers⟩ := readLiterals_of_part hgroup hinner hk hor hread
    refine ⟨nofun, nofun, ?_⟩
    intro a ha
    obtain ⟨front, others, j, hgroupSplit, hj, hja⟩ := hothers a (hless a ha)
    right
    refine ⟨'(' :: front, others, j, back, ?_, hj, hja⟩
    rw [hgroupSplit, List.append_assoc, List.cons_append, List.cons_append]

/-- A term that is read: unless it is false, all of the conjunction has been
read and says the same. Where it is false and the conjunction is not, the
conjunction starts with a group, and it is a later part of that group that
holds. -/
theorem readTerm_of_conjunction (h : Writes numericConstants .conjunction whole f)
    (hseen : Seen whole cs) (hor : '|' ∉ cs) {r : Option (List Literal)}
    (hread : readTerm numericConstants source cs = .ok r) :
    (r.isSome = true → cs = whole) ∧ (∀ a, readHolds a r = true → f.holds a = true) ∧
      ∀ a, f.holds a = true → readHolds a r = true ∨ ∃ front others k back,
        whole = front ++ '|' :: (others ++ ')' :: back) ∧
        Writes numericConstants .disjunction others k ∧ k.holds a = true := by
  unfold readTerm at hread
  split at hread
  · cases hread
  obtain ⟨front, middle, back, hwhole, hmiddle, hseen', hall⟩ := hseen.trim h
  have hor' := not_mem_trim hor
  rcases unwrap_cases cs with hu | ⟨inner, htrim, hearly, hu⟩
  · rw [hu] at hread
    obtain ⟨hsome, hsame⟩ := readLiterals_of_conjunction hmiddle hseen' hor' hread
    refine ⟨fun hr => hall (hsome hr), fun a ha => hsame a ▸ ha, fun a ha => Or.inl ?_⟩
    rw [hsame a]
    exact ha
  · rw [hu] at hread
    rw [htrim] at hseen' hall hor'
    have horInner : '|' ∉ inner := fun hm => hor' (by simp [hm])
    obtain ⟨hsome, hholds, hothers⟩ :=
      readLiterals_of_enclosed hmiddle hseen' hearly horInner hread
    refine ⟨fun hr => hall (hsome hr), hholds, ?_⟩
    intro a ha
    rcases hothers a ha with hr | ⟨front', others, k, back', hsplit, hk, hka⟩
    · exact Or.inl hr
    · right
      refine ⟨front ++ front', others, k, back' ++ back, ?_, hk, hka⟩
      rw [hwhole, hsplit]
      simp only [List.append_assoc, List.cons_append]

end Terms

end Variability.Condition
