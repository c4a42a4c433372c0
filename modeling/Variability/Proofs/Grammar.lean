-- The grammar of conditions: formulas, the texts that write them, and what the
-- parentheses of such a text are like.
import Mathlib.Data.List.Basic
import Mathlib.Data.List.Induction
import Variability.Proofs.Parentheses

namespace Variability

open Text Condition

/-! ## Formulas -/

inductive Formula
  | constant (value : Bool)
  | feature (name : String)
  | negation (f : Formula)
  | conjunction (f g : Formula)
  | disjunction (f g : Formula)
deriving DecidableEq, Repr

def Formula.holds (a : Assignment) : Formula → Bool
  | constant value => value
  | feature name => a name
  | negation f => !f.holds a
  | conjunction f g => f.holds a && g.holds a
  | disjunction f g => f.holds a || g.holds a

/-! ## Texts of formulas -/

/-- The words for the truth values. Digits are among them only where features
are not numbered. -/
def constantWords (numericConstants : Bool) : List (String × Bool) :=
  [("True", true), ("true", true), ("False", false), ("false", false)] ++
    if numericConstants then [("1", true), ("0", false)] else []

/-- A text of name characters. -/
structure IsName (name : List Char) : Prop where
  ne_nil : name ≠ []
  chars : ∀ c ∈ name, isNameChar c = true

/-- The texts of a feature: its name, unless that is a constant, or the name
behind one of the words that ask whether it is defined. -/
inductive WritesFeature (numericConstants : Bool) : List Char → List Char → Prop
  | bare {name : List Char} : IsName name →
      (∀ value, (String.ofList name, value) ∉ constantWords numericConstants) →
      WritesFeature numericConstants name name
  | separate {blanks name : List Char} : IsName name → blanks ≠ [] →
      (∀ c ∈ blanks, isBlank c = true) →
      WritesFeature numericConstants ("defined".toList ++ (blanks ++ name)) name
  | enclosed {word : String} {before front back name : List Char} : IsName name →
      word = "defined" ∨ word = "definedEx" → (∀ c ∈ before, isBlank c = true) →
      (∀ c ∈ front, isBlank c = true) → (∀ c ∈ back, isBlank c = true) →
      WritesFeature numericConstants
        (word.toList ++ (before ++ '(' :: (front ++ name ++ back ++ [')']))) name

/-- An operator, written once or twice. -/
def IsSign (op : Char) (sign : List Char) : Prop := sign = [op] ∨ sign = [op, op]

/-- How tightly a text binds. -/
inductive Level
  | factor
  | conjunction
  | disjunction
deriving DecidableEq

/-- The texts of a formula. Blanks may stand around every factor. -/
inductive Writes (numericConstants : Bool) : Level → List Char → Formula → Prop
  | constant {word : String} {value : Bool} :
      (word, value) ∈ constantWords numericConstants →
      Writes numericConstants .factor word.toList (.constant value)
  | feature {cs name : List Char} : WritesFeature numericConstants cs name →
      Writes numericConstants .factor cs (.feature (String.ofList name))
  | negation {c : Char} {cs : List Char} {f : Formula} : c = '!' ∨ c = '~' →
      Writes numericConstants .factor cs f →
      Writes numericConstants .factor (c :: cs) (.negation f)
  | parens {cs : List Char} {f : Formula} : Writes numericConstants .disjunction cs f →
      Writes numericConstants .factor ('(' :: (cs ++ [')'])) f
  | before {c : Char} {cs : List Char} {f : Formula} : isBlank c = true →
      Writes numericConstants .factor cs f → Writes numericConstants .factor (c :: cs) f
  | behind {c : Char} {cs : List Char} {f : Formula} : isBlank c = true →
      Writes numericConstants .factor cs f → Writes numericConstants .factor (cs ++ [c]) f
  | one_factor {cs : List Char} {f : Formula} : Writes numericConstants .factor cs f →
      Writes numericConstants .conjunction cs f
  | conjunction {cs ds sign : List Char} {f g : Formula} :
      Writes numericConstants .factor cs f → IsSign '&' sign →
      Writes numericConstants .conjunction ds g →
      Writes numericConstants .conjunction (cs ++ (sign ++ ds)) (.conjunction f g)
  | one_conjunction {cs : List Char} {f : Formula} :
      Writes numericConstants .conjunction cs f → Writes numericConstants .disjunction cs f
  | disjunction {cs ds sign : List Char} {f g : Formula} :
      Writes numericConstants .conjunction cs f → IsSign '|' sign →
      Writes numericConstants .disjunction ds g →
      Writes numericConstants .disjunction (cs ++ (sign ++ ds)) (.disjunction f g)

/-! ## Induction at one level -/

namespace Writes

variable {numericConstants : Bool}

/-- Induction on a factor; what stands in parentheses is left as it is. -/
@[elab_as_elim]
theorem factor_induction {motive : ∀ cs f, Writes numericConstants .factor cs f → Prop}
    (constant : ∀ {word value} (h : (word, value) ∈ constantWords numericConstants),
      motive _ _ (.constant h))
    (feature : ∀ {cs name} (h : WritesFeature numericConstants cs name), motive _ _ (.feature h))
    (negation : ∀ {c cs f} (hmark : c = '!' ∨ c = '~') (h : Writes numericConstants .factor cs f),
      motive cs f h → motive _ _ (.negation hmark h))
    (parens : ∀ {cs f} (h : Writes numericConstants .disjunction cs f), motive _ _ (.parens h))
    (before : ∀ {c cs f} (hblank : isBlank c = true) (h : Writes numericConstants .factor cs f),
      motive cs f h → motive _ _ (.before hblank h))
    (behind : ∀ {c cs f} (hblank : isBlank c = true) (h : Writes numericConstants .factor cs f),
      motive cs f h → motive _ _ (.behind hblank h))
    {cs : List Char} {f : Formula} (h : Writes numericConstants .factor cs f) : motive cs f h := by
  have hall : ∀ level cs f (h : Writes numericConstants level cs f) (hl : level = .factor),
      motive cs f (hl ▸ h) := by
    intro level cs f h
    induction h with
    | constant h => exact fun _ => constant h
    | feature h => exact fun _ => feature h
    | negation hmark h ih => exact fun _ => negation hmark h (ih rfl)
    | parens h => exact fun _ => parens h
    | before hblank h ih => exact fun _ => before hblank h (ih rfl)
    | behind hblank h ih => exact fun _ => behind hblank h (ih rfl)
    | one_factor | conjunction | one_conjunction | disjunction => exact nofun
  exact hall .factor cs f h rfl

/-- Induction on the factors of a conjunction. -/
@[elab_as_elim]
theorem conjunction_induction {motive : ∀ cs f, Writes numericConstants .conjunction cs f → Prop}
    (one_factor : ∀ {cs f} (h : Writes numericConstants .factor cs f),
      motive cs f (.one_factor h))
    (conjunction : ∀ {cs ds sign f g} (h : Writes numericConstants .factor cs f)
      (hsign : IsSign '&' sign) (hback : Writes numericConstants .conjunction ds g),
      motive ds g hback → motive _ _ (.conjunction h hsign hback))
    {cs : List Char} {f : Formula} (h : Writes numericConstants .conjunction cs f) :
    motive cs f h := by
  have hall : ∀ level cs f (h : Writes numericConstants level cs f) (hl : level = .conjunction),
      motive cs f (hl ▸ h) := by
    intro level cs f h
    induction h with
    | one_factor h => exact fun _ => one_factor h
    | conjunction h hsign hback _ ih => exact fun _ => conjunction h hsign hback (ih rfl)
    | one_conjunction | disjunction => exact nofun
    | constant | feature | negation | parens | before | behind => exact nofun
  exact hall .conjunction cs f h rfl

/-- Induction on the conjunctions of a disjunction. -/
@[elab_as_elim]
theorem disjunction_induction {motive : ∀ cs f, Writes numericConstants .disjunction cs f → Prop}
    (one_conjunction : ∀ {cs f} (h : Writes numericConstants .conjunction cs f),
      motive cs f (.one_conjunction h))
    (disjunction : ∀ {cs ds sign f g} (h : Writes numericConstants .conjunction cs f)
      (hsign : IsSign '|' sign) (hback : Writes numericConstants .disjunction ds g),
      motive ds g hback → motive _ _ (.disjunction h hsign hback))
    {cs : List Char} {f : Formula} (h : Writes numericConstants .disjunction cs f) :
    motive cs f h := by
  have hall : ∀ level cs f (h : Writes numericConstants level cs f) (hl : level = .disjunction),
      motive cs f (hl ▸ h) := by
    intro level cs f h
    induction h with
    | one_conjunction h => exact fun _ => one_conjunction h
    | disjunction h hsign hback _ ih => exact fun _ => disjunction h hsign hback (ih rfl)
    | one_factor | conjunction => exact nofun
    | constant | feature | negation | parens | before | behind => exact nofun
  exact hall .disjunction cs f h rfl

end Writes

/-! ## Characters -/

/-- The characters of a name mean nothing else. -/
structure IsPlain (c : Char) : Prop where
  blank : isBlank c = false
  negation : isNegation c = false
  opening : c ≠ '('
  closing : c ≠ ')'
  and : c ≠ '&'
  or : c ≠ '|'

theorem range_of_isNameChar {c : Char} (h : isNameChar c = true) :
    48 ≤ c.toNat ∧ c.toNat ≤ 122 := by
  have hrange : ∀ {low high : UInt32}, (low ≤ c.val ∧ c.val ≤ high) → 48 ≤ low.toNat →
      high.toNat ≤ 122 → 48 ≤ c.toNat ∧ c.toNat ≤ 122 := by
    intro low high hc hlow hhigh
    exact ⟨Nat.le_trans hlow (UInt32.le_iff_toNat_le.mp hc.1),
      Nat.le_trans (UInt32.le_iff_toNat_le.mp hc.2) hhigh⟩
  have hupper : c.isUpper = true → 'A'.val ≤ c.val ∧ c.val ≤ 'Z'.val := of_decide_eq_true
  have hlower : c.isLower = true → 'a'.val ≤ c.val ∧ c.val ≤ 'z'.val := by
    intro h
    exact (Bool.and_eq_true_iff.mp h).imp of_decide_eq_true of_decide_eq_true
  have hdigit : c.isDigit = true → '0'.val ≤ c.val ∧ c.val ≤ '9'.val := by
    intro h
    exact (Bool.and_eq_true_iff.mp h).imp of_decide_eq_true of_decide_eq_true
  unfold isNameChar at h
  rcases Bool.or_eq_true_iff.mp h with h | h
  · rcases Bool.or_eq_true_iff.mp h with h | h
    · rcases Bool.or_eq_true_iff.mp h with h | h
      · exact hrange (hupper h) (by decide) (by decide)
      · exact hrange (hlower h) (by decide) (by decide)
    · exact hrange (hdigit h) (by decide) (by decide)
  · rw [of_decide_eq_true h]
    decide

theorem isPlain_of_isNameChar {c : Char} (h : isNameChar c = true) : IsPlain c := by
  obtain ⟨hlow, hhigh⟩ := range_of_isNameChar h
  have hne : ∀ d, isNameChar d = false → c ≠ d := by
    rintro d hd rfl
    rw [h] at hd
    cases hd
  refine ⟨?_, ?_, hne _ (by decide), hne _ (by decide), hne _ (by decide), hne _ (by decide)⟩
  · simp only [isBlank, Bool.or_eq_false_iff, Bool.and_eq_false_iff, decide_eq_false_iff_not,
      beq_eq_false_iff_ne]
    omega
  · have h1 := hne '!' (by decide)
    have h2 := hne '~' (by decide)
    simp [isNegation, h1, h2]

/-! ## Words and names -/

section Words

variable {numericConstants : Bool}

theorem isName_of_mem_constantWords {word : String} {value : Bool}
    (h : (word, value) ∈ constantWords numericConstants) : IsName word.toList := by
  have hall : ∀ p ∈ constantWords numericConstants,
      p.1.toList ≠ [] ∧ p.1.toList.all isNameChar = true := by
    cases numericConstants <;> decide
  obtain ⟨hne, hchars⟩ := hall _ h
  exact ⟨hne, List.all_eq_true.mp hchars⟩

/-- What the texts of names and constants are like at their ends, and that there
is no operator in them. -/
structure IsAtomText (cs : List Char) : Prop where
  ne_nil : cs ≠ []
  head : ∀ c, cs.head? = some c → IsPlain c
  last : ∀ c, cs.getLast? = some c → IsPlain c ∨ c = ')'
  no_operator : '&' ∉ cs ∧ '|' ∉ cs
  balanced : Balanced cs

theorem IsName.isAtomText {name : List Char} (h : IsName name) : IsAtomText name := by
  have hplain : ∀ c ∈ name, IsPlain c := fun c hc => isPlain_of_isNameChar (h.chars c hc)
  refine ⟨h.ne_nil, ?_, ?_, ⟨?_, ?_⟩, ?_⟩
  · intro c hc
    exact hplain c (List.mem_of_head? hc)
  · intro c hc
    exact Or.inl (hplain c (List.mem_of_getLast? hc))
  · intro hmem
    exact (hplain _ hmem).and rfl
  · intro hmem
    exact (hplain _ hmem).or rfl
  · exact balanced_of_noParens fun c hc => ⟨(hplain c hc).opening, (hplain c hc).closing⟩

theorem not_operator_of_isBlank {c : Char} (h : isBlank c = true) : c ≠ '&' ∧ c ≠ '|' := by
  constructor <;>
  · rintro rfl
    revert h
    decide

theorem isName_of_word {word : String} (h : word = "defined" ∨ word = "definedEx") :
    IsName word.toList := by
  have hchars : word.toList.all isNameChar = true := by
    rcases h with rfl | rfl <;> decide
  constructor
  · rcases h with rfl | rfl <;> decide
  · exact List.all_eq_true.mp hchars

/-- A name with a word in front of it ends in the name or in a parenthesis. -/
theorem IsAtomText.append {word rest : List Char} (hword : IsName word) (hrest : rest ≠ [])
    (hlast : ∀ c, rest.getLast? = some c → IsPlain c ∨ c = ')')
    (hop : '&' ∉ rest ∧ '|' ∉ rest) (hbalanced : Balanced rest) : IsAtomText (word ++ rest) := by
  have h := hword.isAtomText
  refine ⟨?_, ?_, ?_, ⟨?_, ?_⟩, h.balanced.append hbalanced⟩
  · intro hnil
    exact hrest (List.append_eq_nil_iff.mp hnil).2
  · intro c hc
    rw [List.head?_append_of_ne_nil _ h.ne_nil] at hc
    exact h.head c hc
  · intro c hc
    apply hlast
    rwa [List.getLast?_append_of_ne_nil _ hrest] at hc
  · simp [h.no_operator.1, hop.1]
  · simp [h.no_operator.2, hop.2]

theorem WritesFeature.isAtomText {cs name : List Char}
    (h : WritesFeature numericConstants cs name) : IsAtomText cs := by
  cases h with
  | bare hname => exact hname.isAtomText
  | @separate blanks _ hname hne hblanks =>
    have h := hname.isAtomText
    apply IsAtomText.append (isName_of_word (Or.inl rfl))
    · intro hnil
      exact h.ne_nil (List.append_eq_nil_iff.mp hnil).2
    · intro c hc
      rw [List.getLast?_append_of_ne_nil _ h.ne_nil] at hc
      exact h.last c hc
    · have hb : '&' ∉ blanks ∧ '|' ∉ blanks :=
        ⟨fun hm => (not_operator_of_isBlank (hblanks _ hm)).1 rfl,
          fun hm => (not_operator_of_isBlank (hblanks _ hm)).2 rfl⟩
      simp [hb, h.no_operator]
    · exact (balanced_of_blanks hblanks).append h.balanced
  | @enclosed word before front back _ hname hword hbefore hfront hback =>
    have h := hname.isAtomText
    have hop : ∀ blanks : List Char, (∀ c ∈ blanks, isBlank c = true) →
        '&' ∉ blanks ∧ '|' ∉ blanks := fun blanks hb =>
      ⟨fun hm => (not_operator_of_isBlank (hb _ hm)).1 rfl,
        fun hm => (not_operator_of_isBlank (hb _ hm)).2 rfl⟩
    apply IsAtomText.append (isName_of_word hword)
    · simp
    · intro c hc
      right
      simpa [List.getLast?_append, List.getLast?_cons] using hc.symm
    · simp [hop before hbefore, hop front hfront, hop back hback, h.no_operator]
    · have hinside : Balanced (front ++ name ++ back) :=
        ((balanced_of_blanks hfront).append h.balanced).append (balanced_of_blanks hback)
      exact (balanced_of_blanks hbefore).append hinside.parens

end Words

/-! ## The ends of a text -/

theorem IsSign.ne_nil {op : Char} {sign : List Char} (h : IsSign op sign) : sign ≠ [] := by
  rcases h with rfl | rfl <;> simp

/-- Where two texts are the same, they end in the same character. -/
theorem exists_init {xs ds : List Char} {b : Char} (ys : List Char) (hd : ds ≠ [])
    (h : xs ++ [b] = ys ++ ds) : ∃ init, ds = init ++ [b] ∧ xs = ys ++ init := by
  have hds := List.dropLast_append_getLast hd
  rw [← hds, ← List.append_assoc] at h
  obtain ⟨hinit, hlast⟩ := List.append_inj' h rfl
  refine ⟨ds.dropLast, ?_, hinit⟩
  rw [hlast]
  exact hds.symm

namespace Writes

section Ends

variable {numericConstants : Bool} {level : Level} {cs : List Char} {f : Formula}

theorem ne_nil (h : Writes numericConstants level cs f) : cs ≠ [] := by
  induction h with
  | constant h => exact (isName_of_mem_constantWords h).ne_nil
  | feature h => exact h.isAtomText.ne_nil
  | negation => exact List.cons_ne_nil _ _
  | parens => exact List.cons_ne_nil _ _
  | before => exact List.cons_ne_nil _ _
  | behind => simp
  | one_factor _ ih => exact ih
  | conjunction _ _ _ ih => simp [ih]
  | one_conjunction _ ih => exact ih
  | disjunction _ _ _ ih => simp [ih]

/-- What a text may start with. -/
theorem head_ne (h : Writes numericConstants level cs f) {c : Char} (hc : cs.head? = some c) :
    c ≠ '&' ∧ c ≠ '|' ∧ c ≠ ')' := by
  induction h with
  | constant h =>
    have := (isName_of_mem_constantWords h).isAtomText.head c hc
    exact ⟨this.and, this.or, this.closing⟩
  | feature h =>
    have := h.isAtomText.head c hc
    exact ⟨this.and, this.or, this.closing⟩
  | negation hmark =>
    cases hc
    rcases hmark with rfl | rfl <;> decide
  | parens =>
    cases hc
    decide
  | before hblank =>
    cases hc
    exact ⟨(not_operator_of_isBlank hblank).1, (not_operator_of_isBlank hblank).2,
      (not_paren_of_isBlank hblank).2⟩
  | behind _ h ih =>
    rw [List.head?_append_of_ne_nil _ h.ne_nil] at hc
    exact ih hc
  | one_factor _ ih => exact ih hc
  | conjunction h _ _ ih =>
    rw [List.head?_append_of_ne_nil _ h.ne_nil] at hc
    exact ih hc
  | one_conjunction _ ih => exact ih hc
  | disjunction h _ _ ih =>
    rw [List.head?_append_of_ne_nil _ h.ne_nil] at hc
    exact ih hc

/-- What a text may end in. -/
theorem last_ne (h : Writes numericConstants level cs f) {c : Char} (hc : cs.getLast? = some c) :
    c ≠ '&' ∧ c ≠ '|' := by
  have hatom : ∀ d, IsPlain d ∨ d = ')' → d ≠ '&' ∧ d ≠ '|' := by
    rintro d (hd | rfl)
    · exact ⟨hd.and, hd.or⟩
    · decide
  induction h with
  | constant h => exact hatom c ((isName_of_mem_constantWords h).isAtomText.last c hc)
  | feature h => exact hatom c (h.isAtomText.last c hc)
  | negation _ h ih =>
    rw [← List.singleton_append, List.getLast?_append_of_ne_nil _ h.ne_nil] at hc
    exact ih hc
  | parens =>
    rw [← List.cons_append, List.getLast?_concat] at hc
    cases hc
    decide
  | before _ h ih =>
    rw [← List.singleton_append, List.getLast?_append_of_ne_nil _ h.ne_nil] at hc
    exact ih hc
  | behind hblank =>
    rw [List.getLast?_concat] at hc
    cases hc
    exact not_operator_of_isBlank hblank
  | one_factor _ ih => exact ih hc
  | conjunction _ hsign h _ ih =>
    rw [← List.append_assoc, List.getLast?_append_of_ne_nil _ h.ne_nil] at hc
    exact ih hc
  | one_conjunction _ ih => exact ih hc
  | disjunction _ hsign h _ ih =>
    rw [← List.append_assoc, List.getLast?_append_of_ne_nil _ h.ne_nil] at hc
    exact ih hc

/-- A blank at the start may go. -/
theorem tail_of_blank {b : Char} (h : Writes numericConstants level (b :: cs) f)
    (hb : isBlank b = true) : Writes numericConstants level cs f := by
  generalize hx : b :: cs = x at h
  induction h generalizing cs with
  | constant h =>
    have := (isName_of_mem_constantWords h).isAtomText.head b (by rw [← hx]; rfl)
    rw [this.blank] at hb
    cases hb
  | feature h =>
    have := h.isAtomText.head b (by rw [← hx]; rfl)
    rw [this.blank] at hb
    cases hb
  | negation hmark =>
    cases hx
    rcases hmark with rfl | rfl <;> exact absurd hb (by decide)
  | parens =>
    cases hx
    exact absurd hb (by decide)
  | before _ h =>
    cases hx
    exact h
  | behind hblank h ih =>
    obtain ⟨first, rest, hcons⟩ := List.exists_cons_of_ne_nil h.ne_nil
    rw [hcons, List.cons_append] at hx
    cases hx
    exact behind hblank (ih hcons.symm)
  | one_factor _ ih => exact one_factor (ih hx)
  | conjunction h hsign hd ih =>
    obtain ⟨first, rest, hcons⟩ := List.exists_cons_of_ne_nil h.ne_nil
    rw [hcons, List.cons_append] at hx
    cases hx
    exact conjunction (ih hcons.symm) hsign hd
  | one_conjunction _ ih => exact one_conjunction (ih hx)
  | disjunction h hsign hd ih =>
    obtain ⟨first, rest, hcons⟩ := List.exists_cons_of_ne_nil h.ne_nil
    rw [hcons, List.cons_append] at hx
    cases hx
    exact disjunction (ih hcons.symm) hsign hd

/-- A blank at the end may go. -/
theorem init_of_blank {b : Char} (h : Writes numericConstants level (cs ++ [b]) f)
    (hb : isBlank b = true) : Writes numericConstants level cs f := by
  have hatom : ¬ (IsPlain b ∨ b = ')') := by
    rintro (hplain | rfl)
    · rw [hplain.blank] at hb
      cases hb
    · revert hb
      decide
  generalize hx : cs ++ [b] = x at h
  induction h generalizing cs with
  | constant h =>
    apply absurd ((isName_of_mem_constantWords h).isAtomText.last b _) hatom
    rw [← hx, List.getLast?_concat]
  | feature h =>
    apply absurd (h.isAtomText.last b _) hatom
    rw [← hx, List.getLast?_concat]
  | @negation c _ _ hmark h ih =>
    obtain ⟨init, rfl, rfl⟩ := exists_init [c] h.ne_nil hx
    exact negation hmark (ih rfl)
  | parens =>
    rw [← List.cons_append] at hx
    have hlast := (List.append_inj' hx rfl).2
    cases hlast
    exact absurd hb (by decide)
  | @before c _ _ hblank h ih =>
    obtain ⟨init, rfl, rfl⟩ := exists_init [c] h.ne_nil hx
    exact before hblank (ih rfl)
  | behind _ h =>
    rw [(List.append_inj' hx rfl).1]
    exact h
  | one_factor _ ih => exact one_factor (ih hx)
  | conjunction h hsign hd _ ih =>
    rw [← List.append_assoc] at hx
    obtain ⟨init, rfl, rfl⟩ := exists_init _ hd.ne_nil hx
    rw [List.append_assoc]
    exact conjunction h hsign (ih rfl)
  | one_conjunction _ ih => exact one_conjunction (ih hx)
  | disjunction h hsign hd _ ih =>
    rw [← List.append_assoc] at hx
    obtain ⟨init, rfl, rfl⟩ := exists_init _ hd.ne_nil hx
    rw [List.append_assoc]
    exact disjunction h hsign (ih rfl)

theorem of_blanks_append {front : List Char} (hf : ∀ c ∈ front, isBlank c = true)
    (h : Writes numericConstants level (front ++ cs) f) : Writes numericConstants level cs f := by
  induction front with
  | nil => exact h
  | cons b front ih =>
    exact ih (fun c hc => hf c (List.mem_cons_of_mem _ hc))
      (tail_of_blank h (hf b List.mem_cons_self))

theorem of_append_blanks {back : List Char} (hb : ∀ c ∈ back, isBlank c = true)
    (h : Writes numericConstants level (cs ++ back) f) : Writes numericConstants level cs f := by
  induction back using List.reverseRecOn with
  | nil => rwa [List.append_nil] at h
  | append_singleton back b ih =>
    rw [← List.append_assoc] at h
    exact ih (fun c hc => hb c (List.mem_append_left _ hc))
      (init_of_blank h (hb b (by simp)))

/-- A text says the same without the blanks around it. -/
theorem trim (h : Writes numericConstants level cs f) :
    Writes numericConstants level (Text.trim cs) f := by
  obtain ⟨front, back, hcs, hf, hb⟩ := exists_blanks_trim cs
  rw [hcs, List.append_assoc] at h
  exact of_append_blanks hb (of_blanks_append hf h)

end Ends

end Writes

end Variability
