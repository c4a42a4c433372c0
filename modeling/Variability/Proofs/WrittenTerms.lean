-- Conditions as they are written in disjunctive form: terms of literals. The
-- whole, each term, each literal and each negated part may stand in one pair of
-- parentheses, which is found again by taking the outermost pair off.
import Variability.Proofs.Terms

namespace Variability

open Text Condition

/-! ## What is written -/

/-- A constant or a feature. -/
inductive Atom
  | constant (value : Bool)
  | feature (name : String) (valid : isFeatureName name = true)

def Atom.holds (a : Assignment) : Atom → Bool
  | constant value => value
  | feature name _ => a name

/-- An atom behind some marks of negation. -/
structure WrittenLiteral where
  marks : Nat
  atom : Atom

namespace WrittenLiteral

/-- An odd number of marks negates. -/
def negated (l : WrittenLiteral) : Bool := l.marks % 2 = 1

def negate (l : WrittenLiteral) : WrittenLiteral := { l with marks := l.marks + 1 }

def holds (a : Assignment) (l : WrittenLiteral) : Bool := l.atom.holds a != l.negated

/-- Whether the literal is false whatever is selected. -/
def isFalse (l : WrittenLiteral) : Bool :=
  match l.atom with
  | .constant value => value == l.negated
  | .feature .. => false

/-- The literal of a feature. -/
def literal? (l : WrittenLiteral) : Option Literal :=
  match l.atom with
  | .constant _ => none
  | .feature name valid => some ⟨name, l.negated, valid⟩

@[simp] theorem isFalse_constant (marks : Nat) (value : Bool) :
    isFalse ⟨marks, .constant value⟩ = (value == negated ⟨marks, .constant value⟩) := rfl

@[simp] theorem isFalse_feature (marks : Nat) (name : String)
    (valid : isFeatureName name = true) : isFalse ⟨marks, .feature name valid⟩ = false := rfl

@[simp] theorem literal?_constant (marks : Nat) (value : Bool) :
    literal? ⟨marks, .constant value⟩ = none := rfl

@[simp] theorem literal?_feature (marks : Nat) (name : String)
    (valid : isFeatureName name = true) :
    literal? ⟨marks, .feature name valid⟩ =
      some ⟨name, negated ⟨marks, .feature name valid⟩, valid⟩ := rfl

theorem negated_negate (l : WrittenLiteral) : l.negate.negated = !l.negated := by
  unfold negate negated
  rcases Nat.mod_two_eq_zero_or_one l.marks with h | h <;> simp [Nat.add_mod, h]

theorem holds_negate (a : Assignment) (l : WrittenLiteral) : l.negate.holds a = !l.holds a := by
  unfold holds
  rw [negated_negate, show l.negate.atom = l.atom from rfl]
  cases l.atom.holds a <;> cases l.negated <;> rfl

end WrittenLiteral

/-- The term of some literals: none if one of them is false, and what is true is
left out. -/
def writtenTerm? (ls : List WrittenLiteral) : Option Term :=
  if ls.any WrittenLiteral.isFalse then none
  else some (Term.ofList (ls.filterMap WrittenLiteral.literal?))

theorem writtenTerm?_of_isFalse {ls : List WrittenLiteral}
    (h : ls.any WrittenLiteral.isFalse = true) : writtenTerm? ls = none := by
  rw [writtenTerm?, if_pos h]

theorem writtenTerm?_of_not_isFalse {ls : List WrittenLiteral}
    (h : ls.any WrittenLiteral.isFalse = false) :
    writtenTerm? ls = some (Term.ofList (ls.filterMap WrittenLiteral.literal?)) := by
  rw [writtenTerm?, h]
  rfl

/-! ## Texts -/

theorem forall_isBlank_nil : ∀ c ∈ ([] : List Char), isBlank c = true :=
  List.forall_mem_nil _

theorem forall_isBlank_space : ∀ c ∈ [' '], isBlank c = true :=
  List.forall_mem_singleton.mpr rfl

/-- A text, perhaps in one pair of parentheses. -/
inductive Bracketed (cs : List Char) : List Char → Prop
  | bare : Bracketed cs cs
  | parens {front back : List Char} : (∀ c ∈ front, isBlank c = true) →
      (∀ c ∈ back, isBlank c = true) → Bracketed cs ('(' :: (front ++ cs ++ back ++ [')']))

/-- A text, perhaps in one pair of parentheses, with blanks around it. -/
inductive Wrapped {α : Type} (writes : List Char → α → Prop) : List Char → α → Prop
  | mk {cs ds front back : List Char} {x : α} : writes cs x → Bracketed cs ds →
      (∀ c ∈ front, isBlank c = true) → (∀ c ∈ back, isBlank c = true) →
      Wrapped writes (front ++ ds ++ back) x

namespace Wrapped

variable {α : Type} {writes : List Char → α → Prop} {cs : List Char} {x : α}

theorem bare (h : writes cs x) : Wrapped writes cs x := by
  have hcs := mk h .bare forall_isBlank_nil forall_isBlank_nil
  rwa [List.nil_append, List.append_nil] at hcs

theorem parens (h : writes cs x) : Wrapped writes ('(' :: (cs ++ [')'])) x := by
  have hcs := mk h (.parens forall_isBlank_nil forall_isBlank_nil) forall_isBlank_nil
    forall_isBlank_nil
  rwa [List.nil_append, List.nil_append, List.append_nil, List.append_nil] at hcs

theorem padded {front back : List Char} (hf : ∀ c ∈ front, isBlank c = true)
    (hb : ∀ c ∈ back, isBlank c = true) (h : Wrapped writes cs x) :
    Wrapped writes (front ++ cs ++ back) x := by
  obtain ⟨hcs, hbracketed, hfront, hback⟩ := h
  rename_i ds front' back'
  have hds : Wrapped writes ((front ++ front') ++ ds ++ (back' ++ back)) x :=
    mk hcs hbracketed (List.forall_mem_append.mpr ⟨hf, hfront⟩)
      (List.forall_mem_append.mpr ⟨hback, hb⟩)
  simpa only [List.append_assoc] using hds

end Wrapped

/-- Texts with an operator between neighbours. -/
inductive Joined {α : Type} (op : Char) (writes : List Char → α → Prop) :
    List Char → List α → Prop
  | one {cs : List Char} {x : α} : writes cs x → Joined op writes cs [x]
  | cons {cs ds sign : List Char} {x : α} {xs : List α} : writes cs x → IsSign op sign →
      Joined op writes ds xs → Joined op writes (cs ++ (sign ++ ds)) (x :: xs)

section Grammar

variable (numericConstants : Bool)

inductive WritesAtom : List Char → Atom → Prop
  | constant {word : String} {value : Bool} : (word, value) ∈ constantWords numericConstants →
      WritesAtom word.toList (.constant value)
  | feature {cs name : List Char} (valid : isFeatureName (String.ofList name) = true) :
      WritesFeature numericConstants cs name →
      WritesAtom cs (.feature (String.ofList name) valid)

/-- An atom, or a mark of negation before what it negates. -/
inductive WritesCore : List Char → WrittenLiteral → Prop
  | atom {cs : List Char} {atom : Atom} : WritesAtom numericConstants cs atom →
      WritesCore cs ⟨0, atom⟩
  | negation {c : Char} {front cs ds : List Char} {l : WrittenLiteral} : c = '!' ∨ c = '~' →
      (∀ b ∈ front, isBlank b = true) → WritesCore cs l → Bracketed cs ds →
      WritesCore (c :: (front ++ ds)) l.negate

def WritesLiteral : List Char → WrittenLiteral → Prop := Wrapped (WritesCore numericConstants)

/-- Literals joined by `&` or `&&`. -/
def WritesTerm : List Char → List WrittenLiteral → Prop :=
  Wrapped (Joined '&' (WritesLiteral numericConstants))

/-- Terms joined by `|` or `||`. -/
def WritesTerms : List Char → List (List WrittenLiteral) → Prop :=
  Wrapped (Joined '|' (WritesTerm numericConstants))

end Grammar

theorem IsName.getLast?_ne {name : List Char} (h : IsName name) : name.getLast? ≠ some '\n' := by
  intro hlast
  have hchar := h.chars '\n' (List.mem_of_getLast? hlast)
  revert hchar
  decide

/-- A text of name characters is a feature name; any other feature name ends in
a line feed. -/
theorem isName_iff {name : String} : IsName name.toList ↔
    isFeatureName name = true ∧ name.toList.getLast? ≠ some '\n' := by
  unfold isFeatureName
  rw [Bool.and_eq_true, Bool.not_eq_true', List.isEmpty_eq_false_iff, List.all_eq_true]
  constructor
  · intro h
    unfold nameBody
    rw [if_neg h.getLast?_ne]
    exact ⟨⟨h.ne_nil, h.chars⟩, h.getLast?_ne⟩
  · rintro ⟨⟨hne, hchars⟩, hlast⟩
    unfold nameBody at hne hchars
    rw [if_neg hlast] at hne hchars
    exact ⟨hne, hchars⟩

theorem isFeatureName_of_isName {name : List Char} (h : IsName name) :
    isFeatureName (String.ofList name) = true := by
  have hname := @isName_iff (String.ofList name)
  rw [String.toList_ofList] at hname
  exact (hname.mp h).1

theorem WritesFeature.isName {numericConstants : Bool} {cs name : List Char}
    (h : WritesFeature numericConstants cs name) : IsName name := by
  cases h with
  | bare hname => exact hname
  | separate hname => exact hname
  | enclosed hname => exact hname

/-! ## Blanks at the ends -/

/-- Texts that are not empty, and to which the blanks at their ends do not
matter. -/
structure IgnoresBlanks {α : Type} (writes : List Char → α → Prop) : Prop where
  ne_nil : ∀ {cs x}, writes cs x → cs ≠ []
  tail : ∀ {c cs x}, isBlank c = true → writes (c :: cs) x → writes cs x
  init : ∀ {c cs x}, isBlank c = true → writes (cs ++ [c]) x → writes cs x

namespace IgnoresBlanks

variable {α : Type} {writes : List Char → α → Prop} {cs : List Char} {x : α}

theorem of_blanks_append (h : IgnoresBlanks writes) {front : List Char}
    (hf : ∀ c ∈ front, isBlank c = true) (hcs : writes (front ++ cs) x) : writes cs x := by
  induction front with
  | nil => exact hcs
  | cons b front ih =>
    apply ih
    · intro c hc
      exact hf c (List.mem_cons_of_mem _ hc)
    · exact h.tail (hf b List.mem_cons_self) hcs

theorem of_append_blanks (h : IgnoresBlanks writes) {back : List Char}
    (hb : ∀ c ∈ back, isBlank c = true) (hcs : writes (cs ++ back) x) : writes cs x := by
  induction back using List.reverseRecOn with
  | nil => rwa [List.append_nil] at hcs
  | append_singleton back b ih =>
    rw [← List.append_assoc] at hcs
    apply ih
    · intro c hc
      exact hb c (List.mem_append_left _ hc)
    · exact h.init (hb b (by simp)) hcs

theorem trim (h : IgnoresBlanks writes) (hcs : writes cs x) : writes (Text.trim cs) x := by
  obtain ⟨front, back, hsplit, hf, hb⟩ := exists_blanks_trim cs
  rw [hsplit, List.append_assoc] at hcs
  exact h.of_append_blanks hb (h.of_blanks_append hf hcs)

theorem joined (h : IgnoresBlanks writes) (op : Char) : IgnoresBlanks (Joined op writes) := by
  refine ⟨?_, ?_, ?_⟩
  · intro cs xs hcs
    cases hcs with
    | one hcs => exact h.ne_nil hcs
    | cons hcs => simp [h.ne_nil hcs]
  · intro c cs xs hc hcs
    generalize hsplit : c :: cs = ds at hcs
    cases hcs with
    | one hds =>
      subst hsplit
      exact .one (h.tail hc hds)
    | cons hfirst hsign hrest =>
      obtain ⟨b, first, rfl⟩ := List.exists_cons_of_ne_nil (h.ne_nil hfirst)
      rw [List.cons_append] at hsplit
      cases hsplit
      exact .cons (h.tail hc hfirst) hsign hrest
  · intro c cs xs hc hcs
    generalize hsplit : cs ++ [c] = ds at hcs
    induction hcs generalizing cs with
    | one hds =>
      subst hsplit
      exact .one (h.init hc hds)
    | @cons _ rest _ _ _ hfirst hsign hrest ih =>
      have hne : rest ≠ [] := by
        cases hrest with
        | one hds => exact h.ne_nil hds
        | cons hds => simp [h.ne_nil hds]
      rw [← List.append_assoc] at hsplit
      obtain ⟨init, rfl, rfl⟩ := exists_init _ hne hsplit
      rw [List.append_assoc]
      exact .cons hfirst hsign (ih rfl)

theorem wrapped (h : IgnoresBlanks writes) : IgnoresBlanks (Wrapped writes) := by
  have hparens : ∀ {c}, isBlank c = true → c ≠ '(' ∧ c ≠ ')' := not_paren_of_isBlank
  refine ⟨?_, ?_, ?_⟩
  · rintro _ x ⟨hcs, hbracketed, _, _⟩
    cases hbracketed with
    | bare => simp [h.ne_nil hcs]
    | parens => simp
  · intro c cs x hc hcs
    generalize hsplit : c :: cs = ds at hcs
    obtain ⟨hinside, hbracketed, hf, hb⟩ := hcs
    rename_i inside bracketed front back
    cases front with
    | cons b front =>
      rw [List.cons_append, List.cons_append] at hsplit
      cases hsplit
      exact .mk hinside hbracketed (fun d hd => hf d (List.mem_cons_of_mem _ hd)) hb
    | nil =>
      cases hbracketed with
      | bare =>
        obtain ⟨b, rest, rfl⟩ := List.exists_cons_of_ne_nil (h.ne_nil hinside)
        cases hsplit
        exact .mk (h.tail hc hinside) .bare hf hb
      | parens =>
        cases hsplit
        exact absurd rfl (hparens hc).1
  · intro c cs x hc hcs
    generalize hsplit : cs ++ [c] = ds at hcs
    obtain ⟨hinside, hbracketed, hf, hb⟩ := hcs
    rename_i inside bracketed front back
    rcases List.eq_nil_or_concat' back with rfl | ⟨back, b, rfl⟩
    · rw [List.append_nil] at hsplit
      cases hbracketed with
      | bare =>
        obtain ⟨init, rfl, rfl⟩ := exists_init _ (h.ne_nil hinside) hsplit
        simpa using Wrapped.mk (h.init hc hinside) .bare hf hb
      | parens =>
        rw [← List.cons_append, ← List.append_assoc] at hsplit
        have hlast := (List.append_inj' hsplit rfl).2
        cases hlast
        exact absurd rfl (hparens hc).2
    · rw [← List.append_assoc] at hsplit
      obtain ⟨rfl, _⟩ := List.append_inj' hsplit rfl
      exact .mk hinside hbracketed hf fun d hd => hb d (List.mem_append_left _ hd)

end IgnoresBlanks

/-! ## Texts of formulas -/

namespace Writes

variable {numericConstants : Bool} {level : Level} {cs : List Char} {f : Formula}

theorem of_factor (h : Writes numericConstants .factor cs f) (level : Level) :
    Writes numericConstants level cs f := by
  cases level with
  | factor => exact h
  | conjunction => exact .one_factor h
  | disjunction => exact .one_conjunction (.one_factor h)

theorem to_disjunction (h : Writes numericConstants level cs f) :
    Writes numericConstants .disjunction cs f := by
  cases level with
  | factor => exact h.of_factor .disjunction
  | conjunction => exact .one_conjunction h
  | disjunction => exact h

theorem cons_blank {b : Char} (hb : isBlank b = true) (h : Writes numericConstants level cs f) :
    Writes numericConstants level (b :: cs) f := by
  have hconjunction : ∀ {cs f}, Writes numericConstants .conjunction cs f →
      Writes numericConstants .conjunction (b :: cs) f := by
    intro cs f h
    cases h with
    | one_factor h => exact .one_factor (.before hb h)
    | conjunction h hsign hback => exact .conjunction (.before hb h) hsign hback
  cases level with
  | factor => exact .before hb h
  | conjunction => exact hconjunction h
  | disjunction =>
    cases h with
    | one_conjunction h => exact .one_conjunction (hconjunction h)
    | disjunction h hsign hback => exact .disjunction (hconjunction h) hsign hback

theorem concat_blank {b : Char} (hb : isBlank b = true) (h : Writes numericConstants level cs f) :
    Writes numericConstants level (cs ++ [b]) f := by
  have hconjunction : ∀ {cs f}, Writes numericConstants .conjunction cs f →
      Writes numericConstants .conjunction (cs ++ [b]) f := by
    intro cs f h
    induction h using Writes.conjunction_induction with
    | one_factor h => exact .one_factor (.behind hb h)
    | conjunction h hsign _ ih =>
      rw [List.append_assoc, List.append_assoc]
      exact .conjunction h hsign ih
  cases level with
  | factor => exact .behind hb h
  | conjunction => exact hconjunction h
  | disjunction =>
    induction h using Writes.disjunction_induction with
    | one_conjunction h => exact .one_conjunction (hconjunction h)
    | disjunction h hsign _ ih =>
      rw [List.append_assoc, List.append_assoc]
      exact .disjunction h hsign ih

/-- Blanks may stand around any text. -/
theorem padded {front back : List Char} (hf : ∀ c ∈ front, isBlank c = true)
    (hb : ∀ c ∈ back, isBlank c = true) (h : Writes numericConstants level cs f) :
    Writes numericConstants level (front ++ cs ++ back) f := by
  have hfront : Writes numericConstants level (front ++ cs) f := by
    induction front with
    | nil => exact h
    | cons b front ih =>
      exact (ih fun c hc => hf c (List.mem_cons_of_mem _ hc)).cons_blank
        (hf b List.mem_cons_self)
  induction back using List.reverseRecOn with
  | nil => rwa [List.append_nil]
  | append_singleton back b ih =>
    rw [← List.append_assoc]
    exact (ih fun c hc => hb c (List.mem_append_left _ hc)).concat_blank (hb b (by simp))

theorem bracketed {ds : List Char} (h : Writes numericConstants level cs f)
    (hds : Bracketed cs ds) : Writes numericConstants level ds f := by
  cases hds with
  | bare => exact h
  | parens hf hb => exact (Writes.parens (h.padded hf hb).to_disjunction).of_factor level

/-- A text that starts with a parenthesis starts with a group. -/
theorem group (h : Writes numericConstants level ('(' :: cs) f) :
    ∃ inner rest, cs = inner ++ ')' :: rest ∧ Balanced inner := by
  obtain ⟨inner, rest, g, hcs, hinner, _⟩ := h.to_disjunction.group_of_disjunction
  exact ⟨inner, rest, hcs, hinner.balanced⟩

end Writes

/-- What is written are texts of formulas of a level, with the given meaning. -/
def Means {α : Type} (numericConstants : Bool) (level : Level) (writes : List Char → α → Prop)
    (holds : Assignment → α → Bool) : Prop :=
  ∀ cs x, writes cs x → ∃ f, Writes numericConstants level cs f ∧ ∀ a, f.holds a = holds a x

section Means

variable {α : Type} {numericConstants : Bool} {level : Level} {writes : List Char → α → Prop}
  {holds : Assignment → α → Bool}

theorem Means.balanced (h : Means numericConstants level writes holds) {cs : List Char} {x : α}
    (hcs : writes cs x) : Balanced cs := by
  obtain ⟨f, hf, _⟩ := h _ _ hcs
  exact hf.balanced

theorem Means.wrapped (h : Means numericConstants level writes holds) :
    Means numericConstants level (Wrapped writes) holds := by
  rintro _ x ⟨hcs, hbracketed, hf, hb⟩
  obtain ⟨f, hwrites, hsame⟩ := h _ _ hcs
  exact ⟨f, (hwrites.bracketed hbracketed).padded hf hb, hsame⟩

theorem Means.conjunction (h : Means numericConstants .factor writes holds) :
    Means numericConstants .conjunction (Joined '&' writes) fun a xs => xs.all (holds a) := by
  intro cs xs hcs
  induction hcs with
  | one hcs =>
    obtain ⟨f, hf, hsame⟩ := h _ _ hcs
    refine ⟨f, .one_factor hf, ?_⟩
    simp [hsame]
  | cons hcs hsign _ ih =>
    obtain ⟨f, hf, hsame⟩ := h _ _ hcs
    obtain ⟨g, hg, hrest⟩ := ih
    refine ⟨.conjunction f g, .conjunction hf hsign hg, ?_⟩
    intro a
    rw [Formula.holds, hsame, hrest]
    rfl

theorem Means.disjunction (h : Means numericConstants .conjunction writes holds) :
    Means numericConstants .disjunction (Joined '|' writes) fun a xs => xs.any (holds a) := by
  intro cs xs hcs
  induction hcs with
  | one hcs =>
    obtain ⟨f, hf, hsame⟩ := h _ _ hcs
    refine ⟨f, .one_conjunction hf, ?_⟩
    simp [hsame]
  | cons hcs hsign _ ih =>
    obtain ⟨f, hf, hsame⟩ := h _ _ hcs
    obtain ⟨g, hg, hrest⟩ := ih
    refine ⟨.disjunction f g, .disjunction hf hsign hg, ?_⟩
    intro a
    rw [Formula.holds, hsame, hrest]
    rfl

theorem means_core (numericConstants : Bool) :
    Means numericConstants .factor (WritesCore numericConstants) WrittenLiteral.holds := by
  intro cs l hcs
  induction hcs with
  | atom hatom =>
    cases hatom with
    | constant hmem => exact ⟨_, .constant hmem, fun _ => (Bool.bne_false _).symm⟩
    | feature _ hname => exact ⟨_, .feature hname, fun _ => (Bool.bne_false _).symm⟩
  | negation hmark hfront _ hbracketed ih =>
    obtain ⟨f, hf, hsame⟩ := ih
    have hds := (hf.bracketed hbracketed).padded hfront forall_isBlank_nil
    rw [List.append_nil] at hds
    refine ⟨.negation f, .negation hmark hds, ?_⟩
    intro a
    rw [Formula.holds, hsame]
    exact (WrittenLiteral.holds_negate a _).symm

theorem means_literal (numericConstants : Bool) :
    Means numericConstants .factor (WritesLiteral numericConstants) WrittenLiteral.holds :=
  (means_core numericConstants).wrapped

theorem means_term (numericConstants : Bool) :
    Means numericConstants .conjunction (WritesTerm numericConstants)
      fun a ls => ls.all (WrittenLiteral.holds a) :=
  (means_literal numericConstants).conjunction.wrapped

theorem Means.group (h : Means numericConstants level writes holds) {cs : List Char} {x : α}
    (hcs : writes ('(' :: cs) x) : ∃ inner rest, cs = inner ++ ')' :: rest ∧ Balanced inner := by
  obtain ⟨f, hf, _⟩ := h _ _ hcs
  exact hf.group

/-- What is written in disjunctive form is the text of a formula: of the
disjunction of its terms. -/
theorem means_terms (numericConstants : Bool) :
    Means numericConstants .disjunction (WritesTerms numericConstants)
      fun a ts => ts.any fun ls => ls.all (WrittenLiteral.holds a) :=
  (means_term numericConstants).disjunction.wrapped

end Means

/-! ## The outermost parentheses -/

theorem unwrap_congr {cs ds : List Char} (h : trim cs = trim ds) : unwrap cs = unwrap ds := by
  unfold unwrap
  rw [h]

/-- A pair around a balanced text is taken off. -/
theorem unwrap_parens {cs : List Char} (h : Balanced cs) :
    unwrap ('(' :: (cs ++ [')'])) = trim cs := by
  have htrimmed : Trimmed ('(' :: (cs ++ [')'])) := by
    constructor
    · rintro c ⟨⟩
      decide
    · intro c hc
      rw [← List.cons_append, List.getLast?_concat] at hc
      cases hc
      decide
  have hearly : closesEarly 0 ('(' :: (cs ++ [')'])) = false := by
    rw [closesEarly, if_pos rfl, closesEarly_append h]
    rfl
  have hlast : ('(' :: (cs ++ [')'])).getLast? = some ')' := by
    rw [← List.cons_append, List.getLast?_concat]
  have henclosed : isEnclosed ('(' :: (cs ++ [')'])) = true := by
    unfold isEnclosed
    rw [hearly, hlast]
    rfl
  unfold unwrap
  simp only [htrimmed.trim_eq, henclosed, if_true, List.tail_cons, List.dropLast_concat]

section Unwrap

variable {α : Type} {writes : List Char → α → Prop} {cs : List Char}

/-- Unwrapping finds what stands in the pair, or unwraps that in its turn. -/
theorem Wrapped.unwrap {x : α} (hbalanced : ∀ {cs x}, writes cs x → Balanced cs)
    (hblanks : IgnoresBlanks writes)
    (hunwrap : ∀ {cs x}, writes cs x → writes (Condition.unwrap cs) x)
    (h : Wrapped writes cs x) : writes (Condition.unwrap cs) x := by
  obtain ⟨hcs, hbracketed, hf, hb⟩ := h
  rw [unwrap_congr ((trim_of_append_blanks hb _).trans (trim_of_blanks_append hf _))]
  cases hbracketed with
  | bare => exact hunwrap hcs
  | parens hfront hback =>
    have hinside := ((balanced_of_blanks hfront).append (hbalanced hcs)).append
      (balanced_of_blanks hback)
    rw [unwrap_parens hinside, trim_of_append_blanks hback, trim_of_blanks_append hfront]
    exact hblanks.trim hcs

/-- Among several parts unwrapping finds no pair around them all: the
parenthesis before the first part closes in that part. -/
theorem Joined.unwrap {op : Char} {xs : List α} (hblanks : IgnoresBlanks (Wrapped writes))
    (hgroup : ∀ {cs x}, Wrapped writes ('(' :: cs) x →
      ∃ inner rest, cs = inner ++ ')' :: rest ∧ Balanced inner)
    (hunwrap : ∀ {cs x}, Wrapped writes cs x → writes (Condition.unwrap cs) x)
    (h : Joined op (Wrapped writes) cs xs) :
    Joined op (Wrapped writes) (Condition.unwrap cs) xs := by
  have htrim := (hblanks.joined op).trim h
  rcases unwrap_cases cs with hu | ⟨inner, hinner, hearly, hu⟩
  · rw [hu]
    exact htrim
  · have hsame : Condition.unwrap (trim cs) = Condition.unwrap cs :=
      unwrap_congr (trimmed_trim cs).trim_eq
    generalize htext : trim cs = ds at htrim
    cases htrim with
    | one hds =>
      have hinside := hunwrap hds
      rw [← htext, hsame] at hinside
      exact .one (.bare hinside)
    | cons hfirst hsign hrest =>
      obtain ⟨c, first, rfl⟩ := List.exists_cons_of_ne_nil (hblanks.ne_nil hfirst)
      rw [hinner, List.cons_append] at htext
      obtain ⟨rfl, hsplit⟩ := List.cons.inj htext
      obtain ⟨group, more, rfl, hbalanced⟩ := hgroup hfirst
      rw [hsplit, List.append_assoc, List.cons_append] at hearly
      have hnone := eq_nil_of_not_closesEarly hbalanced hearly
      simp [hsign.ne_nil] at hnone

end Unwrap

/-! ## Literals, terms and conditions unwrapped -/

section Unwrapped

variable {numericConstants : Bool} {cs : List Char}

theorem WritesAtom.isAtomText {atom : Atom} (h : WritesAtom numericConstants cs atom) :
    IsAtomText cs := by
  cases h with
  | constant hmem => exact (isName_of_mem_constantWords hmem).isAtomText
  | feature _ hname => exact hname.isAtomText

theorem WritesCore.ne_nil {l : WrittenLiteral} (h : WritesCore numericConstants cs l) :
    cs ≠ [] := by
  cases h with
  | atom hatom => exact hatom.isAtomText.ne_nil
  | negation => exact List.cons_ne_nil _ _

theorem WritesCore.head {l : WrittenLiteral} (h : WritesCore numericConstants cs l) {c : Char}
    (hc : cs.head? = some c) : isBlank c = false ∧ c ≠ '(' := by
  cases h with
  | atom hatom =>
    have hplain := hatom.isAtomText.head c hc
    exact ⟨hplain.blank, hplain.opening⟩
  | negation hmark =>
    cases hc
    rcases hmark with rfl | rfl <;> decide

theorem WritesCore.last {l : WrittenLiteral} (h : WritesCore numericConstants cs l) {c : Char}
    (hc : cs.getLast? = some c) : isBlank c = false := by
  induction h with
  | atom hatom =>
    rcases hatom.isAtomText.last c hc with hplain | rfl
    · exact hplain.blank
    · decide
  | negation _ _ h hbracketed ih =>
    cases hbracketed with
    | bare =>
      rw [← List.cons_append, List.getLast?_append_of_ne_nil _ h.ne_nil] at hc
      exact ih hc
    | parens =>
      rw [← List.cons_append, ← List.cons_append, ← List.append_assoc, List.getLast?_concat] at hc
      cases hc
      decide

theorem WritesCore.trimmed {l : WrittenLiteral} (h : WritesCore numericConstants cs l) :
    Trimmed cs :=
  ⟨fun _ hc => (h.head hc).1, fun _ hc => h.last hc⟩

theorem ignoresBlanks_core (numericConstants : Bool) :
    IgnoresBlanks (WritesCore numericConstants) := by
  refine ⟨WritesCore.ne_nil, ?_, ?_⟩
  · intro c cs l hc h
    rw [(h.head rfl).1] at hc
    cases hc
  · intro c cs l hc h
    rw [h.last List.getLast?_concat] at hc
    cases hc

theorem ignoresBlanks_literal (numericConstants : Bool) :
    IgnoresBlanks (WritesLiteral numericConstants) :=
  (ignoresBlanks_core numericConstants).wrapped

theorem ignoresBlanks_term (numericConstants : Bool) :
    IgnoresBlanks (WritesTerm numericConstants) :=
  ((ignoresBlanks_literal numericConstants).joined '&').wrapped

/-- Neither an atom nor a negation is enclosed in parentheses. -/
theorem WritesCore.unwrap_eq {l : WrittenLiteral} (h : WritesCore numericConstants cs l) :
    unwrap cs = cs := by
  rcases unwrap_cases cs with hu | ⟨inner, hinner, _⟩
  · rw [hu, h.trimmed.trim_eq]
  · rw [h.trimmed.trim_eq] at hinner
    exact absurd rfl (h.head (by rw [hinner]; rfl)).2

theorem WritesCore.unwrap_bracketed {ds : List Char} {l : WrittenLiteral}
    (h : WritesCore numericConstants cs l) (hds : Bracketed cs ds) : unwrap ds = cs := by
  cases hds with
  | bare => exact h.unwrap_eq
  | parens hf hb =>
    have hbalanced := (means_core numericConstants).balanced h
    rw [unwrap_parens (((balanced_of_blanks hf).append hbalanced).append (balanced_of_blanks hb)),
      trim_of_append_blanks hb, trim_of_blanks_append hf, h.trimmed.trim_eq]

/-- A literal unwrapped. -/
theorem WritesLiteral.unwrap {l : WrittenLiteral} (h : WritesLiteral numericConstants cs l) :
    WritesCore numericConstants (Condition.unwrap cs) l :=
  Wrapped.unwrap (means_core numericConstants).balanced (ignoresBlanks_core numericConstants)
    (fun hcs => hcs.unwrap_eq.symm ▸ hcs) h

/-- The literals of a term unwrapped. -/
theorem WritesTerm.unwrap {ls : List WrittenLiteral} (h : WritesTerm numericConstants cs ls) :
    Joined '&' (WritesLiteral numericConstants) (Condition.unwrap cs) ls :=
  Wrapped.unwrap (means_literal numericConstants).conjunction.balanced
    ((ignoresBlanks_literal numericConstants).joined '&')
    (Joined.unwrap (ignoresBlanks_literal numericConstants) (means_literal numericConstants).group
      WritesLiteral.unwrap) h

/-- The terms of a condition unwrapped. -/
theorem WritesTerms.unwrap {ts : List (List WrittenLiteral)}
    (h : WritesTerms numericConstants cs ts) :
    Joined '|' (WritesTerm numericConstants) (Condition.unwrap cs) ts :=
  Wrapped.unwrap (means_term numericConstants).disjunction.balanced
    ((ignoresBlanks_term numericConstants).joined '|')
    (Joined.unwrap (ignoresBlanks_term numericConstants) (means_term numericConstants).group
      WritesTerm.unwrap) h

end Unwrapped

/-! ## Cutting at the operators -/

section Cutting

variable {α : Type} {op : Char} {writes : List Char → α → Prop} {cs : List Char}

/-- The operands of what is joined are its parts. -/
theorem Joined.operands {xs : List α} (hne : ∀ {cs x}, writes cs x → cs ≠ [])
    (hop : ∀ {cs x}, writes cs x → op ∉ cs) (h : Joined op writes cs xs) :
    List.Forall₂ writes (Text.operands op cs) xs := by
  induction h with
  | one hcs =>
    rw [operands_of_not_mem (hop hcs)]
    exact .cons hcs .nil
  | @cons front back sign x xs hfirst hsign hrest ih =>
    have hhead : back.head? ≠ some op := by
      intro hhead
      have hfirst : ∃ first rest y, writes first y ∧ back = first ++ rest := by
        cases hrest with
        | one hcs => exact ⟨_, [], _, hcs, (List.append_nil _).symm⟩
        | cons hcs => exact ⟨_, _, _, hcs, rfl⟩
      obtain ⟨first, rest, y, hy, rfl⟩ := hfirst
      rw [List.head?_append_of_ne_nil _ (hne hy)] at hhead
      exact hop hy (List.mem_of_head? hhead)
    rw [operands_sign hsign (hop hfirst) hhead]
    exact .cons hfirst ih

/-- A text whose operands are written is what they are joined to. -/
theorem joined_of_operands {cs : List Char} {xs : List α}
    (h : List.Forall₂ writes (Text.operands op cs) xs) :
    Joined op writes cs xs := by
  by_cases hop : op ∈ cs
  · obtain ⟨front, rest, hcs, hfront⟩ := List.eq_append_cons_of_mem hop
    have hlength : rest.length < cs.length := by
      rw [hcs, List.length_append, List.length_cons]
      omega
    have hlength' := length_dropOne_le op rest
    rw [hcs, operands_append_cons hfront] at h
    rcases h with _ | ⟨hfirst, hrest⟩
    have hsign : ∃ sign, IsSign op sign ∧ cs = front ++ (sign ++ dropOne op rest) := by
      cases rest with
      | nil => exact ⟨[op], Or.inl rfl, hcs⟩
      | cons c rest =>
        rw [dropOne]
        split
        · rename_i hc
          exact ⟨[op, op], Or.inr rfl, by rw [hcs, hc]; rfl⟩
        · exact ⟨[op], Or.inl rfl, hcs⟩
    obtain ⟨sign, hsign, hsplit⟩ := hsign
    rw [hsplit]
    exact .cons hfirst hsign (joined_of_operands hrest)
  · rw [operands_of_not_mem hop] at h
    rcases h with _ | ⟨hfirst, hrest⟩
    cases hrest
    exact .one hfirst
termination_by cs.length

theorem not_mem_of_blanks {blanks : List Char} (hop : isBlank op = false)
    (h : ∀ c ∈ blanks, isBlank c = true) : op ∉ blanks := by
  intro hm
  rw [h op hm] at hop
  cases hop

theorem Bracketed.not_mem {ds : List Char} (hop : isBlank op = false) (hopen : op ≠ '(')
    (hclose : op ≠ ')') (hcs : op ∉ cs) (h : Bracketed cs ds) : op ∉ ds := by
  cases h with
  | bare => exact hcs
  | parens hf hb =>
    simp [hopen, hclose, hcs, not_mem_of_blanks hop hf, not_mem_of_blanks hop hb]

theorem Wrapped.not_mem {x : α} (hop : isBlank op = false) (hopen : op ≠ '(') (hclose : op ≠ ')')
    (hwrites : ∀ {cs x}, writes cs x → op ∉ cs) (h : Wrapped writes cs x) : op ∉ cs := by
  obtain ⟨hcs, hbracketed, hf, hb⟩ := h
  have hds := hbracketed.not_mem hop hopen hclose (hwrites hcs)
  simp [hds, not_mem_of_blanks hop hf, not_mem_of_blanks hop hb]

theorem Joined.not_mem {op' : Char} {xs : List α} (hop : op ≠ op')
    (hwrites : ∀ {cs x}, writes cs x → op ∉ cs) (h : Joined op' writes cs xs) : op ∉ cs := by
  induction h with
  | one hcs => exact hwrites hcs
  | @cons _ _ sign _ _ hcs hsign _ ih =>
    have hmem : op ∉ sign := fun hm => hop (hsign.eq_of_mem hm)
    simp [hwrites hcs, hmem, ih]

theorem WritesCore.not_mem {numericConstants : Bool} {l : WrittenLiteral}
    (h : WritesCore numericConstants cs l) : '&' ∉ cs ∧ '|' ∉ cs := by
  induction h with
  | atom hatom => exact hatom.isAtomText.no_operator
  | negation hmark hfront _ hbracketed ih =>
    have hand := hbracketed.not_mem (by decide) (by decide) (by decide) ih.1
    have hor := hbracketed.not_mem (by decide) (by decide) (by decide) ih.2
    have hblanks : '&' ∉ _ := not_mem_of_blanks (by decide) hfront
    have hblanks' : '|' ∉ _ := not_mem_of_blanks (by decide) hfront
    rcases hmark with rfl | rfl <;> simp [hand, hor, hblanks, hblanks']

theorem WritesLiteral.not_mem {numericConstants : Bool} {l : WrittenLiteral}
    (h : WritesLiteral numericConstants cs l) : '&' ∉ cs ∧ '|' ∉ cs :=
  ⟨Wrapped.not_mem (by decide) (by decide) (by decide) (fun hcs => hcs.not_mem.1) h,
    Wrapped.not_mem (by decide) (by decide) (by decide) (fun hcs => hcs.not_mem.2) h⟩

theorem WritesTerm.not_mem {numericConstants : Bool} {ls : List WrittenLiteral}
    (h : WritesTerm numericConstants cs ls) : '|' ∉ cs :=
  Wrapped.not_mem (by decide) (by decide) (by decide)
    (Joined.not_mem (by decide) fun hcs => hcs.not_mem.2) h

end Cutting

end Variability
