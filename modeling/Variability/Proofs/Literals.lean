-- Reading one literal: what is read has balanced parentheses, and a factor
-- without operators is read for what it says.
import Variability.Proofs.Nesting

namespace Variability.Condition

open Text

/-! ## Atoms that are read -/

theorem eq_of_bareName? {cs name : List Char} (h : bareName? cs = some name) :
    cs = name ∧ IsName name := by
  unfold bareName? at h
  split at h
  · rename_i hcs
    cases h
    rw [Bool.and_eq_true, Bool.not_eq_true', List.isEmpty_eq_false_iff] at hcs
    exact ⟨rfl, hcs.1, List.all_eq_true.mp hcs.2⟩
  · cases h

theorem bareName?_of_isName {name : List Char} (h : IsName name) : bareName? name = some name := by
  unfold bareName?
  rw [if_pos]
  rw [Bool.and_eq_true, Bool.not_eq_true', List.isEmpty_eq_false_iff]
  exact ⟨h.ne_nil, List.all_eq_true.mpr h.chars⟩

/-- What a name between parentheses is made of. -/
theorem exists_of_enclosedName? {cs name : List Char} (h : enclosedName? cs = some name) :
    ∃ before front back, cs = before ++ '(' :: (front ++ name ++ back ++ [')']) ∧ IsName name ∧
      (∀ c ∈ before, isBlank c = true) ∧ (∀ c ∈ front, isBlank c = true) ∧
      ∀ c ∈ back, isBlank c = true := by
  unfold enclosedName? at h
  split at h
  · rename_i inner hstart
    simp only at h
    split at h
    · rename_i hclose
      obtain ⟨hname, hchars⟩ := eq_of_bareName? h
      obtain ⟨before, hcs, hbefore⟩ := exists_blanks_trimStart cs
      obtain ⟨front, hinner, hfront⟩ := exists_blanks_trimStart inner
      obtain ⟨back, hback, hb⟩ :=
        exists_blanks_trimStart ((trimStart inner).dropWhile isNameChar)
      rw [hclose] at hback
      have hsplit : trimStart inner = name ++ (back ++ [')']) := by
        rw [← hback, ← hname, List.takeWhile_append_dropWhile]
      refine ⟨before, front, back, ?_, hchars, hbefore, hfront, hb⟩
      rw [hcs, hstart, hinner, hsplit, List.append_assoc, List.append_assoc]
    · cases h
  · cases h

/-- What a name behind blanks is made of. -/
theorem exists_of_separateName? {cs name : List Char} (h : separateName? cs = some name) :
    ∃ blanks, cs = blanks ++ name ∧ IsName name ∧ blanks ≠ [] ∧
      ∀ c ∈ blanks, isBlank c = true := by
  unfold separateName? at h
  split at h
  · cases h
  · rename_i c rest
    split at h
    · rename_i hblank
      obtain ⟨hname, hchars⟩ := eq_of_bareName? h
      obtain ⟨front, hrest, hfront⟩ := exists_blanks_trimStart rest
      rw [hname] at hrest
      refine ⟨c :: front, ?_, hchars, List.cons_ne_nil _ _, ?_⟩
      · rw [hrest, List.cons_append]
      · exact List.forall_mem_cons.mpr ⟨hblank, hfront⟩
    · cases h

theorem balanced_of_enclosedName? {cs name : List Char} (h : enclosedName? cs = some name) :
    Balanced cs := by
  obtain ⟨before, front, back, rfl, hname, hbefore, hfront, hback⟩ := exists_of_enclosedName? h
  have hinside := ((balanced_of_blanks hfront).append hname.isAtomText.balanced).append
    (balanced_of_blanks hback)
  exact (balanced_of_blanks hbefore).append hinside.parens

theorem balanced_of_separateName? {cs name : List Char} (h : separateName? cs = some name) :
    Balanced cs := by
  obtain ⟨blanks, rfl, hname, _, hblanks⟩ := exists_of_separateName? h
  exact (balanced_of_blanks hblanks).append hname.isAtomText.balanced

/-- What stands behind one of the words is balanced, so the atom is. -/
theorem balanced_of_atomName? {atom name : List Char} (h : atomName? atom = some name) :
    Balanced atom := by
  have hword : ∀ (word : String) (read : List Char → Option (List Char)),
      word = "defined" ∨ word = "definedEx" →
      (∀ rest, read rest = some name → Balanced rest) →
      (afterWord? word.toList atom).bind read = some name → Balanced atom := by
    intro word read hword hread hbind
    obtain ⟨rest, hafter, hrest⟩ := Option.bind_eq_some_iff.mp hbind
    rw [afterWord?_eq_some_iff.mp hafter]
    exact (isName_of_word hword).isAtomText.balanced.append (hread rest hrest)
  unfold atomName? at h
  simp only [Option.orElse_eq_orElse, Option.orElse_eq_or, Option.or_eq_some_iff] at h
  rcases h with h | ⟨_, h | ⟨_, h | ⟨_, h⟩⟩⟩
  · exact hword _ _ (Or.inr rfl) (fun _ => balanced_of_enclosedName?) h
  · exact hword _ _ (Or.inl rfl) (fun _ => balanced_of_enclosedName?) h
  · exact hword _ _ (Or.inl rfl) (fun _ => balanced_of_separateName?) h
  · obtain ⟨hname, hchars⟩ := eq_of_bareName? h
    rw [hname]
    exact hchars.isAtomText.balanced

/-- A constant is one of the words for it. -/
theorem mem_constantWords_of_constant? {numericConstants : Bool} {atom : List Char} {value : Bool}
    (h : constant? numericConstants atom = some value) :
    (String.ofList atom, value) ∈ constantWords numericConstants := by
  unfold constant? at h
  split at h
  · rename_i hatom
    cases h
    rcases hatom with rfl | rfl <;> simp [constantWords]
  · split at h
    · rename_i hatom
      cases h
      rcases hatom with rfl | rfl <;> simp [constantWords]
    · split at h
      · rename_i hatom
        cases h
        rw [hatom.2]
        simp [constantWords, hatom.1]
      · split at h
        · rename_i hatom
          cases h
          rw [hatom.2]
          simp [constantWords, hatom.1]
        · cases h

theorem isName_of_constant? {numericConstants : Bool} {atom : List Char} {value : Bool}
    (h : constant? numericConstants atom = some value) : IsName atom := by
  have := isName_of_mem_constantWords (mem_constantWords_of_constant? h)
  rwa [String.toList_ofList] at this

/-! ## Balance -/

theorem balanced_of_takeNegations {negated odd : Bool} {cs rest : List Char}
    (h : takeNegations negated cs = (odd, rest)) (hrest : Balanced rest) : Balanced cs := by
  fun_induction takeNegations negated cs with
  | case1 => exact balanced_nil
  | case2 negated c cs hmark ih =>
    refine (ih h).cons ?_ ?_ <;>
    · rintro rfl
      exact absurd hmark (by decide)
  | case3 negated c cs _ hblank ih =>
    exact (ih h).cons (not_paren_of_isBlank hblank).1 (not_paren_of_isBlank hblank).2
  | case4 =>
    cases h
    exact hrest

/-- Taking negations and parentheses off leaves no parenthesis without its
partner. -/
theorem balanced_of_stripNegations {negated odd : Bool} {cs atom : List Char}
    (h : stripNegations negated cs = (odd, atom)) (hatom : Balanced atom) : Balanced cs := by
  fun_induction stripNegations negated cs with
  | case1 negated cs hunwrap =>
    apply balanced_of_unwrap
    rw [hunwrap]
    exact balanced_nil
  | case2 negated cs c rest hunwrap hmark odd' inner htake ih =>
    apply balanced_of_unwrap
    rw [hunwrap]
    refine (balanced_of_takeNegations htake (ih h)).cons ?_ ?_ <;>
    · rintro rfl
      exact absurd hmark (by decide)
  | case3 negated cs c rest hunwrap hmark =>
    apply balanced_of_unwrap
    rw [hunwrap]
    refine (balanced_of_takeNegations h hatom).cons ?_ ?_ <;>
    · rintro rfl
      exact absurd hmark (by decide)
  | case4 negated cs c rest hunwrap hmark =>
    apply balanced_of_unwrap
    rw [hunwrap]
    cases h
    exact hatom

/-- A literal that is read is balanced. -/
theorem balanced_of_readLiteral {numericConstants : Bool} {source : String} {cs : List Char}
    {r : LiteralReading} (h : readLiteral numericConstants source cs = .ok r) : Balanced cs := by
  unfold readLiteral at h
  cases hstrip : stripNegations false cs with
  | mk negated atom =>
    simp only [hstrip] at h
    apply balanced_of_stripNegations hstrip
    split at h
    · cases h
    · split at h
      · rename_i value hconstant
        exact (isName_of_constant? hconstant).isAtomText.balanced
      · split at h
        · rename_i l hliteral
          obtain ⟨name, hname, _⟩ := Option.bind_eq_some_iff.mp hliteral
          exact balanced_of_atomName? hname
        · cases h

/-! ## Atoms of the grammar -/

section Atoms

variable {numericConstants : Bool}

theorem constant?_of_mem {word : String} {value : Bool}
    (h : (word, value) ∈ constantWords numericConstants) :
    constant? numericConstants word.toList = some value := by
  have hall : ∀ p ∈ constantWords numericConstants,
      constant? numericConstants p.1.toList = some p.2 := by
    cases numericConstants <;> decide
  exact hall _ h

theorem constant?_eq_none_iff {name : String} : constant? numericConstants name.toList = none ↔
    ∀ value, (name, value) ∉ constantWords numericConstants := by
  constructor
  · intro h value hmem
    rw [constant?_of_mem hmem] at h
    cases h
  · intro h
    cases hconstant : constant? numericConstants name.toList with
    | none => rfl
    | some value =>
      have hmem := mem_constantWords_of_constant? hconstant
      rw [String.ofList_toList] at hmem
      exact absurd hmem (h value)

/-- The text of a feature is no constant. -/
theorem constant?_of_feature {cs name : List Char}
    (h : WritesFeature numericConstants cs name) : constant? numericConstants cs = none := by
  cases hconstant : constant? numericConstants cs with
  | none => rfl
  | some value =>
    have hmem := mem_constantWords_of_constant? hconstant
    have hchars := (isName_of_constant? hconstant).chars
    cases h with
    | bare _ hbare => exact absurd hmem (hbare value)
    | @separate blanks _ _ hne hblanks =>
      obtain ⟨b, rest, rfl⟩ := List.exists_cons_of_ne_nil hne
      have hplain := isPlain_of_isNameChar (hchars b (by simp))
      exact absurd (hblanks b List.mem_cons_self) (by simp [hplain.blank])
    | enclosed =>
      have hplain := isPlain_of_isNameChar (hchars '(' (by simp))
      exact absurd rfl hplain.opening

theorem enclosedName?_enclosed {before front back name : List Char} (hname : IsName name)
    (hbefore : ∀ c ∈ before, isBlank c = true) (hfront : ∀ c ∈ front, isBlank c = true)
    (hback : ∀ c ∈ back, isBlank c = true) :
    enclosedName? (before ++ '(' :: (front ++ name ++ back ++ [')'])) = some name := by
  have hstart : trimStart (before ++ '(' :: (front ++ name ++ back ++ [')'])) =
      '(' :: (front ++ name ++ back ++ [')']) :=
    trimStart_blanks_append hbefore (by rintro c ⟨⟩; decide)
  have hinner : trimStart (front ++ name ++ back ++ [')']) = name ++ (back ++ [')']) := by
    rw [List.append_assoc, List.append_assoc]
    apply trimStart_blanks_append hfront
    intro c hc
    rw [List.head?_append_of_ne_nil _ hname.ne_nil] at hc
    exact (hname.isAtomText.head c hc).blank
  have hstop : ∀ c, (back ++ [')']).head? = some c → isNameChar c = false := by
    intro c hc
    cases back with
    | nil =>
      cases hc
      decide
    | cons b back =>
      obtain rfl : b = c := Option.some.inj hc
      cases hchar : isNameChar b with
      | false => rfl
      | true =>
        have := (isPlain_of_isNameChar hchar).blank
        rw [hback b List.mem_cons_self] at this
        cases this
  have htake := takeWhile_append_of_stop hname.chars hstop
  have hdrop := dropWhile_append_of_stop hname.chars hstop
  have hend : trimStart (back ++ [')']) = [')'] :=
    trimStart_blanks_append hback (by rintro c ⟨⟩; decide)
  unfold enclosedName?
  rw [hstart]
  simp only [hinner, htake, hdrop, hend, if_true]
  exact bareName?_of_isName hname

/-- What does not start with a parenthesis behind its blanks encloses no
name. -/
theorem enclosedName?_of_head {cs : List Char} (h : (trimStart cs).head? ≠ some '(') :
    enclosedName? cs = none := by
  unfold enclosedName?
  split
  · rename_i inner hstart
    rw [hstart] at h
    exact absurd rfl h
  · rfl

theorem separateName?_of_head {cs : List Char} (h : ∀ c, cs.head? = some c → isBlank c = false) :
    separateName? cs = none := by
  cases cs with
  | nil => rfl
  | cons c cs => simp [separateName?, h c rfl]

/-- Behind a word that starts a name there is no name to be read. -/
theorem bind_afterWord?_of_isName (word : List Char) {name : List Char} (hname : IsName name) :
    (afterWord? word name).bind enclosedName? = none ∧
      (afterWord? word name).bind separateName? = none := by
  cases hafter : afterWord? word name with
  | none => exact ⟨rfl, rfl⟩
  | some rest =>
    have hsplit := afterWord?_eq_some_iff.mp hafter
    have hplain : ∀ c ∈ rest, IsPlain c := fun c hc =>
      isPlain_of_isNameChar (hname.chars c (hsplit ▸ List.mem_append_right _ hc))
    refine ⟨?_, separateName?_of_head fun c hc => (hplain c (List.mem_of_head? hc)).blank⟩
    apply enclosedName?_of_head
    intro hopen
    have hmem := (List.dropWhile_sublist isBlank).subset (List.mem_of_head? hopen)
    exact (hplain _ hmem).opening rfl

/-- The longer word does not stand where the shorter one ends in a blank or in a
parenthesis. -/
theorem afterWord?_definedEx (rest : List Char)
    (h : ∀ c, rest.head? = some c → isBlank c = true ∨ c = '(') :
    afterWord? "definedEx".toList ("defined".toList ++ rest) = none := by
  cases hafter : afterWord? "definedEx".toList ("defined".toList ++ rest) with
  | none => rfl
  | some more =>
    have hsplit := afterWord?_eq_some_iff.mp hafter
    rw [show "definedEx".toList = "defined".toList ++ ['E', 'x'] from rfl, List.append_assoc]
      at hsplit
    rw [List.append_cancel_left hsplit] at h
    rcases h 'E' rfl with hE | hE
    · exact absurd hE (by decide)
    · cases hE

/-- The text of a feature is read as its name. -/
theorem atomName?_of_feature {cs name : List Char}
    (h : WritesFeature numericConstants cs name) : atomName? cs = some name := by
  unfold atomName?
  cases h with
  | bare hname =>
    obtain ⟨hlong, _⟩ := bind_afterWord?_of_isName "definedEx".toList hname
    obtain ⟨henclosed, hseparate⟩ := bind_afterWord?_of_isName "defined".toList hname
    rw [hlong, henclosed, hseparate, bareName?_of_isName hname]
    rfl
  | @separate blanks _ hname hne hblanks =>
    obtain ⟨b, rest, rfl⟩ := List.exists_cons_of_ne_nil hne
    have hhead : ∀ c, name.head? = some c → isBlank c = false :=
      fun c hc => (hname.isAtomText.head c hc).blank
    have hlong := afterWord?_definedEx (b :: rest ++ name) (by
      rintro c ⟨⟩
      exact Or.inl (hblanks b List.mem_cons_self))
    have hshort : afterWord? "defined".toList ("defined".toList ++ (b :: rest ++ name)) =
        some (b :: rest ++ name) := afterWord?_eq_some_iff.mpr rfl
    have henclosed : enclosedName? (b :: rest ++ name) = none := by
      apply enclosedName?_of_head
      rw [trimStart_blanks_append hblanks hhead]
      intro hopen
      exact (hname.isAtomText.head _ hopen).opening rfl
    have hseparate : separateName? (b :: rest ++ name) = some name := by
      rw [List.cons_append, separateName?, if_pos (hblanks b List.mem_cons_self),
        trimStart_blanks_append (fun c hc => hblanks c (List.mem_cons_of_mem _ hc)) hhead]
      exact bareName?_of_isName hname
    rw [hlong, hshort, Option.bind_none, Option.bind_some, Option.bind_some, henclosed, hseparate]
    rfl
  | @enclosed word before front back _ hname hword hbefore hfront hback =>
    have hread := enclosedName?_enclosed hname hbefore hfront hback
    rcases hword with rfl | rfl
    · have hlong := afterWord?_definedEx (before ++ '(' :: (front ++ name ++ back ++ [')'])) (by
        intro c hc
        cases before with
        | nil => exact Or.inr (Option.some.inj hc).symm
        | cons b before =>
          obtain rfl : b = c := Option.some.inj hc
          exact Or.inl (hbefore b List.mem_cons_self))
      rw [hlong, afterWord?_eq_some_iff.mpr rfl, Option.bind_none, Option.bind_some, hread]
      rfl
    · rw [afterWord?_eq_some_iff.mpr rfl, Option.bind_some, hread]
      rfl

end Atoms

/-! ## Factors -/

def LiteralReading.holds (a : Assignment) : LiteralReading → Bool
  | constant value => value
  | literal l => l.holds a

section Factors

variable {numericConstants : Bool} {cs : List Char} {f : Formula}

/-- A factor without operators says the same without the parentheses around
it. -/
theorem unwrap_of_factor (h : Writes numericConstants .factor cs f) (hand : '&' ∉ cs)
    (hor : '|' ∉ cs) :
    Writes numericConstants .factor (unwrap cs) f ∧ Trimmed (unwrap cs) ∧
      '&' ∉ unwrap cs ∧ '|' ∉ unwrap cs := by
  have hsub : ∀ c, c ∈ trim cs → c ∈ cs := by
    intro c hc
    obtain ⟨front, back, hcs, _, _⟩ := exists_blanks_trim cs
    rw [hcs]
    simp [hc]
  rcases unwrap_cases cs with hu | ⟨inner, htrim, hearly, hu⟩
  · rw [hu]
    exact ⟨h.trim, trimmed_trim cs, fun hm => hand (hsub _ hm), fun hm => hor (hsub _ hm)⟩
  · have hgroup := h.trim
    rw [htrim] at hgroup
    obtain ⟨middle, rest, hsplit, hmiddle, _⟩ := hgroup.group_of_factor
    rw [hsplit] at hearly
    obtain rfl := eq_nil_of_not_closesEarly hmiddle.balanced hearly
    obtain ⟨rfl, _⟩ := List.append_inj' hsplit rfl
    have hinner : ∀ c, c ∈ trim inner → c ∈ cs := by
      intro c hc
      obtain ⟨front, back, hcs, _, _⟩ := exists_blanks_trim inner
      apply hsub
      rw [htrim, hcs]
      simp [hc]
    rw [hu]
    have hand' : '&' ∉ trim inner := fun hm => hand (hinner _ hm)
    have hor' : '|' ∉ trim inner := fun hm => hor (hinner _ hm)
    exact ⟨(hmiddle.trim.conjunction_of_no_or hor').factor_of_no_and hand',
      trimmed_trim inner, hand', hor'⟩

/-- What follows the negations of a factor is a factor, negated as often. -/
theorem takeNegations_of_factor {negated odd : Bool} {rest : List Char}
    (h : Writes numericConstants .factor cs f)
    (htake : takeNegations negated cs = (odd, rest)) :
    ∃ g front, Writes numericConstants .factor rest g ∧ cs = front ++ rest ∧
      (∀ c, rest.head? = some c → isNegation c = false ∧ isBlank c = false) ∧
      ∀ a, (f.holds a != negated) = (g.holds a != odd) := by
  fun_induction takeNegations negated cs generalizing f with
  | case1 => exact absurd rfl h.ne_nil
  | case2 negated c cs hmark ih =>
    obtain ⟨g, hg, hnot⟩ := h.negated_of_factor hmark
    obtain ⟨g', front, hg', hcs, hhead, hsame⟩ := ih hg htake
    refine ⟨g', c :: front, hg', by rw [hcs, List.cons_append], hhead, ?_⟩
    intro a
    rw [← hsame a, hnot a]
    cases g.holds a <;> cases negated <;> rfl
  | case3 negated c cs _ hblank ih =>
    obtain ⟨g, front, hg, hcs, hhead, hsame⟩ := ih (h.tail_of_blank hblank) htake
    exact ⟨g, c :: front, hg, by rw [hcs, List.cons_append], hhead, hsame⟩
  | case4 negated c cs hmark hblank =>
    cases htake
    refine ⟨f, [], h, rfl, ?_, fun _ => rfl⟩
    rintro d ⟨⟩
    exact ⟨by simpa using hmark, by simpa using hblank⟩

/-- What is left of a factor without operators when negations and parentheses
are off is a factor, negated as often as is said. -/
theorem stripNegations_of_factor {negated odd : Bool} {atom : List Char}
    (h : Writes numericConstants .factor cs f) (hand : '&' ∉ cs) (hor : '|' ∉ cs)
    (hstrip : stripNegations negated cs = (odd, atom)) :
    ∃ g, Writes numericConstants .factor atom g ∧ Trimmed atom ∧
      (∀ c, atom.head? = some c → isNegation c = false) ∧
      ∀ a, (f.holds a != negated) = (g.holds a != odd) := by
  fun_induction stripNegations negated cs generalizing f with
  | case1 negated cs hunwrap =>
    have := (unwrap_of_factor h hand hor).1.ne_nil
    exact absurd hunwrap this
  | case2 negated cs c rest hunwrap hmark odd' inner htake ih =>
    obtain ⟨hu, _, hand', hor'⟩ := unwrap_of_factor h hand hor
    rw [hunwrap] at hu hand' hor'
    obtain ⟨g, hg, hnot⟩ := hu.negated_of_factor hmark
    obtain ⟨g', front, hg', hrest, _, hsame⟩ := takeNegations_of_factor hg htake
    rw [hrest] at hand' hor'
    obtain ⟨k, hk, htrimmed, hhead, hsame'⟩ := ih hg'
      (fun hm => hand' (List.mem_cons_of_mem _ (List.mem_append_right _ hm)))
      (fun hm => hor' (List.mem_cons_of_mem _ (List.mem_append_right _ hm))) hstrip
    refine ⟨k, hk, htrimmed, hhead, ?_⟩
    intro a
    rw [← hsame' a, ← hsame a, hnot a]
    cases g.holds a <;> cases negated <;> rfl
  | case3 negated cs c rest hunwrap hmark =>
    obtain ⟨hu, htrimmed, _, _⟩ := unwrap_of_factor h hand hor
    rw [hunwrap] at hu htrimmed
    obtain ⟨g, hg, hnot⟩ := hu.negated_of_factor hmark
    obtain ⟨g', front, hg', hrest, hhead, hsame⟩ := takeNegations_of_factor hg hstrip
    refine ⟨g', hg', ⟨fun d hd => (hhead d hd).2, ?_⟩, fun d hd => (hhead d hd).1, ?_⟩
    · intro d hd
      apply htrimmed.last
      rwa [hrest, ← List.cons_append, List.getLast?_append_of_ne_nil _ hg'.ne_nil]
    · intro a
      rw [← hsame a, hnot a]
      cases g.holds a <;> cases negated <;> rfl
  | case4 negated cs c rest hunwrap hmark =>
    obtain ⟨hu, htrimmed, _, _⟩ := unwrap_of_factor h hand hor
    rw [hunwrap] at hu htrimmed
    cases hstrip
    refine ⟨f, hu, htrimmed, ?_, fun _ => rfl⟩
    rintro d ⟨⟩
    simpa using hmark

theorem atomName?_of_open (cs : List Char) : atomName? ('(' :: cs) = none := rfl

theorem constant?_of_open (numericConstants : Bool) (cs : List Char) :
    constant? numericConstants ('(' :: cs) = none := by
  cases h : constant? numericConstants ('(' :: cs) with
  | none => rfl
  | some value =>
    have := (isName_of_constant? h).isAtomText.head '(' rfl
    exact absurd rfl this.opening

/-- A factor without operators that is read is read for what it says. -/
theorem readLiteral_of_factor {source : String} {r : LiteralReading}
    (h : Writes numericConstants .factor cs f) (hand : '&' ∉ cs) (hor : '|' ∉ cs)
    (hread : readLiteral numericConstants source cs = .ok r) (a : Assignment) :
    r.holds a = f.holds a := by
  unfold readLiteral at hread
  cases hstrip : stripNegations false cs with
  | mk negated atom =>
    obtain ⟨g, hg, htrimmed, hmark, hsame⟩ := stripNegations_of_factor h hand hor hstrip
    have hf : f.holds a = (g.holds a != negated) := by
      rw [← hsame a, Bool.bne_false]
    simp only [hstrip, if_neg hg.ne_nil] at hread
    by_cases hopen : atom.head? = some '('
    · obtain ⟨rest, rfl⟩ := List.head?_eq_some_iff.mp hopen
      rw [constant?_of_open, atomName?_of_open] at hread
      cases hread
    · have hhead : ∀ c, atom.head? = some c → isNegation c = false ∧ c ≠ '(' := by
        rintro c hc
        refine ⟨hmark c hc, ?_⟩
        rintro rfl
        exact hopen hc
      rcases hg.atom_of_factor htrimmed hhead with
        ⟨word, value, hmem, rfl, rfl⟩ | ⟨name, hname, rfl⟩
      · rw [constant?_of_mem hmem] at hread
        cases hread
        rw [hf]
        rfl
      · rw [constant?_of_feature hname, atomName?_of_feature hname, Option.bind_some] at hread
        cases hl : Literal.ofName? (String.ofList name) negated with
        | none =>
          rw [hl] at hread
          cases hread
        | some l =>
          rw [hl] at hread
          cases hread
          unfold Literal.ofName? at hl
          split at hl
          · cases hl
            exact hf.symm
          · cases hl

end Factors

end Variability.Condition
