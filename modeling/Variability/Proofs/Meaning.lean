-- What a parsed condition means: the formula, or one of the terms that were
-- read from inside a group that was cut.
import Variability.Proofs.Conjunction
import Variability.Proofs.Terms

namespace Variability.Condition

open Text

/-! ## Where the pieces stand -/

/-- The pieces of a text, each with the number of parentheses open before it. -/
def placed : Nat → List (List Char) → List (Nat × List Char)
  | _, [] => []
  | depth, piece :: rest => (depth, piece) :: placed ((depth? depth piece).getD 0) rest

/-- The number of parentheses open behind the pieces. -/
def depthBehind : Nat → List (List Char) → Nat
  | depth, [] => depth
  | depth, piece :: rest => depthBehind ((depth? depth piece).getD 0) rest

theorem map_snd_placed (depth : Nat) (pieces : List (List Char)) :
    (placed depth pieces).map Prod.snd = pieces := by
  induction pieces generalizing depth with
  | nil => rfl
  | cons piece rest ih => rw [placed, List.map_cons, ih]

theorem placed_append (depth : Nat) (xs ys : List (List Char)) :
    placed depth (xs ++ ys) = placed depth xs ++ placed (depthBehind depth xs) ys := by
  induction xs generalizing depth with
  | nil => rfl
  | cons piece xs ih => rw [List.cons_append, placed, placed, ih, List.cons_append, depthBehind]

/-- Cutting at an operator changes no depth. -/
theorem depthBehind_operands {op : Char} (hopen : op ≠ '(') (hclose : op ≠ ')') {d e : Nat}
    {cs : List Char} (h : depth? d cs = some e) : depthBehind d (operands op cs) = e := by
  by_cases hop : op ∈ cs
  · obtain ⟨front, rest, hcs, hfront⟩ := List.eq_append_cons_of_mem hop
    have hlength : rest.length < cs.length := by
      rw [hcs, List.length_append, List.length_cons]
      omega
    rw [hcs] at h
    obtain ⟨k, hk⟩ := exists_depth?_of_append h
    rw [depth?_append, hk, Option.bind_some, depth?_cons hopen hclose] at h
    rw [hcs, operands_append_cons hfront, depthBehind, hk, Option.getD_some]
    have hdrop : depth? k (dropOne op rest) = some e := by
      cases rest with
      | nil => exact h
      | cons c rest =>
        rw [dropOne]
        split
        · rename_i hc
          rwa [hc, depth?_cons hopen hclose] at h
        · exact h
    have hlength' := length_dropOne_le op rest
    exact depthBehind_operands hopen hclose hdrop
  · rw [operands_of_not_mem hop, depthBehind, h]
    rfl
termination_by cs.length

/-- Every piece but the first starts behind an operator. -/
theorem operator_before_placed {op : Char} (hopen : op ≠ '(') (hclose : op ≠ ')') {d e : Nat}
    {cs : List Char} (h : depth? d cs = some e) {p : Nat × List Char}
    (hp : p ∈ (placed d (operands op cs)).tail) :
    ∃ front rest, cs = front ++ op :: rest ∧ depth? d front = some p.1 := by
  by_cases hop : op ∈ cs
  · obtain ⟨front, rest, hcs, hfront⟩ := List.eq_append_cons_of_mem hop
    have hlength : rest.length < cs.length := by
      rw [hcs, List.length_append, List.length_cons]
      omega
    have hlength' := length_dropOne_le op rest
    rw [hcs] at h
    obtain ⟨k, hk⟩ := exists_depth?_of_append h
    rw [depth?_append, hk, Option.bind_some, depth?_cons hopen hclose] at h
    rw [hcs, operands_append_cons hfront, placed, List.tail_cons, hk, Option.getD_some] at hp
    obtain ⟨marks, hrest, hmarks⟩ : ∃ marks, rest = marks ++ dropOne op rest ∧
        ∀ c ∈ marks, c ≠ '(' ∧ c ≠ ')' := by
      cases rest with
      | nil => exact ⟨[], rfl, by simp⟩
      | cons c rest =>
        rw [dropOne]
        split
        · rename_i hc
          exact ⟨[c], rfl, by simp [hc, hopen, hclose]⟩
        · exact ⟨[], rfl, by simp⟩
    rw [hrest, depth?_append, depth?_of_noParens hmarks, Option.bind_some] at h
    cases hpieces : operands op (dropOne op rest) with
    | nil =>
      rw [hpieces] at hp
      cases hp
    | cons piece others =>
      rw [hpieces] at hp
      rcases List.mem_cons.mp hp with rfl | hp
      · exact ⟨front, rest, hcs, hk⟩
      · obtain ⟨front', rest', hsplit, hdepth⟩ :=
          operator_before_placed hopen hclose h (p := p) (by rwa [hpieces])
        refine ⟨front ++ op :: (marks ++ front'), rest', ?_, ?_⟩
        · rw [hcs, hrest, hsplit]
          simp only [List.append_assoc, List.cons_append]
        · rw [depth?_append, hk, Option.bind_some, depth?_cons hopen hclose, depth?_append,
            depth?_of_noParens hmarks, Option.bind_some]
          exact hdepth
  · rw [operands_of_not_mem hop] at hp
    cases hp
termination_by cs.length

/-! ## Pieces of formulas -/

section Pieces

variable {numericConstants : Bool} {source : String} {cs : List Char} {f : Formula}

/-- The first piece of a conjunction, with more behind it, is what is seen of
the conjunction up to there. -/
theorem first_piece (h : Writes numericConstants .conjunction cs f) {context : List Char}
    (hcontext : context = [] ∨ context.head? = some ')' ∨ context.head? = some '|') :
    ∃ piece rest, operands '|' (cs ++ context) = piece :: rest ∧ Seen cs piece ∧ '|' ∉ piece := by
  by_cases hor : '|' ∈ cs
  · obtain ⟨piece, rest, rfl, hpiece⟩ := List.eq_append_cons_of_mem hor
    obtain ⟨e, he⟩ := h.guarded_conjunction piece rest rfl
    refine ⟨piece, operands '|' (dropOne '|' (rest ++ context)), ?_, .inside rfl he, hpiece⟩
    rw [List.append_assoc, List.cons_append, operands_append_cons hpiece]
  · rcases hcontext with rfl | hclose | hop
    · refine ⟨cs, [], ?_, .all, hor⟩
      rw [List.append_nil, operands_of_not_mem hor]
    · obtain ⟨context, rfl⟩ := List.head?_eq_some_iff.mp hclose
      by_cases hmore : '|' ∈ context
      · obtain ⟨front, rest, rfl, hfront⟩ := List.eq_append_cons_of_mem hmore
        have hpiece : '|' ∉ cs ++ ')' :: front := by simp [hor, hfront]
        refine ⟨cs ++ ')' :: front, operands '|' (dropOne '|' rest), ?_, .closed front, hpiece⟩
        rw [← List.cons_append, ← List.append_assoc, operands_append_cons hpiece]
      · have hpiece : '|' ∉ cs ++ ')' :: context := by simp [hor, hmore]
        exact ⟨_, [], operands_of_not_mem hpiece, .closed context, hpiece⟩
    · obtain ⟨context, rfl⟩ := List.head?_eq_some_iff.mp hop
      exact ⟨cs, _, operands_append_cons hor context, .all, hor⟩

theorem operands_mem_of_behind {op : Char} {front rest : List Char} (hrest : rest.head? ≠ some op)
    {piece : List Char} (h : piece ∈ operands op rest) :
    piece ∈ operands op (front ++ op :: rest) := by
  obtain ⟨others, hothers⟩ := operands_behind hrest front
  rw [hothers]
  exact List.mem_append_right _ h

/-- Every piece of the text is read. -/
def AllRead (numericConstants : Bool) (source : String) (cs : List Char) : Prop :=
  ∀ piece ∈ operands '|' cs, ∃ r, readTerm numericConstants source piece = .ok r

/-- Some piece of the text is read as a term that holds. -/
def SomeHolds (numericConstants : Bool) (source : String) (a : Assignment) (cs : List Char) :
    Prop :=
  ∃ piece ∈ operands '|' cs, ∃ r,
    readTerm numericConstants source piece = .ok r ∧ readHolds a r = true

theorem AllRead.behind {front rest : List Char} (hrest : rest.head? ≠ some '|')
    (h : AllRead numericConstants source (front ++ '|' :: rest)) :
    AllRead numericConstants source rest :=
  fun piece hp => h piece (operands_mem_of_behind hrest hp)

theorem SomeHolds.before {front rest : List Char} {a : Assignment} (hrest : rest.head? ≠ some '|')
    (h : SomeHolds numericConstants source a rest) :
    SomeHolds numericConstants source a (front ++ '|' :: rest) := by
  obtain ⟨piece, hp, r, hr, hholds⟩ := h
  exact ⟨piece, operands_mem_of_behind hrest hp, r, hr, hholds⟩

theorem head?_append_ne {level : Level} (h : Writes numericConstants level cs f)
    (context : List Char) : (cs ++ context).head? ≠ some '|' := by
  rw [List.head?_append_of_ne_nil _ h.ne_nil]
  intro hhead
  exact (h.head_ne hhead).2.1 rfl

/-- Where a conjunction holds, its first piece does, or it starts with a group
and a later part of that group holds. -/
theorem someHolds_of_conjunction {a : Assignment}
    (h : Writes numericConstants .conjunction cs f) (hf : f.holds a = true) {context : List Char}
    (hcontext : context = [] ∨ context.head? = some ')' ∨ context.head? = some '|')
    (hread : AllRead numericConstants source (cs ++ context))
    (hparts : ∀ others k back, Writes numericConstants .disjunction others k →
      k.holds a = true → others.length < cs.length →
      AllRead numericConstants source (others ++ ')' :: back) →
      SomeHolds numericConstants source a (others ++ ')' :: back)) :
    SomeHolds numericConstants source a (cs ++ context) := by
  obtain ⟨piece, rest, hops, hseen, hor⟩ := first_piece h hcontext
  have hmem : piece ∈ operands '|' (cs ++ context) := hops ▸ List.mem_cons_self
  obtain ⟨r, hr⟩ := hread piece hmem
  obtain ⟨_, _, hcases⟩ := readTerm_of_conjunction h hseen hor hr
  rcases hcases a hf with hholds | ⟨front, others, k, back, hcs, hk, hka⟩
  · exact ⟨piece, hmem, r, hr, hholds⟩
  · have hsplit : cs ++ context = front ++ '|' :: (others ++ ')' :: (back ++ context)) := by
      rw [hcs]
      simp only [List.append_assoc, List.cons_append]
    have hlength : others.length < cs.length := by
      rw [hcs]
      simp only [List.length_append, List.length_cons]
      omega
    have hhead := head?_append_ne hk (')' :: (back ++ context))
    rw [hsplit] at hread ⊢
    exact (hparts others k _ hk hka hlength (hread.behind hhead)).before hhead

/-- Where a formula holds and all its pieces are read, one of them holds. -/
theorem someHolds_of_holds {numericConstants : Bool} {source : String} {cs : List Char}
    {f : Formula} {a : Assignment} (h : Writes numericConstants .disjunction cs f)
    (hf : f.holds a = true) {context : List Char}
    (hcontext : context = [] ∨ context.head? = some ')')
    (hread : AllRead numericConstants source (cs ++ context)) :
    SomeHolds numericConstants source a (cs ++ context) := by
  have hparts : ∀ others k back, Writes numericConstants .disjunction others k →
      k.holds a = true → others.length < cs.length →
      AllRead numericConstants source (others ++ ')' :: back) →
      SomeHolds numericConstants source a (others ++ ')' :: back) :=
    fun others k back hk hka _ hothers => someHolds_of_holds hk hka (Or.inr rfl) hothers
  cases h with
  | one_conjunction h =>
    exact someHolds_of_conjunction h hf (hcontext.imp_right Or.inl) hread hparts
  | @disjunction front back sign g k h hsign hback =>
    rw [Formula.holds, Bool.or_eq_true] at hf
    rw [List.append_assoc, List.append_assoc] at hread ⊢
    rcases hf with hg | hk
    · refine someHolds_of_conjunction h hg ?_ hread ?_
      · rcases hsign with rfl | rfl <;> exact Or.inr (Or.inr rfl)
      · intro others j rest hj hja hlength
        refine hparts others j rest hj hja ?_
        rw [List.length_append]
        omega
    · obtain ⟨more, hmore⟩ := hsign.exists_front front (back ++ context)
      have hhead := head?_append_ne hback context
      have hlength : back.length < (front ++ (sign ++ back)).length := by
        have := List.length_pos_of_ne_nil h.ne_nil
        simp only [List.length_append]
        omega
      rw [hmore] at hread ⊢
      exact (someHolds_of_holds hback hk hcontext (hread.behind hhead)).before hhead
termination_by cs.length

/-- A piece of a conjunction that starts outside its groups is the first one;
where it is read as a term, that brings the conjunction. -/
theorem holds_of_first_placed {a : Assignment} (h : Writes numericConstants .conjunction cs f)
    {piece : List Char} (hp : (0, piece) ∈ placed 0 (operands '|' cs))
    {r : Option (List Literal)} (hread : readTerm numericConstants source piece = .ok r)
    (hr : readHolds a r = true) : f.holds a = true := by
  obtain ⟨first, rest, hops, hseen, hor⟩ := first_piece h (Or.inl rfl)
  rw [List.append_nil] at hops
  have hbehind : (0, piece) ∈ (placed 0 (operands '|' cs)).tail → False := by
    intro htail
    obtain ⟨front, rest', hsplit, hdepth⟩ :=
      operator_before_placed (by decide) (by decide) h.balanced htail
    obtain ⟨e, he⟩ := h.guarded_conjunction front rest' hsplit
    rw [he] at hdepth
    cases hdepth
  rw [hops] at hp hbehind
  rcases List.mem_cons.mp hp with heq | hp
  · cases heq
    exact (readTerm_of_conjunction h hseen hor hread).2.1 a hr
  · exact (hbehind hp).elim

theorem operands_disjunction {front back sign : List Char} {g k : Formula}
    (h : Writes numericConstants .conjunction front g) (hsign : IsSign '|' sign)
    (hback : Writes numericConstants .disjunction back k) :
    operands '|' (front ++ (sign ++ back)) = operands '|' front ++ operands '|' back := by
  have hlast : front.getLast? ≠ some '|' := fun hlast => (h.last_ne hlast).2 rfl
  have hhead : back.head? ≠ some '|' := fun hhead => (hback.head_ne hhead).2.1 rfl
  rcases hsign with rfl | rfl
  · rw [List.singleton_append, operands_append hlast, dropOne_of_ne hhead]
  · rw [List.cons_append, List.singleton_append, operands_append hlast, dropOne_self]

/-- A piece of a formula that starts outside its groups, where it is read as a
term, brings the formula. -/
theorem holds_of_placed {a : Assignment} (h : Writes numericConstants .disjunction cs f)
    {piece : List Char} (hp : (0, piece) ∈ placed 0 (operands '|' cs))
    {r : Option (List Literal)} (hread : readTerm numericConstants source piece = .ok r)
    (hr : readHolds a r = true) : f.holds a = true := by
  induction h using Writes.disjunction_induction with
  | one_conjunction h => exact holds_of_first_placed h hp hread hr
  | disjunction h hsign hback ih =>
    rw [operands_disjunction h hsign hback, placed_append,
      depthBehind_operands (by decide) (by decide) h.balanced] at hp
    rw [Formula.holds, Bool.or_eq_true]
    rcases List.mem_append.mp hp with hp | hp
    · exact Or.inl (holds_of_first_placed h hp hread hr)
    · exact Or.inr (ih hp)

/-- A formula says the same without the parentheses around it. -/
theorem unwrap_of_disjunction (h : Writes numericConstants .disjunction cs f) :
    Writes numericConstants .disjunction (unwrap cs) f := by
  rcases unwrap_cases cs with hu | ⟨inner, htrim, hearly, hu⟩
  · rw [hu]
    exact h.trim
  · have hgroup := h.trim
    rw [htrim] at hgroup
    obtain ⟨middle, rest, g, hsplit, hmiddle, hsame⟩ := hgroup.group_of_disjunction
    rw [hsplit] at hearly
    obtain rfl := eq_nil_of_not_closesEarly hmiddle.balanced hearly
    obtain ⟨rfl, _⟩ := List.append_inj' hsplit rfl
    rw [hu, hsame (by simp)]
    exact hmiddle.trim

/-- The terms that are read: every piece is, and a term holds where a piece
does. -/
theorem readTerms_spec {pieces : List (List Char)} {ts : List Term}
    (h : readTerms numericConstants source pieces = .ok ts) :
    (∀ piece ∈ pieces, ∃ r, readTerm numericConstants source piece = .ok r) ∧
      ∀ a, (ts.any fun t => t.holds a) = true ↔ ∃ piece ∈ pieces, ∃ r,
        readTerm numericConstants source piece = .ok r ∧ readHolds a r = true := by
  induction pieces generalizing ts with
  | nil =>
    cases h
    simp
  | cons piece pieces ih =>
    unfold readTerms at h
    cases hpiece : readTerm numericConstants source piece with
    | error e =>
      rw [hpiece] at h
      cases h
    | ok r =>
      rw [hpiece] at h
      cases r with
      | none =>
        obtain ⟨hread, hholds⟩ := ih h
        refine ⟨List.forall_mem_cons.mpr ⟨⟨_, hpiece⟩, hread⟩, ?_⟩
        intro a
        rw [hholds a]
        simp [hpiece, readHolds]
      | some ls =>
        cases hmore : readTerms numericConstants source pieces with
        | error e =>
          rw [hmore] at h
          cases h
        | ok others =>
          rw [hmore] at h
          cases h
          obtain ⟨hread, hholds⟩ := ih hmore
          refine ⟨List.forall_mem_cons.mpr ⟨⟨_, hpiece⟩, hread⟩, ?_⟩
          intro a
          rw [List.any_cons, Bool.or_eq_true, hholds a, Term.holds_ofList]
          simp [hpiece, readHolds]

end Pieces

/-! ## Stray terms -/

/-- The term that a piece is read as. -/
def pieceTerm? (numericConstants : Bool) (source : String) (piece : List Char) : Option Term :=
  match readTerm numericConstants source piece with
  | .ok (some ls) => some (Term.ofList ls)
  | _ => none

/-- The terms that are read from inside a group of the text, behind an operator
at which the group was cut. -/
def strayTerms (numericConstants : Bool) (text : String) : List Term :=
  let source := trim text.toList
  let inside := (placed 0 (operands '|' (unwrap source))).filter fun p => 0 < p.1
  inside.filterMap fun p => pieceTerm? numericConstants (String.ofList source) p.2

theorem exists_pieceTerm?_iff {numericConstants : Bool} {source : String} {piece : List Char}
    {a : Assignment} :
    (∃ t, pieceTerm? numericConstants source piece = some t ∧ t.holds a = true) ↔
      ∃ r, readTerm numericConstants source piece = .ok r ∧ readHolds a r = true := by
  unfold pieceTerm?
  split
  · rename_i ls hread
    simp [hread, readHolds, Term.holds_ofList]
  · rename_i hnone
    constructor
    · rintro ⟨t, ht, _⟩
      cases ht
    · rintro ⟨r, hr, hholds⟩
      cases r with
      | none => cases hholds
      | some ls => exact absurd hr (hnone ls)

theorem any_holds_strayTerms {numericConstants : Bool} {text : String} {a : Assignment} :
    ((strayTerms numericConstants text).any fun t => t.holds a) = true ↔
      ∃ p ∈ placed 0 (operands '|' (unwrap (trim text.toList))), 0 < p.1 ∧ ∃ r,
        readTerm numericConstants (String.ofList (trim text.toList)) p.2 = .ok r ∧
        readHolds a r = true := by
  unfold strayTerms
  simp only [List.any_eq_true, List.mem_filterMap, List.mem_filter, decide_eq_true_eq,
    ← exists_pieceTerm?_iff]
  constructor
  · rintro ⟨t, ⟨p, ⟨hp, hpos⟩, ht⟩, hholds⟩
    exact ⟨p, hp, hpos, t, ht, hholds⟩
  · rintro ⟨p, hp, hpos, t, ht, hholds⟩
    exact ⟨t, ⟨p, ⟨hp, hpos⟩, ht⟩, hholds⟩

/-! ## Parsing -/

section Parsing

variable {numericConstants : Bool} {text : String} {f : Formula} {d : Dialect} {c : Condition}

/-- A text of a formula that is parsed: its terms are those of its pieces. -/
theorem readTerms_of_parse (h : Writes numericConstants .disjunction text.toList f)
    (hparse : parse d numericConstants text = .ok c) :
    ∃ ts, readTerms numericConstants (String.ofList (trim text.toList))
      (operands '|' (unwrap (trim text.toList))) = .ok ts ∧ c = ofTerms d ts := by
  unfold parse at hparse
  cases hterms : parseTerms numericConstants text with
  | error e =>
    rw [hterms] at hparse
    cases hparse
  | ok ts =>
    rw [hterms] at hparse
    cases hparse
    unfold parseTerms at hterms
    simp only [if_neg h.trim.ne_nil] at hterms
    exact ⟨ts, hterms, rfl⟩

/-- A formula that is parsed means itself, or one of the stray terms. -/
theorem holds_of_parse (h : Writes numericConstants .disjunction text.toList f)
    (hparse : parse d numericConstants text = .ok c) (a : Assignment) :
    c.holds a = (f.holds a || (strayTerms numericConstants text).any fun t => t.holds a) := by
  obtain ⟨ts, hterms, rfl⟩ := readTerms_of_parse h hparse
  have hinside := unwrap_of_disjunction h.trim
  obtain ⟨hread, hholds⟩ := readTerms_spec hterms
  rw [holds_ofTerms, Bool.eq_iff_iff, hholds a, Bool.or_eq_true, any_holds_strayTerms]
  constructor
  · rintro ⟨piece, hpiece, r, hr, hra⟩
    rw [← map_snd_placed 0 (operands _ _)] at hpiece
    obtain ⟨⟨depth, piece⟩, hp, rfl⟩ := List.mem_map.mp hpiece
    cases depth with
    | zero => exact Or.inl (holds_of_placed hinside hp hr hra)
    | succ depth => exact Or.inr ⟨_, hp, Nat.succ_pos depth, r, hr, hra⟩
  · rintro (hf | ⟨p, hp, _, r, hr, hra⟩)
    · have hall : AllRead numericConstants (String.ofList (trim text.toList))
          (unwrap (trim text.toList) ++ []) := by
        rw [List.append_nil]
        exact hread
      have hsome := someHolds_of_holds hinside hf (Or.inl rfl) hall
      rwa [List.append_nil] at hsome
    · refine ⟨p.2, ?_, r, hr, hra⟩
      rw [← map_snd_placed 0 (operands _ _)]
      exact List.mem_map.mpr ⟨p, hp, rfl⟩

/-- A formula that is parsed means itself or one of the stray terms, so it keeps
its meaning exactly if it follows from each of them. -/
theorem a_parsed_formula_keeps_its_meaning_unless_a_stray_term_adds_to_it
    (h : Writes numericConstants .disjunction text.toList f) (d : Dialect) :
    (∀ c, parse d numericConstants text = .ok c → c.dialect = d ∧ ∀ a,
        c.holds a = (f.holds a || (strayTerms numericConstants text).any fun t => t.holds a)) ∧
      ((∀ c, parse d numericConstants text = .ok c → ∀ a, c.holds a = f.holds a) ↔
        ∀ c, parse d numericConstants text = .ok c →
          ∀ t ∈ strayTerms numericConstants text, ∀ a, t.holds a = true → f.holds a = true) := by
  refine ⟨?_, ?_, ?_⟩
  · intro c hparse
    obtain ⟨ts, _, rfl⟩ := readTerms_of_parse h hparse
    exact ⟨rfl, fun a => holds_of_parse h hparse a⟩
  · intro hsame c hparse t ht a hholds
    rw [← hsame c hparse a, holds_of_parse h hparse a, Bool.or_eq_true]
    exact Or.inr (List.any_eq_true.mpr ⟨t, ht, hholds⟩)
  · intro hadds c hparse a
    rw [holds_of_parse h hparse a]
    cases hf : f.holds a with
    | true => rfl
    | false =>
      rw [Bool.false_or, List.any_eq_false]
      intro t ht hholds
      have := hadds c hparse t ht a hholds
      rw [hf] at this
      cases this

end Parsing

/-- A formula whose group is cut at both of its operators: its first and its
last piece are false for their constants, so that the unpaired parentheses in
them are not noticed. -/
def cutText : String := "0 & (A | B | 0 & C)"

def cutFormula : Formula :=
  .conjunction (.constant false)
    (.disjunction (.feature "A")
      (.disjunction (.feature "B") (.conjunction (.constant false) (.feature "C"))))

theorem writes_cutText : Writes true .disjunction cutText.toList cutFormula := by
  have hzero : Writes true .factor ['0'] (.constant false) :=
    @Writes.constant true "0" false (by decide)
  have hname : ∀ c : Char, isNameChar c = true →
      (∀ value, (String.ofList [c], value) ∉ constantWords true) →
      Writes true .factor [c] (.feature (String.ofList [c])) := by
    intro c hc hconstant
    exact .feature (.bare ⟨by simp, by simpa using hc⟩ hconstant)
  have hA := Writes.behind (c := ' ') rfl (hname 'A' (by decide) (by decide))
  have hB := Writes.before (c := ' ') rfl
    (.behind (c := ' ') rfl (hname 'B' (by decide) (by decide)))
  have hC := Writes.before (c := ' ') rfl (hname 'C' (by decide) (by decide))
  have hlast := Writes.conjunction (.before (c := ' ') rfl (.behind (c := ' ') rfl hzero))
    (Or.inl rfl) (.one_factor hC)
  have hgroup := Writes.disjunction (.one_factor hA) (Or.inl rfl)
    (.disjunction (.one_factor hB) (Or.inl rfl) (.one_conjunction hlast))
  exact .one_conjunction (.conjunction (.behind (c := ' ') rfl hzero) (Or.inl rfl)
    (.one_factor (.before (c := ' ') rfl (.parens hgroup))))

theorem parse_cutText :
    (parse .plain true cutText).toOption =
      some (ofTerms .plain [Term.ofList [⟨"B", false, by decide⟩]]) := by
  decide +kernel

/-- The parser gives a formula another meaning: of the cut group it keeps `B`,
though the formula is false. -/
theorem a_stray_term_changes_the_meaning :
    ¬ ∀ (numericConstants : Bool) (text : String) (f : Formula) (d : Dialect),
      Writes numericConstants .disjunction text.toList f →
      (∃ e, parse d numericConstants text = .error e) ∨
        ∃ c, parse d numericConstants text = .ok c ∧ ∀ a, c.holds a = f.holds a := by
  intro hall
  have hparsed := parse_cutText
  rcases hall true cutText cutFormula .plain writes_cutText with ⟨e, he⟩ | ⟨c, hc, hsame⟩
  · rw [he] at hparsed
    cases hparsed
  · rw [hc] at hparsed
    obtain rfl := Option.some.inj hparsed
    have := hsame fun _ => true
    revert this
    decide +kernel

/-- Of a formula that is cut the stray term is all that is added. -/
theorem a_cut_formula_means_itself_or_its_stray_term :
    Writes true .disjunction cutText.toList cutFormula ∧
      (∀ c, parse .plain true cutText = .ok c → c.dialect = .plain ∧ ∀ a,
        c.holds a = (cutFormula.holds a || (strayTerms true cutText).any fun t => t.holds a)) ∧
      ((∀ c, parse .plain true cutText = .ok c → ∀ a, c.holds a = cutFormula.holds a) ↔
        ∀ c, parse .plain true cutText = .ok c →
          ∀ t ∈ strayTerms true cutText, ∀ a, t.holds a = true → cutFormula.holds a = true) :=
  ⟨writes_cutText,
    a_parsed_formula_keeps_its_meaning_unless_a_stray_term_adds_to_it writes_cutText .plain⟩

end Variability.Condition
