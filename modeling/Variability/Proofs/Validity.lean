-- Valid formulas: what a formula is checked for, and the one way in which a
-- text that has been read to its end can still fail the check.
import Variability.Proofs.Entries
import Variability.Proofs.Files
import Variability.Proofs.FormulaLines
import Variability.Raw.Record

namespace Variability.Cnf

open Text

/-! ## Valid parts -/

/-- What the parts of a formula have to obey. -/
structure Valid (count : Int) (clauses : List Clause) (vars : List Int) : Prop where
  count_nonneg : 0 ≤ count
  clause_ne_nil : ∀ c ∈ clauses, c ≠ []
  literal_ne_zero : ∀ c ∈ clauses, ∀ l ∈ c, l ≠ 0
  literal_le : ∀ c ∈ clauses, ∀ l ∈ c, (l.natAbs : Int) ≤ count
  named : ∀ v ∈ vars, 1 ≤ v ∧ v ≤ count

section Parts

variable {count : Int} {clauses : List Clause} {names : Table Int String}

theorem valid_natCast_iff {n : Nat} {vars : List Int} :
    Valid n clauses vars ↔ ClausesWithin n clauses ∧ VariablesWithin n vars := by
  constructor
  · intro h
    refine ⟨fun c hc => ⟨h.clause_ne_nil c hc, fun l hl => ?_⟩, fun v hv => ?_⟩
    · exact ⟨h.literal_ne_zero c hc l hl, by have := h.literal_le c hc l hl; omega⟩
    · have := h.named v hv
      omega
  · rintro ⟨hclauses, hvars⟩
    refine ⟨by omega, fun c hc => (hclauses c hc).1, fun c hc l hl => ((hclauses c hc).2 l hl).1,
      fun c hc l hl => ?_, fun v hv => ?_⟩
    · have := ((hclauses c hc).2 l hl).2
      omega
    · have := hvars v hv
      omega

/-- The formulas that there are obey it. -/
theorem Document.valid (d : Document) : Valid d.varCount d.clauses d.names.keys :=
  valid_natCast_iff.mpr ⟨d.clauses_within, d.names_within⟩

theorem violations_eq_nil_iff :
    Document.violations count clauses names = [] ↔ Valid count clauses names.keys := by
  unfold Document.violations
  by_cases hneg : count < 0
  · rw [if_pos hneg]
    constructor
    · nofun
    · intro h
      have := h.count_nonneg
      omega
  · obtain ⟨n, rfl⟩ := Int.eq_ofNat_of_zero_le (Int.not_lt.mp hneg)
    rw [if_neg hneg, valid_natCast_iff, ← clausesViolation?_eq_none_iff,
      ← namesViolation?_eq_none_iff]
    simp

theorem ofParts_of_valid (h : Valid count clauses names.keys) :
    ∃ d, Document.ofParts count clauses names = .ok d ∧
      (d.varCount : Int) = count ∧ d.clauses = clauses ∧ d.names = names := by
  unfold Document.ofParts
  rw [dif_pos (violations_eq_nil_iff.mpr h)]
  exact ⟨_, rfl, Int.toNat_of_nonneg h.count_nonneg, rfl, rfl⟩

theorem ofParts_of_not_valid (h : ¬ Valid count clauses names.keys) :
    Document.ofParts count clauses names =
      .error (Document.violations count clauses names) := by
  unfold Document.ofParts
  rw [dif_neg (mt violations_eq_nil_iff.mp h)]

theorem Document.eq_of_parts {d e : Document} (hcount : (d.varCount : Int) = e.varCount)
    (hclauses : d.clauses = e.clauses) (hnames : d.names = e.names) : d = e := by
  obtain ⟨n, _, _, _, _⟩ := d
  obtain ⟨m, _, _, _, _⟩ := e
  obtain rfl : n = m := Int.ofNat.inj hcount
  cases hclauses
  cases hnames
  rfl

theorem ofParts_eq_ok_iff {d : Document} :
    Document.ofParts count clauses names = .ok d ↔
      (d.varCount : Int) = count ∧ d.clauses = clauses ∧ d.names = names := by
  constructor
  · intro h
    by_cases hvalid : Valid count clauses names.keys
    · obtain ⟨found, hfound, hparts⟩ := ofParts_of_valid hvalid
      rw [hfound] at h
      cases h
      exact hparts
    · rw [ofParts_of_not_valid hvalid] at h
      cases h
  · rintro ⟨rfl, rfl, rfl⟩
    obtain ⟨found, hfound, hcount, hclauses, hnames⟩ := ofParts_of_valid d.valid
    rw [hfound, Document.eq_of_parts hcount hclauses hnames]

end Parts

/-! ## Formulas from fields -/

/-- The fields can be taken for a whole number, lists of whole numbers, and
texts by whole numbers. Names may be missing. -/
structure Coerces (fields : List (Value × Value)) (count : Int) (clauses : List Clause)
    (names : Table Int String) : Prop where
  count : Value.required fields "num_vars" Value.readInt = .ok count
  clauses : Value.required fields "clauses" (Value.readList (Value.readList Value.readInt)) =
    .ok clauses
  names : Value.optional fields "names" Table.empty
    (Value.readTable Value.readInt Value.readString) = .ok names

theorem ok_of_obeying {α : Type} {c : Checked α} {violation? : α → Option Violation} {a : α}
    (h : c.obeying violation? = .ok a) : c = .ok a := by
  unfold Checked.obeying at h
  split at h
  · cases h
  · split at h
    · cases h
    · exact h

section Fields

variable {fields : List (Value × Value)} {count : Int} {clauses : List Clause}
  {names : Table Int String} {d : Document}

theorem coerces_of_ofFields (h : Document.ofFields fields = .ok d) :
    Coerces fields d.varCount d.clauses d.names := by
  unfold Document.ofFields at h
  simp only at h
  split at h
  · rename_i n cs ns hcount hclauses hnames
    cases hparts : Document.ofParts n cs ns with
    | error violations => simp [hparts, Except.mapError] at h
    | ok found =>
      rw [hparts] at h
      cases h
      obtain ⟨rfl, rfl, rfl⟩ := ofParts_eq_ok_iff.mp hparts
      exact ⟨ok_of_obeying hcount, ok_of_obeying hclauses, ok_of_obeying hnames⟩
  · cases h

/-- A valid count is the bound of every later check. -/
theorem ofFields_of_valid (hcoerces : Coerces fields count clauses names)
    (hvalid : Valid count clauses names.keys) : ∃ d, Document.ofFields fields = .ok d := by
  have hneg := Int.not_lt.mpr hvalid.count_nonneg
  have hboth := violations_eq_nil_iff.mpr hvalid
  unfold Document.violations at hboth
  rw [if_neg hneg, List.append_eq_nil_iff, Option.toList_eq_nil_iff,
    Option.toList_eq_nil_iff] at hboth
  obtain ⟨d, hparts, _⟩ := ofParts_of_valid hvalid
  refine ⟨d, ?_⟩
  unfold Document.ofFields
  simp only [hcoerces.count, hcoerces.clauses, hcoerces.names, Checked.obeying, if_neg hneg,
    Except.toOption, hboth.1, hboth.2, hparts]
  rfl

theorem exists_ofFields_iff : (∃ d, Document.ofFields fields = .ok d) ↔
    ∃ count clauses names, Coerces fields count clauses names ∧
      Valid count clauses names.keys :=
  ⟨fun ⟨d, h⟩ => ⟨_, _, _, coerces_of_ofFields h, d.valid⟩,
    fun ⟨_, _, _, hcoerces, hvalid⟩ => ofFields_of_valid hcoerces hvalid⟩

end Fields

/-! ## Clauses as they are gathered -/

/-- Clauses without empty ones and without zeros in them. -/
def ProperClauses (clauses : List Clause) : Prop := ∀ c ∈ clauses, c ≠ [] ∧ ∀ l ∈ c, l ≠ 0

/-- The closed clauses are proper, and there is no zero in the open one. -/
structure Gathered (g : List Clause × List Int) : Prop where
  closed : ProperClauses g.1
  current : ∀ l ∈ g.2, l ≠ 0

theorem Gathered.addLiteral? {g next : List Clause × List Int} {l : Int} (h : Gathered g)
    (hnext : addLiteral? g l = some next) : Gathered next := by
  unfold Cnf.addLiteral? at hnext
  split at hnext
  · split at hnext
    · cases hnext
    · rename_i hopen
      cases hnext
      refine ⟨?_, nofun⟩
      rintro c (_ | ⟨_, hc⟩)
      · exact ⟨by simpa using hopen, fun l hl => h.current l (List.mem_reverse.mp hl)⟩
      · exact h.closed c hc
  · rename_i hl
    cases hnext
    refine ⟨h.closed, ?_⟩
    rintro k (_ | ⟨_, hk⟩)
    · exact hl
    · exact h.current k hk

theorem Gathered.foldlM {g last : List Clause × List Int} {ls : List Int} (h : Gathered g)
    (hlast : ls.foldlM Cnf.addLiteral? g = some last) : Gathered last := by
  induction ls generalizing g with
  | nil =>
    cases hlast
    exact h
  | cons l ls ih =>
    rw [List.foldlM_cons] at hlast
    obtain ⟨next, hnext, hlast⟩ := Option.bind_eq_some_iff.mp hlast
    exact ih (h.addLiteral? hnext) hlast

/-! ## Formulas from texts -/

section Texts

variable {number : Nat} {p q : Progress} {line text : List Char} {ls : List (List Char)}

/-- What has been read of the lines, with no clause empty and no name without
its comment. -/
structure ReadFrom (ls : List (List Char)) (p : Progress) : Prop where
  gathered : Gathered (p.clauses, p.current)
  mem_keys_iff : ∀ v, v ∈ p.names.keys ↔
    ∃ line ∈ ls, ∃ id name, NamesVariable line id name ∧ v = id

theorem readFrom_of_readLines (h : readLines number .start ls = .ok p) : ReadFrom ls p := by
  obtain ⟨sayings, hsayings, hafter⟩ := readLines_eq_ok_iff.mp h
  rw [foldlM_after?] at hafter
  obtain ⟨g, hg, rfl⟩ := Option.map_eq_some_iff.mp hafter
  have hstart : Gathered (Progress.start.clauses, Progress.start.current) := by
    constructor <;> simp [Progress.start, ProperClauses]
  refine ⟨hstart.foldlM hg, fun v => ?_⟩
  have hnames : v ∈ (Table.ofList (sayings.flatMap Saying.names)).keys ↔
      ∃ name, (v, name) ∈ sayings.flatMap Saying.names := by
    rw [Table.mem_keys_ofList]
    simp
  rw [Table.ofList_eq_foldl] at hnames
  refine hnames.trans ?_
  simp only [mem_names_iff hsayings]
  constructor
  · rintro ⟨_, line, hline, id, chars, hnamed, rfl, rfl⟩
    exact ⟨line, hline, id, chars, hnamed, rfl⟩
  · rintro ⟨line, hline, id, chars, hnamed, rfl⟩
    exact ⟨_, line, hline, id, chars, hnamed, rfl, rfl⟩

theorem largestVariable_le_iff {literals : List Int} {n : Int} :
    largestVariable literals ≤ n ↔ 0 ≤ n ∧ ∀ l ∈ literals, (l.natAbs : Int) ≤ n := by
  have general : ∀ (literals : List Int) (start : Nat),
      ((literals.foldl (fun n l => max n l.natAbs) start : Nat) : Int) ≤ n ↔
        (start : Int) ≤ n ∧ ∀ l ∈ literals, (l.natAbs : Int) ≤ n := by
    intro literals
    induction literals with
    | nil => simp
    | cons l literals ih =>
      intro start
      rw [List.foldl_cons, ih, List.forall_mem_cons, Nat.cast_max, max_le_iff, and_assoc]
  exact general literals 0

/-- The number of variables is the least one that is large enough. -/
theorem variableCount_le_iff {header n : Int} {clauses : List Clause} {names : Table Int String} :
    variableCount header clauses names ≤ n ↔ header ≤ n ∧ 0 ≤ n ∧
      (∀ c ∈ clauses, ∀ l ∈ c, (l.natAbs : Int) ≤ n) ∧
      ∀ v ∈ names.keys, (v.natAbs : Int) ≤ n := by
  unfold variableCount
  rw [max_le_iff, max_le_iff, largestVariable_le_iff, largestVariable_le_iff]
  simp only [List.mem_flatten, forall_exists_index, and_imp]
  constructor
  · rintro ⟨hheader, ⟨hn, hclauses⟩, _, hnames⟩
    exact ⟨hheader, hn, fun c hc l hl => hclauses l c hc hl, hnames⟩
  · rintro ⟨hheader, hn, hclauses, hnames⟩
    exact ⟨hheader, ⟨hn, fun l c hc hl => hclauses c hc l hl⟩, hn, hnames⟩

/-- The number of variables is large enough for everything that was read, so
that only a variable with the number 0 can be wrong. -/
theorem ReadFrom.valid_iff (h : ReadFrom ls p) :
    Valid (variableCount p.header p.clauses.reverse p.names) p.clauses.reverse p.names.keys ↔
      ∀ line ∈ ls, ∀ name, ¬ NamesVariable line 0 name := by
  obtain ⟨_, hcount, hliterals, hvars⟩ := variableCount_le_iff.mp
    (le_refl (variableCount p.header p.clauses.reverse p.names))
  constructor
  · intro hvalid line hline name hname
    have := hvalid.named 0 ((h.mem_keys_iff 0).mpr ⟨line, hline, 0, name, hname, rfl⟩)
    omega
  · intro hnone
    have hclosed : ProperClauses p.clauses.reverse :=
      fun c hc => h.gathered.closed c (List.mem_reverse.mp hc)
    refine ⟨hcount, fun c hc => (hclosed c hc).1, fun c hc => (hclosed c hc).2, hliterals, ?_⟩
    intro v hv
    obtain ⟨line, hline, id, name, hname, rfl⟩ := (h.mem_keys_iff v).mp hv
    have hid : id ≠ 0 := by
      rintro rfl
      exact hnone line hline name hname
    have := hvars id hv
    omega

theorem readDimacs_of_readLines (h : readLines 1 .start (lines text) = .ok p)
    (hopen : p.current = []) :
    readDimacs text =
      (Document.ofParts (variableCount p.header p.clauses.reverse p.names) p.clauses.reverse
        p.names).mapError .structural := by
  unfold readDimacs
  simp [h, hopen]

/-- No line is refused as an invalid formula. -/
theorem readLine_ne_structural {violations : List Violation} :
    readLine number p line ≠ .error (.structural violations) := by
  intro h
  unfold readLine at h
  split at h
  · cases h
  · cases h
  · obtain ⟨_, he⟩ := readComment_error h
    cases he
  · cases readHeader_error h
  · rcases readTokens_error h with ⟨_, he⟩ | he <;> cases he

theorem readLines_ne_structural {violations : List Violation} :
    readLines number p ls ≠ .error (.structural violations) := by
  induction ls generalizing number p with
  | nil => nofun
  | cons line ls ih =>
    unfold readLines
    cases hline : readLine number p (trim line) with
    | error e =>
      rintro ⟨⟩
      exact readLine_ne_structural hline
    | ok next => exact ih

/-- Reading has come to the end of the text, and no clause is open. -/
def ReadsAll (text : List Char) : Prop :=
  ∃ p, readLines 1 .start (lines text) = .ok p ∧ p.current = []

theorem readsAll_of_structural {violations : List Violation}
    (h : readDimacs text = .error (.structural violations)) : ReadsAll text := by
  unfold readDimacs at h
  cases hread : readLines 1 .start (lines text) with
  | error e =>
    simp only [hread] at h
    cases h
    exact absurd hread readLines_ne_structural
  | ok p =>
    by_cases hopen : p.current = []
    · exact ⟨p, hread, hopen⟩
    · simp [hread, hopen] at h

/-- What has been read to its end is a formula unless it names the variable
0. -/
theorem ReadsAll.exists_structural_iff (h : ReadsAll text) :
    (∃ violations, readDimacs text = .error (.structural violations)) ↔
      ∃ line ∈ lines text, ∃ name, NamesVariable line 0 name := by
  obtain ⟨p, hread, hopen⟩ := h
  have hvalid := (readFrom_of_readLines hread).valid_iff
  rw [readDimacs_of_readLines hread hopen]
  by_cases hnames : ∃ line ∈ lines text, ∃ name, NamesVariable line 0 name
  · have hinvalid := mt hvalid.mp (by push Not; exact hnames)
    rw [ofParts_of_not_valid hinvalid]
    exact iff_of_true ⟨_, rfl⟩ hnames
  · obtain ⟨d, hd, _⟩ := ofParts_of_valid (hvalid.mpr (by push Not at hnames; exact hnames))
    rw [hd]
    refine iff_of_false ?_ hnames
    rintro ⟨_, ⟨⟩⟩

end Texts

/-! ## Checking -/

/-- Fields are accepted exactly if they can be taken for the parts of a formula
and the parts are valid; what is accepted has these parts. A formula that is
read from a text is valid, and a text that has been read to its end is refused
exactly if one of its comments gives a name to the variable 0. -/
theorem exactly_valid_formulas_are_accepted :
    (∀ fields, ((∃ d, Document.ofFields fields = .ok d) ↔
        ∃ count clauses names, Coerces fields count clauses names ∧
          Valid count clauses names.keys) ∧
      ∀ d, Document.ofFields fields = .ok d → Coerces fields d.varCount d.clauses d.names) ∧
    (∀ text d, readDimacs text = .ok d → Valid d.varCount d.clauses d.names.keys) ∧
    ∀ text, (∃ violations, readDimacs text = .error (.structural violations)) ↔
      ReadsAll text ∧ ∃ line ∈ lines text, ∃ name, NamesVariable line 0 name := by
  refine ⟨fun fields => ⟨exists_ofFields_iff, fun d h => coerces_of_ofFields h⟩,
    fun _ d _ => d.valid, fun text => ⟨?_, ?_⟩⟩
  · rintro ⟨violations, h⟩
    have hreads := readsAll_of_structural h
    exact ⟨hreads, hreads.exists_structural_iff.mp ⟨violations, h⟩⟩
  · rintro ⟨hreads, hnames⟩
    exact hreads.exists_structural_iff.mpr hnames

/-- A text with a name for the variable 0 is read to its end and refused. One
with a name for the variable 2 is accepted, and fields with that name too. -/
theorem a_name_for_the_variable_zero_is_refused :
    (∃ violations, readDimacs "c 0 A".toList = .error (.structural violations)) ∧
    (∃ d, readDimacs "c 2 A\n1 0".toList = .ok d ∧ Valid d.varCount d.clauses d.names.keys) ∧
    ∃ d, Document.ofFields [(.string "num_vars", .int 2),
        (.string "clauses", .list [.list [.int 1]]),
        (.string "names", .map [(.int 2, .string "A")])] = .ok d ∧
      d.varCount = 2 ∧ d.clauses = [[1]] := by
  obtain ⟨hfields, htexts, hrefused⟩ := exactly_valid_formulas_are_accepted
  refine ⟨(hrefused _).mpr ⟨?_, ?_⟩, ?_, ?_⟩
  · have hclosed : (readLines 1 .start (lines "c 0 A".toList)).map (·.current) = .ok [] := by
      decide +kernel
    exact exists_of_map_eq_ok hclosed
  · have hform : NameForm "c 0 A".toList ['0'] ['A'] :=
      nameForm_of_namedVariable? (by decide +kernel)
    have hline : lines "c 0 A".toList = ["c 0 A".toList] := by decide +kernel
    have hzero : readNatural ['0'] = .ok 0 := by decide +kernel
    rw [hline]
    exact ⟨_, List.mem_singleton_self _, ['A'], ['0'], hform, readNatural_eq_ok_iff.mp hzero⟩
  · have hok : (readDimacs "c 2 A\n1 0".toList).isOk = true := by decide +kernel
    obtain ⟨d, hread⟩ := exists_of_isOk hok
    exact ⟨d, hread, htexts _ d hread⟩
  · have hcoerces : Coerces [(.string "num_vars", .int 2),
        (.string "clauses", .list [.list [.int 1]]),
        (.string "names", .map [(.int 2, .string "A")])] 2 [[1]]
        (Table.ofList [(2, "A")]) := ⟨rfl, rfl, rfl⟩
    have hvalid : Valid 2 [[1]] (Table.ofList [((2 : Int), "A")]).keys := by
      constructor <;> decide
    obtain ⟨d, hd⟩ := (hfields _).1.mpr ⟨_, _, _, hcoerces, hvalid⟩
    have hparts := (hfields _).2 d hd
    have hcount := hcoerces.count.symm.trans hparts.count
    have hclauses := hcoerces.clauses.symm.trans hparts.clauses
    exact ⟨d, hd, Int.ofNat.inj (Except.ok.inj hcount).symm, (Except.ok.inj hclauses).symm⟩

end Variability.Cnf
