-- The layout of a formula in a text: how the literals are broken over lines,
-- and what stands between these lines, does not change what is read.
import Variability.Proofs.Numbers
import Variability.Proofs.Validity

namespace Variability.Cnf

open Text

/-! ## Layouts -/

/-- The literals of clauses one after the other, with a zero behind each
clause. -/
def closedLiterals (clauses : List Clause) : List Int := clauses.flatMap (· ++ [0])

/-- The text has the clauses, the names and the counts of the headers, each in
this order. How the three lie to each other is left open, and so is where lines
end and which other lines stand between. -/
inductive LaysOut (text : List Char) (clauses : List Clause) (names : List (Int × String))
    (counts : List Int) : Prop
  | intro {ls : List (List Char)} {sayings : List Saying} (hlines : WritesLines text ls)
      (hsaid : List.Forall₂ Says ls sayings)
      (htokens : sayings.flatMap Saying.tokens = closedLiterals clauses)
      (hnames : sayings.flatMap Saying.names = names)
      (hcounts : sayings.flatMap Saying.counts = counts)

/-- A number of variables that something in a formula asks for. Of several
headers the last one counts. -/
inductive Asks (clauses : List Clause) (names : List (Int × String)) (counts : List Int) :
    Int → Prop
  | zero : Asks clauses names counts 0
  | header {n : Int} (h : counts.getLast? = some n) : Asks clauses names counts n
  | literal {c : Clause} {l : Int} (hc : c ∈ clauses) (hl : l ∈ c) :
      Asks clauses names counts l.natAbs
  | name {p : Int × String} (hp : p ∈ names) : Asks clauses names counts p.1

/-! ## Reading a layout -/

section Reading

variable {done clauses : List Clause} {names : List (Int × String)} {counts : List Int}
  {text : List Char}

theorem foldlM_addLiteral?_open {c : Clause} (hc : ∀ l ∈ c, l ≠ 0) (current : List Int) :
    c.foldlM addLiteral? (done, current) = some (done, c.reverse ++ current) := by
  induction c generalizing current with
  | nil => rfl
  | cons l c ih =>
    obtain ⟨hl, hc⟩ := List.forall_mem_cons.mp hc
    have hstep : addLiteral? (done, current) l = some (done, l :: current) := if_neg hl
    rw [List.foldlM_cons, hstep]
    refine (ih hc (l :: current)).trans ?_
    rw [List.reverse_cons, List.append_assoc]
    rfl

/-- Proper clauses are gathered as they are. -/
theorem foldlM_closedLiterals (h : ProperClauses clauses) :
    (closedLiterals clauses).foldlM addLiteral? (done, []) =
      some (clauses.reverse ++ done, []) := by
  induction clauses generalizing done with
  | nil => rfl
  | cons c clauses ih =>
    obtain ⟨⟨hne, hc⟩, hclauses⟩ := List.forall_mem_cons.mp h
    have hclosed : (c ++ [0]).foldlM addLiteral? (done, []) = some (c :: done, []) := by
      rw [List.foldlM_append, foldlM_addLiteral?_open hc]
      simp [addLiteral?, hne]
    rw [closedLiterals, List.flatMap_cons, List.foldlM_append, hclosed]
    refine (ih hclauses).trans ?_
    rw [List.reverse_cons, List.append_assoc]
    rfl

theorem LaysOut.readLines_eq (h : LaysOut text clauses names counts)
    (hclauses : ProperClauses clauses) :
    readLines 1 .start (lines text) =
      .ok ⟨counts.getLastD 0, Table.ofList names, clauses.reverse, []⟩ := by
  obtain ⟨hlines, hsaid, htokens, hnames, hcounts⟩ := h
  rw [hlines.lines_eq, readLines_eq_ok_iff]
  refine ⟨_, hsaid, ?_⟩
  have hgathered : (closedLiterals clauses).foldlM addLiteral?
      (Progress.start.clauses, Progress.start.current) = some (clauses.reverse ++ [], []) :=
    foldlM_closedLiterals hclauses
  rw [foldlM_after?, htokens, hnames, hcounts, hgathered, Table.ofList_eq_foldl, List.append_nil]
  rfl

/-- The number of variables is the largest one that is asked for. -/
theorem isGreatest_variableCount (hnames : ∀ p ∈ names, 1 ≤ p.1) :
    IsGreatest {n | Asks clauses names counts n}
      (variableCount (counts.getLastD 0) clauses (Table.ofList names)) := by
  have hkeys : ∀ v ∈ (Table.ofList names).keys, ∃ p ∈ names, p.1 = v ∧ (v.natAbs : Int) = v := by
    intro v hv
    obtain ⟨p, hp, rfl⟩ := List.mem_map.mp (Table.mem_keys_ofList.mp hv)
    have := hnames p hp
    exact ⟨p, hp, rfl, by omega⟩
  have hle : ∀ m, variableCount (counts.getLastD 0) clauses (Table.ofList names) ≤ m ↔
      ∀ n, Asks clauses names counts n → n ≤ m := by
    intro m
    rw [variableCount_le_iff]
    constructor
    · rintro ⟨hheader, hzero, hliterals, hvars⟩ n hn
      cases hn with
      | zero => exact hzero
      | header h => simpa [List.getLastD_eq_getLast?, h] using hheader
      | literal hc hl => exact hliterals _ hc _ hl
      | @name p hp =>
        have := hvars p.1 (Table.mem_keys_ofList.mpr (List.mem_map_of_mem hp))
        omega
    · intro h
      refine ⟨?_, h 0 .zero, fun c hc l hl => h _ (.literal hc hl), fun v hv => ?_⟩
      · rw [List.getLastD_eq_getLast?]
        cases hlast : counts.getLast? with
        | none => exact h 0 .zero
        | some n => exact h n (.header hlast)
      · obtain ⟨p, hp, rfl, hv⟩ := hkeys v hv
        rw [hv]
        exact h p.1 (.name hp)
  refine ⟨?_, (hle _).mp (le_refl _)⟩
  -- If nothing asked for this number, one less would do.
  by_contra hnone
  have hless := (hle (variableCount (counts.getLastD 0) clauses (Table.ofList names) - 1)).mpr
    fun n hn => by
      have hn_le := (hle _).mp (le_refl _) n hn
      have hne : n ≠ variableCount (counts.getLastD 0) clauses (Table.ofList names) := by
        rintro rfl
        exact hnone hn
      omega
  omega

theorem LaysOut.exists_readDimacs (h : LaysOut text clauses names counts)
    (hclauses : ProperClauses clauses) (hnames : ∀ p ∈ names, 1 ≤ p.1) :
    ∃ d, readDimacs text = .ok d ∧ d.clauses = clauses ∧ d.names = Table.ofList names ∧
      IsGreatest {n | Asks clauses names counts n} d.varCount := by
  have hgreatest := @isGreatest_variableCount clauses names counts hnames
  have hread := h.readLines_eq hclauses
  have hvalid : Valid (variableCount (counts.getLastD 0) clauses (Table.ofList names)) clauses
      (Table.ofList names).keys := by
    have hfrom := readFrom_of_readLines hread
    rw [← List.reverse_reverse clauses]
    refine hfrom.valid_iff.mpr fun line hline name hname => ?_
    obtain ⟨p, hp, hzero⟩ := List.mem_map.mp
      (Table.mem_keys_ofList.mp ((hfrom.mem_keys_iff 0).mpr ⟨line, hline, 0, name, hname, rfl⟩))
    have := hnames p hp
    omega
  obtain ⟨d, hd, hcount, hparts⟩ := ofParts_of_valid hvalid
  refine ⟨d, ?_, hparts.1, hparts.2, hcount ▸ hgreatest⟩
  rw [readDimacs_of_readLines hread rfl, List.reverse_reverse, hd]
  rfl

end Reading

/-! ## The usual layout -/

/-- The usual text of a number. -/
def numeral (i : Int) : List Char := (toString i).toList

def nameWords (p : Int × String) : List (List Char) := [['c'], numeral p.1, p.2.toList]

def headerWords (count : Int) (size : Nat) : List (List Char) :=
  [['p'], "cnf".toList, numeral count, numeral size]

def clauseWords (c : Clause) : List (List Char) := (c ++ [0]).map numeral

/-- The words of the lines: each name in a line, then the header, then each
clause in a line. -/
def Document.usualLines (d : Document) : List (List (List Char)) :=
  d.names.entries.map nameWords ++ headerWords d.varCount d.clauses.length ::
    d.clauses.map clauseWords

/-- The text of a formula, with one space between words and a line feed behind
each line. -/
def Document.render (d : Document) : List Char :=
  (d.usualLines.map unwords).flatMap (· ++ ['\n'])

/-- What the lines say. -/
def Document.sayings (d : Document) : List Saying :=
  d.names.entries.map (fun p => .name p.1.toNat p.2) ++ .header d.varCount ::
    d.clauses.map fun c => .literals (c ++ [0])

theorem numeral_natCast (n : Nat) : numeral n = Nat.toDigits 10 n := by
  rw [numeral, show toString (n : Int) = toString n from rfl, Nat.toString_eq_repr,
    Nat.toList_repr]

theorem numeral_negSucc (n : Nat) : numeral (Int.negSucc n) = '-' :: numeral (n + 1 : Nat) :=
  String.toList_append

theorem isDigit_of_mem_numeral {n : Nat} {c : Char} (h : c ∈ numeral n) : c.isDigit = true := by
  rw [numeral_natCast] at h
  exact Nat.isDigit_of_mem_toDigits (by decide) (by decide) h

theorem isWord_numeral (i : Int) : IsWord (numeral i) := by
  have hdigit : ∀ n : Nat, ∀ c ∈ numeral n, isBlank c = false := by
    intro n c hc
    have hrange := toNat_of_isDigit (isDigit_of_mem_numeral hc)
    simp only [isBlank]
    simp
    omega
  cases i with
  | ofNat n =>
    refine ⟨?_, hdigit n⟩
    rw [Int.ofNat_eq_natCast, numeral_natCast]
    exact Nat.toDigits_ne_nil
  | negSucc n =>
    rw [numeral_negSucc]
    exact ⟨by simp, List.forall_mem_cons.mpr ⟨by decide, hdigit _⟩⟩

section Rendering

variable {d : Document} {line : List Char}

theorem says_of_nameWords {p : Int × String} (h : Spaced line (nameWords p)) (hpos : 1 ≤ p.1)
    (hlimit : p.1.natAbs < 10 ^ integerDigitLimit) : Says line (.name p.1.toNat p.2) := by
  obtain ⟨id, name⟩ := p
  obtain ⟨n, rfl⟩ := Int.eq_ofNat_of_zero_le (Int.le_of_lt hpos)
  have hform : NameForm line (numeral n) name.toList :=
    ⟨(isWord_numeral n).ne_nil,
      fun c hc => isDecimalDigit_of_isDigit (isDigit_of_mem_numeral hc), .inl h⟩
  have hsaid := Says.name ⟨_, hform, writesNatural_toString hlimit⟩
  rwa [String.ofList_toList] at hsaid

theorem says_of_headerWords {count : Int} {size : Nat} (h : Spaced line (headerWords count size))
    (hlimit : count.natAbs < 10 ^ integerDigitLimit) : Says line (.header count) :=
  .header h (writesInteger_toString hlimit)

theorem says_of_clauseWords {c : Clause} (h : Spaced line (clauseWords c))
    (hlimit : ∀ l ∈ c, l.natAbs < 10 ^ integerDigitLimit) :
    Says line (.literals (c ++ [0])) := by
  refine .literals h ?_
  rw [clauseWords, List.forall₂_map_left_iff, List.forall₂_same]
  intro l hl
  rcases List.mem_append.mp hl with hl | hl
  · exact writesInteger_toString (hlimit l hl)
  · obtain rfl := List.mem_singleton.mp hl
    exact writesInteger_toString (Nat.pow_pos (by decide))

theorem Document.isWord_of_mem_usualLines (hnames : ∀ p ∈ d.names.entries, IsWord p.2.toList) :
    ∀ ws ∈ d.usualLines, ∀ word ∈ ws, IsWord word := by
  have hletter : ∀ c, isBlank c = false → IsWord [c] :=
    fun c hc => ⟨by simp, by simpa using hc⟩
  have hcnf : IsWord "cnf".toList := ⟨by simp, by simp; decide⟩
  intro ws hws
  rcases List.mem_append.mp hws with hws | hws
  · obtain ⟨p, hp, rfl⟩ := List.mem_map.mp hws
    simp only [nameWords, List.forall_mem_cons]
    exact ⟨hletter 'c' (by decide), isWord_numeral _, hnames p hp, nofun⟩
  · rcases List.mem_cons.mp hws with rfl | hws
    · simp only [headerWords, List.forall_mem_cons]
      exact ⟨hletter 'p' (by decide), hcnf, isWord_numeral _, isWord_numeral _, nofun⟩
    · obtain ⟨c, _, rfl⟩ := List.mem_map.mp hws
      intro word hword
      obtain ⟨l, _, rfl⟩ := List.mem_map.mp hword
      exact isWord_numeral l

theorem Document.says_usualLines (hnames : ∀ p ∈ d.names.entries, IsWord p.2.toList)
    (hlimit : d.varCount < 10 ^ integerDigitLimit) :
    List.Forall₂ Says (d.usualLines.map unwords) d.sayings := by
  have hspaced : ∀ ws ∈ d.usualLines, Spaced (unwords ws) ws :=
    fun ws hws => spaced_unwords (d.isWord_of_mem_usualLines hnames ws hws)
  rw [Document.usualLines, List.map_append, List.map_cons]
  unfold Document.sayings
  refine List.rel_append ?_ (.cons ?_ ?_)
  · simp only [List.forall₂_map_left_iff, List.forall₂_map_right_iff, List.forall₂_same]
    intro p hp
    have hvar := d.names_within p.1 (List.mem_map_of_mem hp)
    have hmem : nameWords p ∈ d.usualLines := List.mem_append_left _ (List.mem_map_of_mem hp)
    exact says_of_nameWords (hspaced _ hmem) (by omega) (by omega)
  · have hmem : headerWords d.varCount d.clauses.length ∈ d.usualLines :=
      List.mem_append_right _ List.mem_cons_self
    exact says_of_headerWords (hspaced _ hmem) (by simpa using hlimit)
  · simp only [List.forall₂_map_left_iff, List.forall₂_map_right_iff, List.forall₂_same]
    intro c hc
    have hmem : clauseWords c ∈ d.usualLines :=
      List.mem_append_right _ (List.mem_cons_of_mem _ (List.mem_map_of_mem hc))
    refine says_of_clauseWords (hspaced _ hmem) fun l hl => ?_
    have := ((d.clauses_within c hc).2 l hl).2
    omega

theorem Document.flatMap_sayings {α : Type} (f : Saying → List α) :
    d.sayings.flatMap f =
      (d.names.entries.flatMap fun p => f (.name p.1.toNat p.2)) ++
        (f (.header d.varCount) ++ d.clauses.flatMap fun c => f (.literals (c ++ [0]))) := by
  rw [Document.sayings, List.flatMap_append, List.flatMap_cons, List.flatMap_map, List.flatMap_map]

theorem Document.laysOut_render (hnames : ∀ p ∈ d.names.entries, IsWord p.2.toList)
    (hlimit : d.varCount < 10 ^ integerDigitLimit) :
    LaysOut d.render d.clauses d.names.entries [(d.varCount : Int)] := by
  have hnil : ∀ {α β : Type} (l : List α), (l.flatMap fun _ => ([] : List β)) = [] :=
    fun l => List.flatMap_eq_nil_iff.mpr fun _ _ => rfl
  refine .intro (writesLines_flatMap ?_) (d.says_usualLines hnames hlimit) ?_ ?_ ?_
  · intro line hline
    obtain ⟨ws, hws, rfl⟩ := List.mem_map.mp hline
    exact not_isLineEnd_unwords (d.isWord_of_mem_usualLines hnames ws hws)
  · rw [d.flatMap_sayings]
    simp only [Saying.tokens, hnil, List.nil_append, closedLiterals]
  · have hvars : ∀ p ∈ d.names.entries, [((p.1.toNat : Int), p.2)] = [p] := by
      intro p hp
      have := d.names_within p.1 (List.mem_map_of_mem hp)
      rw [Int.toNat_of_nonneg (by omega)]
    rw [d.flatMap_sayings]
    simp only [Saying.names, hnil, List.append_nil]
    rw [List.flatMap_congr hvars, List.flatMap_singleton']
  · rw [d.flatMap_sayings]
    simp only [Saying.counts, hnil, List.nil_append, List.append_nil]

/-- A formula has as many variables as its parts ask for. -/
theorem Document.isGreatest_varCount (d : Document) :
    IsGreatest {n | Asks d.clauses d.names.entries [(d.varCount : Int)] n} d.varCount := by
  refine ⟨.header rfl, ?_⟩
  intro n hn
  cases hn with
  | zero => exact d.valid.count_nonneg
  | header h =>
    cases h
    exact le_refl _
  | literal hc hl => exact d.valid.literal_le _ hc _ hl
  | name hp => exact (d.valid.named _ (List.mem_map_of_mem hp)).2

/-- The usual text of a formula is read as the formula. -/
theorem Document.readDimacs_render (hnames : ∀ p ∈ d.names.entries, IsWord p.2.toList)
    (hlimit : d.varCount < 10 ^ integerDigitLimit) : readDimacs d.render = .ok d := by
  have hproper : ProperClauses d.clauses :=
    fun c hc => ⟨d.valid.clause_ne_nil c hc, d.valid.literal_ne_zero c hc⟩
  have hpos : ∀ p ∈ d.names.entries, 1 ≤ p.1 :=
    fun p hp => (d.valid.named p.1 (List.mem_map_of_mem hp)).1
  obtain ⟨e, he, hclauses, htable, hgreatest⟩ :=
    (d.laysOut_render hnames hlimit).exists_readDimacs hproper hpos
  have hentries := Table.ext (Table.entries_ofList d.names.nodup)
  rw [he, Document.eq_of_parts (hgreatest.unique d.isGreatest_varCount) hclauses
    (htable.trans hentries)]

end Rendering

/-! ## Layouts -/

/-- However a text lays clauses, names and headers out, reading it gives these
clauses, for each named variable the name that is given last, and the largest
number of variables that is asked for. In particular the usual text of a formula
is read as that formula. -/
theorem reading_does_not_depend_on_the_layout :
    (∀ text clauses names counts, ProperClauses clauses → (∀ p ∈ names, 1 ≤ p.1) →
      LaysOut text clauses names counts →
      ∃ d, readDimacs text = .ok d ∧ d.clauses = clauses ∧
        (∀ v, d.names.get? v = Table.lastValue? names v) ∧
        IsGreatest {n | Asks clauses names counts n} d.varCount) ∧
    ∀ d : Document, (∀ p ∈ d.names.entries, IsWord p.2.toList) →
      d.varCount < 10 ^ integerDigitLimit → readDimacs d.render = .ok d := by
  refine ⟨?_, fun d hnames hlimit => d.readDimacs_render hnames hlimit⟩
  intro text clauses names counts hclauses hnames hlays
  obtain ⟨d, hread, hsame, htable, hgreatest⟩ := hlays.exists_readDimacs hclauses hnames
  refine ⟨d, hread, hsame, fun v => ?_, hgreatest⟩
  rw [htable, Table.get?_ofList]

/-- Two clauses, with a name, a note, a header that is too low and an empty line
inside the first of them. -/
def scatteredText : String :=
  "c by hand\n  1 -2\r\nc 3$ B\n% note\np cnf 2 9\n\n3 0 -1 0\nc 3 C"

theorem lines_scatteredText : lines scatteredText.toList =
    ["c by hand".toList, "  1 -2".toList, "c 3$ B".toList, "% note".toList, "p cnf 2 9".toList,
      [], "3 0 -1 0".toList, "c 3 C".toList] := by
  unfold scatteredText
  decide +kernel

theorem laysOut_scatteredText :
    LaysOut scatteredText.toList [[1, -2, 3], [-1]] [(3, "B"), (3, "C")] [2] := by
  have hzero : WritesInteger "0".toList 0 := readInteger_eq_ok_iff.mp (by decide +kernel)
  have hone : WritesInteger "1".toList 1 := readInteger_eq_ok_iff.mp (by decide +kernel)
  have htwo : WritesInteger "2".toList 2 := readInteger_eq_ok_iff.mp (by decide +kernel)
  have hthree : WritesInteger "3".toList 3 := readInteger_eq_ok_iff.mp (by decide +kernel)
  have hnotOne : WritesInteger "-1".toList (-1) := readInteger_eq_ok_iff.mp (by decide +kernel)
  have hnotTwo : WritesInteger "-2".toList (-2) := readInteger_eq_ok_iff.mp (by decide +kernel)
  have hcomment : Says "c by hand".toList .nothing := by
    have hnone : namedVariable? "c by hand".toList = none := by decide +kernel
    refine @Says.comment [] " by hand".toList (by simp) fun digits name hform => ?_
    cases hnone.symm.trans hform.namedVariable?_eq
  have hfirst : Says "  1 -2".toList (.literals [1, -2]) :=
    @Says.literals _ ["1".toList, "-2".toList] _ (words_eq_iff.mp (by decide +kernel))
      (.cons hone (.cons hnotTwo .nil))
  have hname : ∀ line name, namedVariable? line = some ("3".toList, name) →
      Says line (.name 3 (String.ofList name)) := fun line name hnamed =>
    .name ⟨_, nameForm_of_namedVariable? hnamed, readNatural_eq_ok_iff.mp (by decide +kernel)⟩
  have hpercent : Says "% note".toList .nothing := @Says.percent [] " note".toList (by simp)
  have hheader : Says "p cnf 2 9".toList (.header 2) :=
    @Says.header _ [] "2".toList "9".toList [] _ (words_eq_iff.mp (by decide +kernel)) htwo
  have hblank : Says [] (.literals []) := .literals (.nil (by simp)) .nil
  have hsecond : Says "3 0 -1 0".toList (.literals [3, 0, -1, 0]) :=
    @Says.literals _ ["3".toList, "0".toList, "-1".toList, "0".toList] _
      (words_eq_iff.mp (by decide +kernel))
      (.cons hthree (.cons hzero (.cons hnotOne (.cons hzero .nil))))
  exact .intro (lines_eq_iff.mp lines_scatteredText)
    (.cons hcomment (.cons hfirst (.cons (hname _ "B".toList (by decide +kernel)) (.cons hpercent
      (.cons hheader (.cons hblank (.cons hsecond
        (.cons (hname _ "C".toList (by decide +kernel)) .nil))))))))
    rfl rfl rfl

/-- The text is read as its clauses, with the second name and with three
variables. In the usual layout it is read as the same formula. -/
theorem a_scattered_text_is_read_as_its_clauses :
    ∃ d, readDimacs scatteredText.toList = .ok d ∧ d.clauses = [[1, -2, 3], [-1]] ∧
      d.names.get? 3 = some "C" ∧ d.varCount = 3 ∧ readDimacs d.render = .ok d := by
  obtain ⟨hlayouts, hrender⟩ := reading_does_not_depend_on_the_layout
  have hproper : ProperClauses [[1, -2, 3], [-1]] := by unfold ProperClauses; decide
  obtain ⟨d, hread, hclauses, hnames, hasked, hbound⟩ :=
    hlayouts _ _ _ _ hproper (by decide) laysOut_scatteredText
  have hlast : ∀ p ∈ d.names.entries, p.2 = "C" := by
    intro p hp
    have hvalue := (hnames p.1).symm.trans (Table.get?_of_mem hp)
    by_cases h : 3 = p.1 <;> simp_all [Table.lastValue?]
  have hcount : d.varCount = 3 := by
    have hlow : (3 : Int) ≤ d.varCount :=
      hbound (@Asks.literal _ _ _ [1, -2, 3] 3 (by decide) (by decide))
    have hhigh : ∀ n, Asks [[1, -2, 3], [-1]] [(3, "B"), (3, "C")] [2] n → n ≤ 3 := by
      have hliterals : ∀ c ∈ [[1, -2, 3], [-1]], ∀ l ∈ c, (Int.natAbs l : Int) ≤ 3 := by decide
      have hvars : ∀ p ∈ [((3 : Int), "B"), (3, "C")], p.1 ≤ 3 := by decide
      rintro n (_ | ⟨⟨⟩⟩ | ⟨hc, hl⟩ | hp)
      · decide
      · decide
      · exact hliterals _ hc _ hl
      · exact hvars _ hp
    have := hhigh _ hasked
    omega
  refine ⟨d, hread, hclauses, hnames 3, hcount, hrender d ?_ ?_⟩
  · intro p hp
    rw [hlast p hp]
    exact ⟨by simp, by simp; decide⟩
  · rw [hcount]
    exact Nat.lt_of_lt_of_le (by decide : 3 < 10 ^ 1) (Nat.pow_le_pow_right (by decide) (by decide))

end Variability.Cnf
