-- What a scan of a build index finds: for each key the first line that is about
-- it, whatever the index holds besides and however the keys are listed.
import Mathlib.Data.String.Basic
import Variability.Proofs.Files
import Variability.Proofs.IndexEntries
import Variability.Proofs.Pieces
import Variability.Proofs.Spacing

namespace Variability.BuildIndex

open Text

/-! ## The lines of an index -/

/-- The text with a line feed for each of its line ends. A carriage return is a
line end, and takes a line feed behind it with it. -/
def unifyLineEnds : List Char → List Char
  | [] => []
  | '\r' :: '\n' :: rest => '\n' :: unifyLineEnds rest
  | c :: rest => (if c = '\r' then '\n' else c) :: unifyLineEnds rest

/-- What lies between the line feeds. -/
def indexLines (text : List Char) : List (List Char) := (unifyLineEnds text).splitOn '\n'

theorem unifyLineEnds_cons {c : Char} (h : c ≠ '\r') (rest : List Char) :
    unifyLineEnds (c :: rest) = c :: unifyLineEnds rest := by
  rw [unifyLineEnds, if_neg h]
  intro _ hc
  exact absurd hc h

theorem unifyLineEnds_append {line : List Char} (h : '\r' ∉ line) (rest : List Char) :
    unifyLineEnds (line ++ rest) = line ++ unifyLineEnds rest := by
  induction line with
  | nil => rfl
  | cons c line ih =>
    obtain ⟨hc, hline⟩ := not_or.mp (mt List.mem_cons.mpr h)
    rw [List.cons_append, unifyLineEnds_cons (Ne.symm hc), ih hline, List.cons_append]

theorem unifyLineEnds_lineEnd {c : Char} (h : isFileLineEnd c = true) (rest : List Char) :
    unifyLineEnds (c :: rest) = '\n' :: unifyLineEnds (afterLineEnd c rest) := by
  simp only [isFileLineEnd, Bool.or_eq_true, beq_iff_eq] at h
  rcases h with rfl | rfl
  · rw [unifyLineEnds_cons (by decide)]
    rfl
  · cases rest with
    | nil => rfl
    | cons d rest =>
      by_cases hd : d = '\n'
      · subst hd
        rfl
      · rw [unifyLineEnds, if_pos rfl, afterLineEnd, if_pos rfl, dropOne, if_neg hd]
        intro _ _ hcons
        exact hd (List.cons.inj hcons).1

/-- The lines that a pass sees are those of the index, except that an empty one
at the end is not seen. -/
theorem filterMap_linesAt {α : Type} {f : List Char → Option α} (hf : f [] = none)
    (text : List Char) :
    (linesAt isFileLineEnd text).filterMap f = (indexLines text).filterMap f := by
  unfold indexLines
  fun_induction linesAt isFileLineEnd text with
  | case1 => simp [unifyLineEnds, hf]
  | case2 text hnone _ =>
    have hline := takeWhile_of_dropWhile_nil hnone
    have hfree : ∀ c, isFileLineEnd c = true → c ∉ text :=
      fun c hc => hline ▸ not_mem_takeWhile hc text
    have hunified := unifyLineEnds_append (hfree '\r' rfl) []
    rw [List.append_nil] at hunified
    rw [hunified, unifyLineEnds, List.append_nil, List.splitOn_eq_singleton (hfree '\n' rfl)]
  | case3 text c rest hsome ih =>
    obtain ⟨hc, htext⟩ := mark_of_dropWhile_cons hsome
    have hfree : ∀ c, isFileLineEnd c = true → c ∉ text.takeWhile (!isFileLineEnd ·) :=
      fun c hc => not_mem_takeWhile hc text
    have hunified := unifyLineEnds_append (hfree '\r' rfl) (c :: rest)
    rw [htext, unifyLineEnds_lineEnd hc] at hunified
    rw [hunified, List.splitOn_append_cons_self_of_not_mem (hfree '\n' rfl),
      List.filterMap_cons, List.filterMap_cons, ih]

/-! ## Lines about a key -/

/-- A line is about a key if its first two words are the tag and the path. -/
def IsAbout (key : Key) (line : List Char) : Prop :=
  (words line).take 2 = [key.tag.toList, key.path.toList]

instance (key : Key) (line : List Char) : Decidable (IsAbout key line) :=
  inferInstanceAs (Decidable (_ = _))

/-- The words of a line behind its first two, with one space between
neighbours. -/
def conditionText (line : List Char) : String := String.ofList (unwords ((words line).drop 2))

theorem entryOf?_eq_some_iff {line : List Char} {key : Key} {condition : String} :
    entryOf? line = some (key, condition) ↔
      IsAbout key line ∧ condition = conditionText line := by
  unfold entryOf? IsAbout conditionText
  match words line with
  | [] => simp
  | [_] => simp
  | tag :: path :: rest =>
    obtain ⟨keyTag, keyPath⟩ := key
    simp [String.ofList_eq, eq_comm (a := condition)]

theorem entryOf?_nil : entryOf? [] = none := by
  unfold entryOf?
  rw [words, trimStart]
  rfl

/-- The entry of a key is what its first line says. -/
theorem lookup_entries (lines : List (List Char)) (key : Key) :
    (lines.filterMap entryOf?).lookup key =
      (lines.find? fun line => IsAbout key line).map conditionText := by
  induction lines with
  | nil => rfl
  | cons line lines ih =>
    by_cases habout : IsAbout key line
    · have hentry := entryOf?_eq_some_iff.mpr ⟨habout, rfl⟩
      rw [List.filterMap_cons_some hentry, List.find?_cons_of_pos (by simpa using habout),
        List.lookup_cons_self]
      rfl
    · rw [List.find?_cons_of_neg (by simpa using habout), ← ih]
      cases hentry : entryOf? line with
      | none => rw [List.filterMap_cons_none hentry]
      | some entry =>
        rw [List.filterMap_cons_some hentry]
        apply lookup_cons_ne
        rintro rfl
        exact habout (entryOf?_eq_some_iff.mp hentry).1

theorem not_isAbout_of_isBlank {key : Key} {c : Char}
    (hc : c ∈ key.tag.toList ∨ c ∈ key.path.toList) (hblank : isBlank c = true)
    (line : List Char) : ¬ IsAbout key line := by
  intro habout
  have hmem : ∀ word ∈ [key.tag.toList, key.path.toList], word ∈ words line := by
    intro word hword
    exact List.mem_of_mem_take (habout ▸ hword)
  rcases hc with hc | hc
  · simpa [hblank] using ((spaced_words line).isWord _ (hmem _ (by simp))).not_blank c hc
  · simpa [hblank] using ((spaced_words line).isWord _ (hmem _ (by simp))).not_blank c hc

/-! ## Scanning -/

/-- What the lines of an index say of a key: what the first line about it
says. -/
def firstCondition? (lines : List (List Char)) (key : Key) : Option String :=
  (lines.find? fun line => IsAbout key line).map conditionText

theorem firstCondition?_eq_some_iff {lines : List (List Char)} {key : Key} {condition : String} :
    firstCondition? lines key = some condition ↔
      ∃ before line after, lines = before ++ line :: after ∧
        (∀ earlier ∈ before, ¬ IsAbout key earlier) ∧ IsAbout key line ∧
        condition = conditionText line := by
  unfold firstCondition?
  simp only [Option.map_eq_some_iff, List.find?_eq_some_iff_append, decide_eq_true_eq,
    Bool.not_eq_true', decide_eq_false_iff_not]
  constructor
  · rintro ⟨line, ⟨habout, before, after, hlines, hbefore⟩, hcondition⟩
    exact ⟨before, line, after, hlines, hbefore, habout, hcondition.symm⟩
  · rintro ⟨before, line, after, hlines, hbefore, habout, hcondition⟩
    exact ⟨line, ⟨habout, before, after, hlines, hbefore⟩, hcondition.symm⟩

theorem firstCondition?_isSome_iff {lines : List (List Char)} {key : Key} :
    (firstCondition? lines key).isSome = true ↔ ∃ line ∈ lines, IsAbout key line := by
  simp [firstCondition?]

theorem lookup_indexEntries (text : List Char) (key : Key) :
    (indexEntries text).lookup key = firstCondition? (indexLines text) key := by
  rw [indexEntries, filterMap_linesAt entryOf?_nil, lookup_entries, firstCondition?]

/-- What a scan for some keys finds in the lines of an index. -/
structure FindsFirst (lines : List (List Char)) (keys : List Key)
    (found : Std.HashMap Key String) : Prop where
  /-- A key is found if it is asked for and some line is about it. -/
  mem_iff : ∀ key, key ∈ found ↔ key ∈ keys ∧ ∃ line ∈ lines, IsAbout key line
  /-- It is found with what the first line about it says. -/
  getElem?_iff : ∀ key condition, found[key]? = some condition ↔ key ∈ keys ∧
    ∃ before line after, lines = before ++ line :: after ∧
      (∀ earlier ∈ before, ¬ IsAbout key earlier) ∧ IsAbout key line ∧
      condition = conditionText line
  /-- No key with a blank in it is found. -/
  no_blank : ∀ key ∈ found, ∀ c, c ∈ key.tag.toList ∨ c ∈ key.path.toList → isBlank c = false

theorem findsFirst_of_getElem? {lines : List (List Char)} {keys : List Key}
    {found : Std.HashMap Key String}
    (hfound : ∀ key, found[key]? = if key ∈ keys then firstCondition? lines key else none) :
    FindsFirst lines keys found := by
  have hmem : ∀ key, key ∈ found ↔ key ∈ keys ∧ ∃ line ∈ lines, IsAbout key line := by
    intro key
    rw [← Std.HashMap.isSome_getElem?_iff_mem, hfound, ← firstCondition?_isSome_iff]
    split <;> simp_all
  refine ⟨hmem, ?_, ?_⟩
  · intro key condition
    rw [hfound, ← firstCondition?_eq_some_iff]
    split <;> simp_all
  · intro key hkey c hc
    obtain ⟨_, line, _, habout⟩ := (hmem key).mp hkey
    by_contra hblank
    exact not_isAbout_of_isBlank hc (by simpa using hblank) line habout

/-- A scan of an index that is text finds for each key what the first line about
it says, and nothing else. A scan for the same keys, listed in any way, finds
the same in every index in which the first line about each of them is the same:
other lines, later lines about the keys, and the places of the lines do not
count. -/
theorem a_scan_finds_the_first_line_of_each_key {w : Workspace} {index : String}
    {bytes : List UInt8} {text : List Char} (hread : w.read index = .ok bytes)
    (htext : utf8Text? bytes = some text) (keys : List Key) :
    ∃ found events, scan w index keys = (.ok found, events) ∧
      FindsFirst (indexLines text) keys found ∧
      ∀ (w' : Workspace) (index' : String) (bytes' : List UInt8) (text' : List Char)
        (keys' : List Key), w'.read index' = .ok bytes' → utf8Text? bytes' = some text' →
        (∀ key, key ∈ keys' ↔ key ∈ keys) →
        (∀ key ∈ keys, ((indexLines text').filter fun line => IsAbout key line).head? =
          ((indexLines text).filter fun line => IsAbout key line).head?) →
        ∃ found' events', scan w' index' keys' = (.ok found', events') ∧
          ∀ key : Key, found'[key]? = found[key]? := by
  obtain ⟨found, events, hscan, hfound⟩ := scan_of_text hread htext keys
  simp only [lookup_indexEntries] at hfound
  refine ⟨found, events, hscan, findsFirst_of_getElem? hfound, ?_⟩
  intro w' index' bytes' text' keys' hread' htext' hkeys hfirst
  obtain ⟨found', events', hscan', hfound'⟩ := scan_of_text hread' htext' keys'
  refine ⟨found', events', hscan', ?_⟩
  intro key
  rw [hfound', hfound, lookup_indexEntries]
  simp only [hkeys]
  by_cases hkey : key ∈ keys
  · have hsame := hfirst key hkey
    rw [List.head?_filter, List.head?_filter] at hsame
    rw [firstCondition?, firstCondition?, hsame]
  · rw [if_neg hkey, if_neg hkey]

/-! ## A crowded index -/

/-- An index with two lines about a directory, a line about another one whose
name goes on, and all three line ends. -/
def crowdedIndex : String :=
  "subdir_pc libs X\nsubdir_pc lib A  &&\tB\r\nunit_pc lib/a.o\rsubdir_pc lib C\n"

def crowdedProject : Workspace := .withFile "index" crowdedIndex.toUTF8.toList

theorem read_crowdedProject : crowdedProject.read "/index" = .ok crowdedIndex.toUTF8.toList :=
  namesEntry_index.read_of_file (Workspace.find?_withFile _ _)

def crowdedLines : List (List Char) :=
  ["subdir_pc libs X".toList, "subdir_pc lib A  &&\tB".toList, "unit_pc lib/a.o".toList,
    "subdir_pc lib C".toList, []]

theorem indexLines_crowdedIndex : indexLines crowdedIndex.toList = crowdedLines := by
  decide

/-- The words of the lines of the crowded index. -/
theorem words_crowdedIndex :
    words "subdir_pc libs X".toList = ["subdir_pc".toList, "libs".toList, "X".toList] ∧
      words "subdir_pc lib A  &&\tB".toList =
        ["subdir_pc".toList, "lib".toList, "A".toList, "&&".toList, "B".toList] ∧
      words "unit_pc lib/a.o".toList = ["unit_pc".toList, "lib/a.o".toList] ∧
      words "subdir_pc lib C".toList = ["subdir_pc".toList, "lib".toList, "C".toList] ∧
      words [] = [] := by
  refine ⟨?_, ?_, ?_, ?_, ?_⟩ <;> decide +kernel

/-- The first line about `lib` counts, none is about `li`, and the one about the
unit says nothing. -/
theorem a_crowded_index_is_scanned :
    let keys : List Key := [⟨"subdir_pc", "li"⟩, ⟨"subdir_pc", "lib"⟩, ⟨"unit_pc", "lib/a.o"⟩,
      ⟨"subdir_pc", "lib"⟩]
    ∃ found events, scan crowdedProject "/index" keys = (.ok found, events) ∧
      (⟨"subdir_pc", "li"⟩ : Key) ∉ found ∧
      found[(⟨"subdir_pc", "lib"⟩ : Key)]? = some "A && B" ∧
      found[(⟨"unit_pc", "lib/a.o"⟩ : Key)]? = some "" := by
  intro keys
  have htext : utf8Text? crowdedIndex.toUTF8.toList = some crowdedIndex.toList := by decide +kernel
  obtain ⟨found, events, hscan, hfirst, _⟩ :=
    a_scan_finds_the_first_line_of_each_key read_crowdedProject htext keys
  obtain ⟨hlibs, hlib, hunit, hlater, hend⟩ := words_crowdedIndex
  rw [indexLines_crowdedIndex] at hfirst
  refine ⟨found, events, hscan, ?_, ?_, ?_⟩
  · have hnone : ∀ line ∈ crowdedLines, ¬ IsAbout ⟨"subdir_pc", "li"⟩ line := by
      simp only [crowdedLines, List.forall_mem_cons, IsAbout, hlibs, hlib, hunit, hlater, hend]
      decide
    rw [hfirst.mem_iff]
    rintro ⟨_, line, hline, habout⟩
    exact hnone line hline habout
  · rw [hfirst.getElem?_iff]
    refine ⟨by simp [keys], ["subdir_pc libs X".toList], _, _, rfl, ?_, ?_, ?_⟩
    · simp only [List.forall_mem_singleton, IsAbout, hlibs]
      decide
    · simp only [IsAbout, hlib]
      decide
    · simp only [conditionText, hlib]
      decide
  · rw [hfirst.getElem?_iff]
    refine ⟨by simp [keys], ["subdir_pc libs X".toList, "subdir_pc lib A  &&\tB".toList], _, _,
      rfl, ?_, ?_, ?_⟩
    · simp only [List.forall_mem_cons, IsAbout, hlibs, hlib]
      decide
    · simp only [IsAbout, hunit]
      decide
    · simp only [conditionText, hunit]
      decide

end Variability.BuildIndex
