-- What a scanner locates: for the unit of a file and for each directory above
-- it, the condition of the first index line that is about it.
import Mathlib.Data.List.Basic
import Variability.BuildIndex.Scanner

namespace Variability.BuildIndex

open Text

/-! ## Keys -/

/-- A relative path with parts, none of them a dot, is not written as a dot. -/
theorem text_ne_dot {p : Path} (hrelative : p.anchor = .relative) (hparts : p.parts ≠ [])
    (hvisible : ∀ part ∈ p.parts, Path.isVisible part = true) : p.text ≠ "." := by
  unfold Path.text
  rw [if_neg fun h => hparts h.2, hrelative, Anchor.text, String.empty_append]
  obtain ⟨first, rest, hp⟩ := List.exists_cons_of_ne_nil hparts
  have hfirst := hvisible first (hp ▸ List.mem_cons_self)
  rw [hp]
  intro htext
  cases rest with
  | nil =>
    rw [String.intercalate_singleton] at htext
    simp [Path.isVisible, htext] at hfirst
  | cons second rest =>
    have hlength := congrArg String.length htext
    rw [String.intercalate_cons_cons, String.length_append, String.length_append,
      show "/".length = 1 from rfl, show ".".length = 1 from rfl] at hlength
    have hnone : first = "" := String.length_eq_zero_iff.mp (by omega)
    simp [Path.isVisible, hnone] at hfirst

/-- The keys of a unit are its own and those of the directories above it,
innermost first; where the path starts has none. -/
theorem lookupKeys_eq {object : Path} (hrelative : object.anchor = .relative)
    (hvisible : ∀ part ∈ object.parts, Path.isVisible part = true) :
    lookupKeys object =
      Key.unit object :: (List.range' 1 (object.parts.length - 1)).reverse.map fun n =>
        Key.directory { object with parts := object.parts.take n } := by
  unfold lookupKeys Path.parents
  congr 1
  cases hlength : object.parts.length with
  | zero => rfl
  | succ n =>
    rw [List.range_eq_range', List.range'_succ, List.reverse_cons, List.map_append,
      List.takeWhile_append_of_pos]
    · simp [Path.text, hrelative]
    · intro above habove
      obtain ⟨k, hk, rfl⟩ := List.mem_map.mp habove
      have hrange := List.mem_range'_1.mp (List.mem_reverse.mp hk)
      have hne : object.parts.take k ≠ [] := by
        intro hnil
        have := congrArg List.length hnil
        rw [List.length_take, List.length_nil] at this
        omega
      have htext := text_ne_dot (p := { object with parts := object.parts.take k }) hrelative hne
        fun part hpart => hvisible part (List.mem_of_mem_take hpart)
      simpa using htext

/-! ## First entries -/

/-- The entries of an index, line by line. -/
def indexEntries (text : List Char) : List (Key × String) :=
  (linesAt isFileLineEnd text).filterMap entryOf?

/-- The condition texts for a compiled unit: for each of its keys the first
entry that has the key. -/
def locatedTexts (text : List Char) (object : Path) : List String :=
  (lookupKeys object).filterMap fun key => (indexEntries text).lookup key

theorem lookup_cons_ne {key other : Key} {text : String} (h : key ≠ other)
    (entries : List (Key × String)) :
    ((other, text) :: entries).lookup key = entries.lookup key := by
  have hb : (key == other) = false := by simpa using h
  rw [List.lookup_cons, hb]

/-- A pass finds the first entry of every key that is pending, and keeps what
it has found of the others. -/
theorem getElem?_scanLines (index : String) (number : Nat) (pending : Std.HashSet Key)
    (found : Std.HashMap Key String) (lines : List (List Char)) (key : Key) :
    (scanLines index number pending found lines).found[key]? =
      if key ∈ pending then ((lines.filterMap entryOf?).lookup key).or found[key]?
      else found[key]? := by
  induction lines generalizing number pending found with
  | nil => simp [scanLines]
  | cons line rest ih =>
    unfold scanLines
    split
    · rename_i hnone
      rw [ih, List.filterMap_cons_none hnone]
    · rename_i first text hsome
      rw [List.filterMap_cons_some hsome]
      by_cases hpending : first ∈ pending
      · rw [if_pos (Std.HashSet.contains_iff_mem.mpr hpending)]
        by_cases hkey : key = first
        · subst hkey
          simp only
          split
          · simp
          · rw [ih]
            simp
        · have herase : key ∈ pending.erase first ↔ key ∈ pending := by
            rw [Std.HashSet.mem_erase]
            simp [Ne.symm hkey]
          have hfound : (found.insert first text)[key]? = found[key]? := by
            rw [Std.HashMap.getElem?_insert, if_neg (by simpa using Ne.symm hkey)]
          rw [lookup_cons_ne hkey]
          simp only
          split
          · rename_i hempty
            have hnot : key ∉ pending := by
              rw [← herase]
              exact Std.HashSet.not_mem_of_isEmpty hempty
            rw [if_neg hnot, hfound]
          · rw [ih, hfound]
            simp only [herase]
      · rw [if_neg (by simpa using hpending)]
        have hlookup : key ∈ pending →
            ((first, text) :: rest.filterMap entryOf?).lookup key =
              (rest.filterMap entryOf?).lookup key := by
          intro hmem
          apply lookup_cons_ne
          rintro rfl
          exact hpending hmem
        split <;>
          · simp only [ih]
            split
            · rename_i hmem
              rw [hlookup hmem]
            · rfl

/-- A scan of an index that is text finds the first entry of every key, and
nothing else. -/
theorem scan_of_text {w : Workspace} {index : String} {bytes : List UInt8} {text : List Char}
    (hread : w.read index = .ok bytes) (htext : utf8Text? bytes = some text) (keys : List Key) :
    ∃ found events, scan w index keys = (.ok found, events) ∧
      ∀ key, found[key]? = if key ∈ keys then (indexEntries text).lookup key else none := by
  have hlines : readableLines bytes = (linesAt isFileLineEnd text, true) := by
    unfold utf8Text? at htext
    unfold readableLines readableText
    split at htext
    · rename_i hdecode
      cases htext
      rw [hdecode]
    · cases htext
  unfold scan
  rw [hread]
  simp only [hlines, Bool.or_true, if_true]
  refine ⟨_, _, rfl, ?_⟩
  intro key
  rw [getElem?_scanLines]
  simp [indexEntries]

/-! ## The conditions of a file -/

/-- The file of a scanner exists inside the root and is compiled to `object`;
the index is the text; and what it says first of the unit and of the directories
above it can be read. -/
structure Scanner.Sees (s : Scanner) (w : Workspace) (object : Path) (text : List Char) : Prop where
  existing : ∃ status, w.status? (w.absolute s.file).text = .ok status
  inside : ∃ relative, Path.relativeTo? (w.absolute s.root) (w.absolute s.file) = some relative ∧
    objectIdentity s.suffixes relative = .ok object
  index : ∃ bytes, w.read s.index.text = .ok bytes ∧ utf8Text? bytes = some text
  parse : ∀ entry ∈ locatedTexts text object, ∃ level, s.reader.read entry = .ok level

theorem get?_defaultSuffixes {suffix s : String} (h : defaultSuffixes.get? suffix = some s) :
    suffix = ".c" ∧ s = ".o" := by
  rw [defaultSuffixes, Table.ofList_eq_foldl, List.foldl_cons, List.foldl_nil,
    Table.get?_insert] at h
  split at h
  · rename_i hkey
    exact ⟨hkey.symm, (Option.some.inj h).symm⟩
  · cases h

theorem readLevels_of_parse {r : ConditionReader} {texts : List String}
    (h : ∀ text ∈ texts, ∃ level, r.read text = .ok level) :
    ∃ levels, Scanner.readLevels r texts = .ok levels ∧
      ∀ level, level ∈ levels ↔ ∃ text ∈ texts, r.read text = .ok level := by
  induction texts with
  | nil => exact ⟨[], rfl, by simp⟩
  | cons text texts ih =>
    obtain ⟨first, hfirst⟩ := h text List.mem_cons_self
    obtain ⟨levels, hlevels, hmem⟩ := ih fun t ht => h t (List.mem_cons_of_mem _ ht)
    refine ⟨first :: levels, ?_, ?_⟩
    · unfold Scanner.readLevels
      simp only [hfirst, hlevels, Except.map]
    · intro level
      simp [hmem, hfirst, eq_comm]

/-- A scanner that has not located its conditions reads the first entries, level
by level. -/
theorem Scanner.Sees.locate_of_readLevels {s : Scanner} {w : Workspace} {object : Path}
    {text : List Char} {levels : List (List Condition)} (h : s.Sees w object text)
    (hlevels : readLevels s.reader (locatedTexts text object) = .ok levels) (owner : Nat)
    (history : History) : (s.locate w owner ⟨.unscanned, history⟩).answer = .ok levels := by
  obtain ⟨status, hstatus⟩ := h.existing
  obtain ⟨relative, hrelative, hobject⟩ := h.inside
  obtain ⟨bytes, hread, htext⟩ := h.index
  obtain ⟨found, events, hscan, hfound⟩ := scan_of_text hread htext (lookupKeys object)
  have hfile : s.objectFile w = .ok object := by
    unfold Scanner.objectFile
    simp only [hstatus, hrelative, hobject, Except.mapError]
  have hsame : foundTexts (lookupKeys object) found = locatedTexts text object :=
    List.filterMap_congr fun key hkey => (hfound key).trans (if_pos hkey)
  unfold Scanner.locate Scanner.lookUp Scanner.keys
  simp only [hfile, Except.map, hscan, hsame, hlevels]

/-- A scanner that has not located its conditions locates those of the first
entries. -/
theorem Scanner.Sees.locate {s : Scanner} {w : Workspace} {object : Path} {text : List Char}
    (h : s.Sees w object text) (owner : Nat) (history : History) :
    ∃ levels, (s.locate w owner ⟨.unscanned, history⟩).answer = .ok levels ∧
      ∀ level, level ∈ levels ↔
        ∃ entry ∈ locatedTexts text object, s.reader.read entry = .ok level := by
  obtain ⟨levels, hlevels, hmem⟩ := readLevels_of_parse h.parse
  exact ⟨levels, h.locate_of_readLevels hlevels owner history, hmem⟩

/-- What is located is what conditions are combined with. -/
theorem Scanner.answer_combine {s : Scanner} {w : Workspace} {owner : Nat} {before : Scanning}
    {levels : List (List Condition)} (h : (s.locate w owner before).answer = .ok levels)
    (pc : Condition) : (s.combine w owner before pc).answer = .ok (combineLevels levels pc) := by
  unfold Scanner.combine
  simp only [h, Except.map]

end Variability.BuildIndex
