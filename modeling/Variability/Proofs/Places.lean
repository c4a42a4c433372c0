-- The place of a file in a project: when it has none because it is missing or
-- outside the root, and which keys it is looked up under.
import Mathlib.Data.List.Nodup
import Variability.Proofs.LexicalForms
import Variability.Proofs.Pipeline

namespace Variability

/-! ## Below a root -/

section Below

variable {root target : Path}

theorem relativeTo?_of_below {rest : List String} (hanchor : target.anchor = root.anchor)
    (hparts : target.parts = root.parts ++ rest) :
    root.relativeTo? target = some ⟨.relative, rest⟩ := by
  have hprefix : root.parts.isPrefixOf target.parts = true := by
    rw [List.isPrefixOf_iff_prefix, hparts]
    exact List.prefix_append _ _
  rw [Path.relativeTo?, if_pos ⟨hanchor, hprefix⟩, hparts, List.drop_left]

theorem relativeTo?_of_outside
    (h : ¬ (target.anchor = root.anchor ∧ root.parts <+: target.parts)) :
    root.relativeTo? target = none := by
  simp only [Path.relativeTo?, List.isPrefixOf_iff_prefix, if_neg h]

end Below

/-! ## Suffixes -/

/-- The suffix of a name is its last dot with what follows, if there is
something on either side of that dot. -/
inductive SplitsOff (name : String) : String → String → Prop
  | dotted (stem tail : String) (hname : name = stem ++ ("." ++ tail)) (hstem : stem ≠ "")
      (htail : tail ≠ "") (hlast : '.' ∉ tail.toList) : SplitsOff name stem ("." ++ tail)
  | whole (hnone : ∀ stem tail, name = stem ++ ("." ++ tail) → '.' ∉ tail.toList →
      stem = "" ∨ tail = "") : SplitsOff name name ""

theorem toList_dotted (stem tail : String) :
    (stem ++ ("." ++ tail)).toList = stem.toList ++ '.' :: tail.toList := by
  rw [String.toList_append, String.toList_append]
  rfl

theorem exists_last_dot {name : String} (h : '.' ∈ name.toList) :
    ∃ stem tail, name = stem ++ ("." ++ tail) ∧ '.' ∉ tail.toList := by
  obtain ⟨front, back, hreverse, hfront⟩ := List.eq_append_cons_of_mem (List.mem_reverse.mpr h)
  have hname := congrArg List.reverse hreverse
  refine ⟨String.ofList back.reverse, String.ofList front.reverse, ?_, by simpa using hfront⟩
  rw [← String.toList_inj, toList_dotted]
  simpa using hname

theorem ne_dot_of_mem_reverse {cs : List Char} (h : '.' ∉ cs) :
    ∀ c ∈ cs.reverse, decide (c ≠ '.') = true := by
  intro c hc
  rw [decide_eq_true_eq]
  rintro rfl
  exact h (List.mem_reverse.mp hc)

theorem splitSuffix_of_not_mem {name : List Char} (h : '.' ∉ name) :
    Path.splitSuffix name = (name, []) := by
  unfold Path.splitSuffix
  rw [List.takeWhile_eq_self_iff.mpr (ne_dot_of_mem_reverse h), List.reverse_reverse, if_neg]
  exact fun hsplit => Nat.lt_irrefl _ hsplit.1

/-- A name is split before its last dot or not at all. -/
theorem splitSuffix_append {tail : List Char} (hlast : '.' ∉ tail) (stem : List Char) :
    Path.splitSuffix (stem ++ '.' :: tail) =
      if tail ≠ [] ∧ stem ≠ [] then (stem, '.' :: tail) else (stem ++ '.' :: tail, []) := by
  have htail : ((stem ++ '.' :: tail).reverse.takeWhile (· ≠ '.')).reverse = tail := by
    rw [List.reverse_append, List.reverse_cons, List.append_assoc,
      List.takeWhile_append_of_pos (ne_dot_of_mem_reverse hlast), List.singleton_append,
      List.takeWhile_cons_of_neg (by simp), List.append_nil, List.reverse_reverse]
  have hlength : (stem ++ '.' :: tail).length - tail.length - 1 = stem.length := by
    rw [List.length_append, List.length_cons]
    omega
  have hlt : tail.length < (stem ++ '.' :: tail).length := by
    rw [List.length_append, List.length_cons]
    omega
  unfold Path.splitSuffix
  simp only [htail, hlength, List.take_left, hlt, true_and]

theorem splitSuffix_dotted {tail : String} (hlast : '.' ∉ tail.toList) (stem : String) :
    Path.splitSuffix (stem ++ ("." ++ tail)).toList =
      if tail ≠ "" ∧ stem ≠ "" then (stem.toList, ("." ++ tail).toList)
      else ((stem ++ ("." ++ tail)).toList, "".toList) := by
  rw [toList_dotted, splitSuffix_append hlast, String.toList_append]
  simp only [ne_eq, String.toList_eq_nil_iff]
  rfl

/-- A name has one suffix, and is split before it. -/
theorem SplitsOff.splitSuffix_eq {name stem suffix : String} (h : SplitsOff name stem suffix) :
    Path.splitSuffix name.toList = (stem.toList, suffix.toList) := by
  cases h with
  | dotted stem tail hname hstem htail hlast =>
    rw [hname, splitSuffix_dotted hlast, if_pos ⟨htail, hstem⟩]
  | whole hnone =>
    by_cases hdot : '.' ∈ name.toList
    · obtain ⟨stem, tail, hname, hlast⟩ := exists_last_dot hdot
      rw [hname, splitSuffix_dotted hlast, if_neg]
      rintro ⟨htail, hstem⟩
      exact (hnone stem tail hname hlast).elim hstem htail
    · exact splitSuffix_of_not_mem hdot

theorem exists_splitsOff (name : String) : ∃ stem suffix, SplitsOff name stem suffix := by
  by_cases hsplit : ∃ stem tail, name = stem ++ ("." ++ tail) ∧ '.' ∉ tail.toList ∧
      stem ≠ "" ∧ tail ≠ ""
  · obtain ⟨stem, tail, hname, hlast, hstem, htail⟩ := hsplit
    exact ⟨stem, "." ++ tail, .dotted stem tail hname hstem htail hlast⟩
  · refine ⟨name, "", .whole fun stem tail hname hlast => ?_⟩
    by_contra hne
    exact hsplit ⟨stem, tail, hname, hlast, not_or.mp hne⟩

theorem SplitsOff.append {name stem suffix : String} (h : SplitsOff name stem suffix) :
    name = stem ++ suffix := by
  cases h with
  | dotted stem tail hname => exact hname
  | whole => simp

theorem SplitsOff.stem_ne {name stem suffix : String} (h : SplitsOff name stem suffix)
    (hname : name ≠ "") : stem ≠ "" := by
  cases h with
  | dotted stem tail _ hstem => exact hstem
  | whole => exact hname

/-- What files are compiled to is a suffix that a path can take. -/
def AreSuffixes (suffixes : Table String String) : Prop :=
  ∀ suffix s, suffixes.get? suffix = some s → s ≠ "" ∧ Path.isSuffix s = true

/-- The suffix of a compiled unit: what the suffix of the file is mapped to, or
itself. -/
def unitSuffix (suffixes : Table String String) (suffix : String) : String :=
  (suffixes.get? suffix).getD suffix

/-- A suffix is a dot and more, without a slash. -/
theorem exists_of_isSuffix {s : String} (hne : s ≠ "") (h : Path.isSuffix s = true) :
    ∃ c cs, s.toList = '.' :: c :: cs ∧ '/' ∉ s.toList := by
  simp only [Path.isSuffix, Bool.and_eq_true, Bool.or_eq_true, decide_eq_true_eq,
    Bool.not_eq_true', List.contains_eq_mem, decide_eq_false_iff_not, hne, false_or] at h
  obtain ⟨hslash, hdot, hlong⟩ := h
  obtain ⟨rest, hrest⟩ := List.head?_eq_some_iff.mp hdot
  cases rest with
  | nil => exact absurd (String.toList_inj.mp hrest) hlong
  | cons c cs => exact ⟨c, cs, hrest, hslash⟩

/-- A name with its suffix mapped is a name. -/
theorem isEntryName_unit {suffixes : Table String String} (hsuffixes : AreSuffixes suffixes)
    {name stem suffix : String} (hname : IsEntryName name) (h : SplitsOff name stem suffix) :
    IsEntryName (stem ++ unitSuffix suffixes suffix) := by
  unfold unitSuffix
  cases hmapped : suffixes.get? suffix with
  | none =>
    rw [Option.getD_none, ← h.append]
    exact hname
  | some s =>
    rw [Option.getD_some]
    obtain ⟨hne, hvalid⟩ := hsuffixes suffix s hmapped
    obtain ⟨c, cs, hs, hslash⟩ := exists_of_isSuffix hne hvalid
    obtain ⟨d, ds, hstem⟩ := List.exists_cons_of_ne_nil
      (fun hnil => h.stem_ne hname.ne_empty (String.toList_eq_nil_iff.mp hnil))
    -- A stem, a dot and something more: longer than two dots.
    apply isEntryName_of_length
    · rw [String.toList_append, hstem, hs, List.length_append, List.length_cons, List.length_cons,
        List.length_cons]
      omega
    · rw [String.toList_append, List.mem_append, not_or]
      refine ⟨?_, hslash⟩
      intro hmem
      apply hname.noSlash
      rw [h.append, String.toList_append]
      exact List.mem_append_left _ hmem

/-- Only the suffix of the last part is mapped. -/
theorem objectIdentity_eq {suffixes : Table String String} (hsuffixes : AreSuffixes suffixes)
    (above : List String) {name stem suffix : String} (hname : name ≠ "")
    (h : SplitsOff name stem suffix) :
    BuildIndex.objectIdentity suffixes ⟨.relative, above ++ [name]⟩ =
      .ok ⟨.relative, above ++ [stem ++ unitSuffix suffixes suffix]⟩ := by
  have hlast : (Path.mk .relative (above ++ [name])).name = name := by simp [Path.name]
  unfold BuildIndex.objectIdentity Path.suffix unitSuffix
  rw [hlast, h.splitSuffix_eq, String.ofList_toList]
  cases hmapped : suffixes.get? suffix with
  | none => rw [Option.getD_none, ← h.append]
  | some s =>
    obtain ⟨_, hvalid⟩ := hsuffixes suffix s hmapped
    simp only [Path.withSuffix, hvalid, hlast, if_neg hname, h.splitSuffix_eq]
    simp

/-! ## Keys -/

namespace BuildIndex

/-- The keys that a compiled unit in the directories `above` is looked up under:
its own, and one for every directory, innermost first. -/
def fileKeys (above : List String) (unit : String) : List Key :=
  ⟨"unit_pc", "/".intercalate (above ++ [unit])⟩ ::
    (List.range' 1 above.length).reverse.map fun n =>
      ⟨"subdir_pc", "/".intercalate (above.take n)⟩

section FileKeys

variable {above : List String} {unit : String}

theorem directory_of_mem_range {n : Nat} (hn : n ∈ (List.range' 1 above.length).reverse) :
    n ≤ above.length ∧ above.take n ≠ [] := by
  have hrange := List.mem_range'_1.mp (List.mem_reverse.mp hn)
  refine ⟨by omega, ?_⟩
  rw [← List.length_pos_iff, List.length_take]
  omega

theorem isEntryName_of_mem_concat (habove : ∀ part ∈ above, IsEntryName part)
    (hunit : IsEntryName unit) : ∀ part ∈ above ++ [unit], IsEntryName part := by
  intro part hpart
  rcases List.mem_append.mp hpart with hpart | hpart
  · exact habove part hpart
  · rw [List.mem_singleton.mp hpart]
    exact hunit

theorem lookupKeys_eq_fileKeys (habove : ∀ part ∈ above, IsEntryName part)
    (hunit : IsEntryName unit) :
    lookupKeys ⟨.relative, above ++ [unit]⟩ = fileKeys above unit := by
  have hvisible : ∀ part ∈ above ++ [unit], Path.isVisible part = true :=
    fun part hpart => (isEntryName_of_mem_concat habove hunit part hpart).visible
  have htext : ∀ parts : List String, parts ≠ [] →
      (Path.mk .relative parts).text = "/".intercalate parts := by
    intro parts hparts
    simp [Path.text, hparts, Anchor.text]
  rw [lookupKeys_eq rfl hvisible, fileKeys, Key.unit, htext _ (by simp)]
  congr 1
  simp only [List.length_append, List.length_singleton, Nat.add_sub_cancel]
  apply List.map_congr_left
  intro n hn
  obtain ⟨hle, hne⟩ := directory_of_mem_range hn
  rw [Key.directory, List.take_append_of_le_length hle, htext _ hne]

/-- A key is written as names between slashes. -/
theorem isEntryName_of_mem_fileKeys (habove : ∀ part ∈ above, IsEntryName part)
    (hunit : IsEntryName unit) :
    ∀ key ∈ fileKeys above unit, ∀ part ∈ slashParts key.path, IsEntryName part := by
  have hparts : ∀ parts : List String, parts ≠ [] → (∀ part ∈ parts, IsEntryName part) →
      ∀ part ∈ slashParts ("/".intercalate parts), IsEntryName part := by
    intro parts hne hnames
    rw [slashParts_intercalate hne fun part hpart => (hnames part hpart).noSlash]
    exact hnames
  intro key hkey
  rcases List.mem_cons.mp hkey with rfl | hkey
  · exact hparts _ (by simp) (isEntryName_of_mem_concat habove hunit)
  · obtain ⟨n, hn, rfl⟩ := List.mem_map.mp hkey
    exact hparts _ (directory_of_mem_range hn).2 fun part hpart =>
      habove part (List.mem_of_mem_take hpart)

/-- No two keys are the same: the paths of the directories differ in length. -/
theorem nodup_fileKeys (habove : ∀ part ∈ above, IsEntryName part) :
    (fileKeys above unit).Nodup := by
  refine List.nodup_cons.mpr ⟨?_, List.Nodup.map_on ?_ ?_⟩
  · intro hmem
    obtain ⟨n, _, hkey⟩ := List.mem_map.mp hmem
    exact absurd (Key.mk.inj hkey).1 (by decide)
  · intro n hn m hm hkey
    obtain ⟨hn, hnne⟩ := directory_of_mem_range hn
    obtain ⟨hm, hmne⟩ := directory_of_mem_range hm
    have hslash : ∀ k, ∀ part ∈ above.take k, '/' ∉ part.toList :=
      fun k part hpart => (habove part (List.mem_of_mem_take hpart)).noSlash
    have htake := intercalate_slash_inj hnne hmne (hslash n) (hslash m) (Key.mk.inj hkey).2
    have hlength := congrArg List.length htake
    rw [List.length_take, List.length_take] at hlength
    omega
  · exact List.nodup_reverse.mpr List.nodup_range'

end FileKeys

end BuildIndex

/-! ## Files in a project -/

open BuildIndex

/-- The compiled unit of a file, from what its path leads to and the two paths
in lexical form. -/
def placed (suffixes : Table String String) (found : Except FileFault Status)
    (root target : Path) : Except LocateError Path :=
  match found with
  | .error .nameTooLong => .error (.nameTooLong target.text)
  | .error _ => .error (.noSuchFile target.text)
  | .ok _ =>
    match root.relativeTo? target with
    | none => .error (.outsideRoot root.text target.text)
    | some relative => (objectIdentity suffixes relative).mapError .suffix

theorem objectFile_eq (s : Scanner) (w : Workspace) :
    s.objectFile w =
      placed s.suffixes (w.status? (w.absolute s.file).text) (w.absolute s.root)
        (w.absolute s.file) := rfl

section Placed

variable (b : BuildSystem) (file : String) {w : Workspace} {root target : Path}

theorem objectFile_eq_placed (hplace : ∀ part ∈ w.directory.parts, IsEntryName part) :
    (b.scanner file).objectFile w =
      placed b.suffixes (w.status? (lexicalForm w.directory.parts file).text)
        (lexicalForm w.directory.parts b.projectRoot) (lexicalForm w.directory.parts file) := by
  have hroot : w.absolute (b.scanner file).root = lexicalForm w.directory.parts b.projectRoot :=
    Workspace.absolute_ofString hplace b.projectRoot
  have htarget : w.absolute (b.scanner file).file = lexicalForm w.directory.parts file :=
    Workspace.absolute_ofString hplace file
  have hplaced := objectFile_eq (b.scanner file) w
  rw [hroot, htarget] at hplaced
  exact hplaced

theorem placed_of_error (suffixes : Table String String) (fault : FileFault) :
    placed suffixes (.error fault) root target =
      .error (if fault = .nameTooLong then .nameTooLong target.text
        else .noSuchFile target.text) := by
  cases fault <;> rfl

/-- What a scanner makes of the path of its file, once that path and the one of
the root are in lexical form. -/
structure BuildSystem.Places (w : Workspace) (root target : Path) : Prop where
  /-- The path leads nowhere. -/
  missing : ∀ fault, w.status? target.text = .error fault →
    (b.scanner file).objectFile w = .error
      (if fault = .nameTooLong then .nameTooLong target.text else .noSuchFile target.text)
  /-- The file is there, but does not have the slashes and all parts of the root
  in front. -/
  outside : ∀ status, w.status? target.text = .ok status →
    ¬ (target.anchor = root.anchor ∧ root.parts <+: target.parts) →
    (b.scanner file).objectFile w = .error (.outsideRoot root.text target.text)
  /-- The file is there and below the root. -/
  inside : ∀ status above name, w.status? target.text = .ok status →
    target.anchor = root.anchor → target.parts = root.parts ++ (above ++ [name]) →
    AreSuffixes b.suffixes →
    ∃ stem suffix, SplitsOff name stem suffix ∧
      (b.scanner file).keys w = .ok (fileKeys above (stem ++ unitSuffix b.suffixes suffix)) ∧
      (fileKeys above (stem ++ unitSuffix b.suffixes suffix)).Nodup ∧
      ∀ key ∈ fileKeys above (stem ++ unitSuffix b.suffixes suffix),
        ∀ part ∈ slashParts key.path, IsEntryName part
  /-- The spelling does not matter, nor does the directory that relative paths
  start from. -/
  respelled : ∀ (b' : BuildSystem) (file' : String) (w' : Workspace), w'.files = w.files →
    (∀ part ∈ w'.directory.parts, IsEntryName part) → b'.suffixes = b.suffixes →
    lexicalForm w'.directory.parts b'.projectRoot = root →
    lexicalForm w'.directory.parts file' = target →
    (b'.scanner file').objectFile w' = (b.scanner file).objectFile w ∧
      (b'.scanner file').keys w' = (b.scanner file).keys w

/-- A scanner goes by the lexical forms of its paths: a file that is missing or
outside the root is reported as that, unless its path is too long, and a file
below the root has one key for its unit and one for every directory in
between. -/
theorem a_file_is_placed_by_its_path_unless_that_is_too_long
    (hplace : ∀ part ∈ w.directory.parts, IsEntryName part) :
    b.Places file w (lexicalForm w.directory.parts b.projectRoot)
      (lexicalForm w.directory.parts file) where
  missing fault hfault := by
    rw [objectFile_eq_placed b file hplace, hfault, placed_of_error]
  outside status hstatus houtside := by
    rw [objectFile_eq_placed b file hplace, hstatus]
    simp only [placed, relativeTo?_of_outside houtside]
  inside status above name hstatus hanchor hparts hsuffixes := by
    have hnames : ∀ part ∈ above ++ [name], IsEntryName part := by
      intro part hpart
      apply isEntryName_of_mem_lexicalForm hplace file
      rw [hparts]
      exact List.mem_append_right _ hpart
    have habove := fun part hpart => hnames part (List.mem_append_left _ hpart)
    have hname := hnames name (List.mem_append_right _ List.mem_cons_self)
    obtain ⟨stem, suffix, hsplit⟩ := exists_splitsOff name
    have hobject := objectIdentity_eq hsuffixes above hname.ne_empty hsplit
    have hunit := isEntryName_unit hsuffixes hname hsplit
    refine ⟨stem, suffix, hsplit, ?_, nodup_fileKeys habove,
      isEntryName_of_mem_fileKeys habove hunit⟩
    have hfile : (b.scanner file).objectFile w =
        .ok ⟨.relative, above ++ [stem ++ unitSuffix b.suffixes suffix]⟩ := by
      rw [objectFile_eq_placed b file hplace, hstatus]
      simp only [placed, relativeTo?_of_below hanchor hparts, hobject]
      rfl
    rw [Scanner.keys, hfile, Except.map, lookupKeys_eq_fileKeys habove hunit]
  respelled b' file' w' hfiles hplace' hsuffixes hroot htarget := by
    have hstatus := Workspace.status?_of_isAbsolute hfiles
      (isAbsolute_lexicalForm w.directory.parts file)
    have hsame : (b'.scanner file').objectFile w' = (b.scanner file).objectFile w := by
      rw [objectFile_eq_placed b' file' hplace', objectFile_eq_placed b file hplace, hroot,
        htarget, hsuffixes, hstatus]
    exact ⟨hsame, by rw [Scanner.keys, Scanner.keys, hsame]⟩

end Placed

/-- A file in a directory is found by a path with detours, and so is the
condition of the directory. -/
theorem a_file_with_detours_has_its_keys :
    (∀ part ∈ smallProject.directory.parts, IsEntryName part) ∧
    (smallBuild.scanner "lib//./x/../a.c").keys smallProject =
      .ok [⟨"unit_pc", "lib/a.o"⟩, ⟨"subdir_pc", "lib"⟩] := by
  have hplace : ∀ part ∈ smallProject.directory.parts, IsEntryName part := by
    simp [smallProject, project, Location.root, Location.parts]
  have htarget : lexicalForm smallProject.directory.parts "lib//./x/../a.c" =
      ⟨.root, ["lib"] ++ ["a.c"]⟩ := by decide +kernel
  have hroot : lexicalForm smallProject.directory.parts smallBuild.projectRoot =
      ⟨.root, []⟩ := by decide +kernel
  have hstatus : smallProject.status? (Path.mk .root (["lib"] ++ ["a.c"])).text = .ok ⟨0, 0⟩ := by
    rw [show (Path.mk .root (["lib"] ++ ["a.c"])).text = "/lib/a.c" by decide +kernel]
    exact status_project _
  have hsuffixes : AreSuffixes smallBuild.suffixes := by
    intro suffix s hs
    rw [(get?_defaultSuffixes hs).2]
    decide
  have hplaces := a_file_is_placed_by_its_path_unless_that_is_too_long smallBuild
    "lib//./x/../a.c" hplace
  rw [htarget, hroot] at hplaces
  obtain ⟨stem, suffix, hsplit, hkeys, -, -⟩ :=
    hplaces.inside ⟨0, 0⟩ ["lib"] "a.c" hstatus rfl rfl hsuffixes
  have hstem : (['a'], ['.', 'c']) = (stem.toList, suffix.toList) := hsplit.splitSuffix_eq
  obtain rfl : "a" = stem := String.toList_inj.mp (Prod.ext_iff.mp hstem).1
  obtain rfl : ".c" = suffix := String.toList_inj.mp (Prod.ext_iff.mp hstem).2
  have hunit : unitSuffix smallBuild.suffixes ".c" = ".o" := by decide
  rw [hunit] at hkeys
  exact ⟨hplace, hkeys⟩

/-! ## Names that are too long -/

/-- Whether there can be such an entry at all is not told: its name is not
looked up. -/
theorem status?_of_longName (w : Workspace) {name : String} (hname : IsEntryName name)
    (hlong : FileSystem.nameLimit < name.utf8ByteSize)
    (hpath : FileSystem.pathFault? (Path.mk .root [name]).text = none) :
    w.status? (Path.mk .root [name]).text = .error .nameTooLong := by
  have htext : (Path.mk .root [name]).text = "/".intercalate ["", name] := by
    simp [Path.text, Anchor.text, String.intercalate_cons_cons]
  have hslash : ∀ part ∈ ["", name], '/' ∉ part.toList := by
    simp [hname.noSlash]
  have hparts : slashParts (Path.mk .root [name]).text = ["", name] := by
    rw [htext, slashParts_intercalate (by simp) hslash]
  unfold Workspace.status? FileSystem.status? FileSystem.open?
  rw [hpath, hparts, FileSystem.walk_slash, FileSystem.walk_tooLong hname.shown hname.notUp hlong]
  rfl

/-- A name of so many letters. -/
def lettered (n : Nat) : String := String.ofList (List.replicate n 'n')

theorem utf8ByteSize_lettered (n : Nat) : (lettered n).utf8ByteSize = n := by
  have hone : 'n'.utf8Size = 1 := by decide
  rw [lettered, String.utf8ByteSize_ofList]
  induction n with
  | zero => rfl
  | succ n ih => rw [List.replicate_succ, String.utf8Len_cons, ih, hone]

theorem eq_of_mem_lettered {n : Nat} {c : Char} (h : c ∈ (lettered n).toList) : c = 'n' := by
  rw [lettered, String.toList_ofList] at h
  exact List.eq_of_mem_replicate h

theorem isEntryName_lettered {n : Nat} (h : 2 < n) : IsEntryName (lettered n) := by
  apply isEntryName_of_length
  · rwa [lettered, String.toList_ofList, List.length_replicate]
  · intro hslash
    exact absurd (eq_of_mem_lettered hslash) (by decide)

theorem pathFault?_lettered {n : Nat} (h : n < FileSystem.pathLimit) :
    FileSystem.pathFault? (Path.mk .root [lettered n]).text = none := by
  have htext : (Path.mk .root [lettered n]).text = "/" ++ lettered n := by
    simp [Path.text, Anchor.text]
  have hsize : ("/" ++ lettered n).utf8ByteSize = 1 + n := by
    rw [String.utf8ByteSize_append, utf8ByteSize_lettered]
    rfl
  have hnull : FileSystem.hasNull ("/" ++ lettered n) = false := by
    rw [FileSystem.hasNull, String.toList_append, List.contains_eq_mem, decide_eq_false_iff_not,
      List.mem_append, not_or]
    exact ⟨by decide, fun hmem => absurd (eq_of_mem_lettered hmem) (by decide)⟩
  have hne : "/" ++ lettered n ≠ "" := by
    intro hempty
    rw [hempty, String.utf8ByteSize_empty] at hsize
    omega
  rw [htext, FileSystem.pathFault?, hnull, if_neg (by decide), if_neg hne, hsize,
    if_neg (by omega)]

/-- No directory has an entry with a name of that many letters, but the file is
not reported as missing. -/
theorem a_name_that_is_too_long_is_not_reported_as_missing :
    ¬ ∀ (b : BuildSystem) (file : String) (w : Workspace) (fault : FileFault),
      (∀ part ∈ w.directory.parts, IsEntryName part) →
      w.status? (lexicalForm w.directory.parts file).text = .error fault →
      (b.scanner file).objectFile w =
        .error (.noSuchFile (lexicalForm w.directory.parts file).text) := by
  have hname : IsEntryName (lettered 256) := isEntryName_lettered (by decide)
  have hlong : FileSystem.nameLimit < (lettered 256).utf8ByteSize := by
    rw [utf8ByteSize_lettered]
    decide
  have hform : lexicalForm Workspace.bare.directory.parts (lettered 256) =
      ⟨.root, [lettered 256]⟩ := lexicalForm_name hname []
  have hplace : ∀ part ∈ Workspace.bare.directory.parts, IsEntryName part := by
    simp [Workspace.bare, Location.root, Location.parts]
  have hstatus := status?_of_longName .bare hname hlong (pathFault?_lettered (by decide))
  intro h
  have hmissing := h smallBuild (lettered 256) .bare .nameTooLong hplace
  rw [objectFile_eq_placed _ _ hplace, hform, hstatus] at hmissing
  cases hmissing rfl

end Variability
