-- Lexical forms of paths: where a path leads as written, step by step and
-- without a look at any file.
import Mathlib.Data.String.Basic
import Variability.Proofs.Pieces
import Variability.Workspace

namespace Variability

/-! ## Names between slashes -/

/-- What an entry of a directory may be called. -/
structure IsEntryName (name : String) : Prop where
  visible : Path.isVisible name = true
  notUp : name ≠ ".."
  noSlash : '/' ∉ name.toList

theorem not_isVisible_iff {part : String} :
    ¬ Path.isVisible part = true ↔ part = "" ∨ part = "." := by
  simp only [Path.isVisible, Bool.and_eq_true, decide_eq_true_eq, not_and_or, not_not]

theorem IsEntryName.shown {name : String} (h : IsEntryName name) : ¬ (name = "" ∨ name = ".") :=
  fun hnone => not_isVisible_iff.mpr hnone h.visible

theorem IsEntryName.ne_empty {name : String} (h : IsEntryName name) : name ≠ "" :=
  fun hempty => h.shown (Or.inl hempty)

/-- What is longer than two dots can be a name. -/
theorem isEntryName_of_length {name : String} (hlong : 2 < name.toList.length)
    (hslash : '/' ∉ name.toList) : IsEntryName name := by
  have hne : ∀ s : String, s.toList.length ≤ 2 → name ≠ s := by
    rintro s hs rfl
    omega
  refine ⟨?_, hne ".." (by decide), hslash⟩
  simp [Path.isVisible, hne "" (by decide), hne "." (by decide)]

theorem slashParts_eq (s : String) : slashParts s = (s.toList.splitOn '/').map String.ofList := by
  rw [slashParts, Text.cutWhere_eq_splitOn]

theorem noSlash_of_mem_slashParts {s part : String} (h : part ∈ slashParts s) :
    '/' ∉ part.toList := by
  rw [slashParts_eq] at h
  obtain ⟨piece, hpiece, rfl⟩ := List.mem_map.mp h
  rw [String.toList_ofList]
  exact Text.not_mem_of_mem_splitOn hpiece

/-- Parts that are joined with slashes are what lies between the slashes. -/
theorem slashParts_intercalate {parts : List String} (hparts : parts ≠ [])
    (hslash : ∀ part ∈ parts, '/' ∉ part.toList) :
    slashParts ("/".intercalate parts) = parts := by
  have hfree : ∀ piece ∈ parts.map String.toList, '/' ∉ piece := by
    intro piece hpiece
    obtain ⟨part, hpart, rfl⟩ := List.mem_map.mp hpiece
    exact hslash part hpart
  rw [slashParts_eq, String.toList_intercalate, show "/".toList = ['/'] from rfl,
    List.splitOn_intercalate '/' hfree (by simpa using hparts), List.map_map]
  simp [Function.comp_def]

theorem intercalate_slash_inj {parts others : List String} (hparts : parts ≠ [])
    (hothers : others ≠ []) (hp : ∀ part ∈ parts, '/' ∉ part.toList)
    (ho : ∀ part ∈ others, '/' ∉ part.toList)
    (h : "/".intercalate parts = "/".intercalate others) : parts = others := by
  rw [← slashParts_intercalate hparts hp, h, slashParts_intercalate hothers ho]

/-! ## Lexical forms -/

/-- One step along a written path. An empty part and a dot lead nowhere, two
dots lead up if there is anything above, and everything else leads down. -/
def stepAlong (here : List String) (part : String) : List String :=
  if part = "" ∨ part = "." then here
  else if part = ".." then here.dropLast
  else here ++ [part]

/-- Where a written path leads from a directory, step by step and without a look
at any file. A path with leading slashes starts anew. -/
def lexicalForm (directory : List String) (s : String) : Path :=
  match Path.anchorOf s with
  | .relative => ⟨.root, (slashParts s).foldl stepAlong directory⟩
  | anchor => ⟨anchor, (slashParts s).foldl stepAlong []⟩

theorem foldl_stepAlong_visible (parts here : List String) :
    (parts.filter Path.isVisible).foldl stepAlong here = parts.foldl stepAlong here := by
  rw [List.foldl_filter]
  congr 1
  funext here part
  split
  · rfl
  · rename_i hpart
    rw [stepAlong, if_pos (not_isVisible_iff.mp hpart)]

theorem stepAlong_name {name : String} (h : IsEntryName name) (here : List String) :
    stepAlong here name = here ++ [name] := by
  rw [stepAlong, if_neg h.shown, if_neg h.notUp]

/-- Names alone lead straight down. -/
theorem foldl_stepAlong_names {names : List String} (h : ∀ name ∈ names, IsEntryName name)
    (here : List String) : names.foldl stepAlong here = here ++ names := by
  induction names generalizing here with
  | nil => simp
  | cons name rest ih =>
    rw [List.foldl_cons, stepAlong_name (h name List.mem_cons_self),
      ih fun part hpart => h part (List.mem_cons_of_mem _ hpart)]
    simp

/-- A way from a directory passes through directories. -/
theorem isEntryName_of_mem_foldl {parts here : List String}
    (hparts : ∀ part ∈ parts, '/' ∉ part.toList) (hhere : ∀ part ∈ here, IsEntryName part) :
    ∀ part ∈ parts.foldl stepAlong here, IsEntryName part := by
  induction parts generalizing here with
  | nil => exact hhere
  | cons first rest ih =>
    rw [List.foldl_cons]
    refine ih (fun part hpart => hparts part (List.mem_cons_of_mem _ hpart)) ?_
    intro part hpart
    unfold stepAlong at hpart
    split at hpart
    · exact hhere part hpart
    · rename_i hvisible
      split at hpart
      · exact hhere part (List.dropLast_subset _ hpart)
      · rename_i hdown
        rcases List.mem_append.mp hpart with hpart | hpart
        · exact hhere part hpart
        · rw [List.mem_singleton.mp hpart]
          refine ⟨?_, hdown, hparts first List.mem_cons_self⟩
          by_contra hnone
          exact hvisible (not_isVisible_iff.mp hnone)

/-- Below a root the normal form is reached step by step: what is kept never has
two dots, so they always take back what was kept last. -/
theorem normalParts_eq_foldl {kept parts : List String} (hkept : ".." ∉ kept)
    (hparts : ∀ part ∈ parts, Path.isVisible part = true) :
    Path.normalParts true kept parts = parts.foldl stepAlong kept.reverse := by
  induction parts generalizing kept with
  | nil => rfl
  | cons part rest ih =>
    have hrest := fun p hp => hparts p (List.mem_cons_of_mem part hp)
    rw [List.foldl_cons]
    unfold Path.normalParts
    by_cases hup : part = ".."
    · subst hup
      rw [if_pos rfl]
      cases kept with
      | nil => exact ih List.not_mem_nil hrest
      | cons top below =>
        rw [List.mem_cons, not_or] at hkept
        obtain ⟨htop, hbelow⟩ := hkept
        simp only [if_neg (Ne.symm htop)]
        rw [ih hbelow hrest, stepAlong, if_neg (by decide), if_pos rfl, List.reverse_cons,
          List.dropLast_concat]
    · have hvisible : ¬ (part = "" ∨ part = ".") := fun hnone =>
        not_isVisible_iff.mpr hnone (hparts part List.mem_cons_self)
      rw [if_neg hup, ih (by simpa [Ne.symm hup] using hkept) hrest, stepAlong, if_neg hvisible,
        if_neg hup, List.reverse_cons]

/-- A name leads into the directory. -/
theorem lexicalForm_name {name : String} (h : IsEntryName name) (directory : List String) :
    lexicalForm directory name = ⟨.root, directory ++ [name]⟩ := by
  have hanchor : Path.anchorOf name = .relative := by
    have hnone : name.toList.takeWhile (· = '/') = [] := by
      rw [List.takeWhile_eq_nil_iff]
      intro hlength hslash
      exact h.noSlash (of_decide_eq_true hslash ▸ List.getElem_mem hlength)
    rw [Path.anchorOf, hnone]
    rfl
  have hparts : slashParts name = [name] := by
    rw [slashParts_eq, List.splitOn_eq_singleton h.noSlash]
    simp
  unfold lexicalForm
  rw [hanchor, hparts]
  exact congrArg (Path.mk .root) (stepAlong_name h directory)

section Directory

variable {w : Workspace}

/-- In a directory that has a place, a path as written is made absolute step by
step. -/
theorem Workspace.absolute_ofString (hplace : ∀ part ∈ w.directory.parts, IsEntryName part)
    (s : String) : w.absolute (Path.ofString s) = lexicalForm w.directory.parts s := by
  have hsteps : ∀ here : List String, (∀ part ∈ here, IsEntryName part) →
      Path.normalParts true [] (here ++ (slashParts s).filter Path.isVisible) =
        (slashParts s).foldl stepAlong here := by
    intro here hhere
    rw [normalParts_eq_foldl List.not_mem_nil, List.reverse_nil, List.foldl_append,
      foldl_stepAlong_names hhere, List.nil_append, foldl_stepAlong_visible]
    intro part hpart
    rcases List.mem_append.mp hpart with hpart | hpart
    · exact (hhere part hpart).visible
    · exact (List.mem_filter.mp hpart).2
  unfold absolute lexicalForm Path.absoluteIn Path.normalize Path.ofString Path.isAbsolute
  cases Path.anchorOf s with
  | relative => simp [hsteps _ hplace]
  | root => simpa using hsteps [] (by simp)
  | doubleRoot => simpa using hsteps [] (by simp)

theorem isAbsolute_lexicalForm (directory : List String) (s : String) :
    (lexicalForm directory s).isAbsolute = true := by
  unfold lexicalForm
  cases Path.anchorOf s <;> rfl

theorem isEntryName_of_mem_lexicalForm (hplace : ∀ part ∈ w.directory.parts, IsEntryName part)
    (s : String) : ∀ part ∈ (lexicalForm w.directory.parts s).parts, IsEntryName part := by
  have hslash : ∀ part ∈ slashParts s, '/' ∉ part.toList := fun _ => noSlash_of_mem_slashParts
  unfold lexicalForm
  cases Path.anchorOf s with
  | relative => exact isEntryName_of_mem_foldl hslash hplace
  | root => exact isEntryName_of_mem_foldl hslash (by simp)
  | doubleRoot => exact isEntryName_of_mem_foldl hslash (by simp)

end Directory

/-! ## Where absolute paths lead -/

theorem anchorOf_cons_slash {s : String} {cs : List Char} (h : s.toList = '/' :: cs) :
    Path.anchorOf s ≠ .relative := by
  unfold Path.anchorOf
  rw [h, List.takeWhile_cons_of_pos (by simp), List.length_cons]
  split <;> simp_all

theorem Path.isAbsolute_ofString_text {p : Path} (h : p.isAbsolute = true) :
    (Path.ofString p.text).isAbsolute = true := by
  have hslash : ∃ cs, p.text.toList = '/' :: cs := by
    cases hanchor : p.anchor with
    | relative => simp [isAbsolute, hanchor] at h
    | root => simp [text, hanchor, Anchor.text, String.toList_append]
    | doubleRoot => simp [text, hanchor, Anchor.text, String.toList_append]
  obtain ⟨cs, hcs⟩ := hslash
  exact decide_eq_true (anchorOf_cons_slash hcs)

/-- What an absolute path leads to does not depend on the directory it is looked
up from. -/
theorem Workspace.status?_of_isAbsolute {w w' : Workspace} (hfiles : w'.files = w.files) {p : Path}
    (h : p.isAbsolute = true) : w'.status? p.text = w.status? p.text := by
  unfold status? FileSystem.status? FileSystem.open? FileSystem.startOf
  rw [hfiles, Path.isAbsolute_ofString_text h]
  rfl

/-! ## Null characters -/

end Variability
