-- Dialects side by side. The entries of an index are read once, and each
-- dialect of a reader gets the same terms; so what else a reader reads for
-- never shows in the conditions of a dialect.
import Variability.Proofs.BuildConditions
import Variability.Proofs.ScannerLife

namespace Variability.BuildIndex

/-! ## Entries without dialects -/

/-- The terms of an entry. A blank one has none. -/
def readEntry (numericConstants : Bool) (text : String) :
    Except ParseError (Option (List Term)) :=
  if Text.trim text.toList = [] then .ok none
  else (Condition.parseTerms numericConstants text).map some

/-- The conditions of an entry with these terms, one for each dialect. -/
def levelOf (dialects : List Dialect) : Option (List Term) → List Condition
  | none => []
  | some ts => dialects.map fun d => Condition.ofTerms d ts

theorem read_eq (r : ConditionReader) (text : String) :
    r.read text = (readEntry r.numericConstants text).map (levelOf r.dialects) := by
  unfold ConditionReader.read readEntry
  split
  · rfl
  · cases Condition.parseTerms r.numericConstants text <;> rfl

/-- The terms of several entries, or the error of the first that is
malformed. -/
def readEntries (numericConstants : Bool) (texts : List String) :
    Except ParseError (List (Option (List Term))) :=
  texts.mapM (readEntry numericConstants)

theorem readLevels_eq (r : ConditionReader) (texts : List String) :
    Scanner.readLevels r texts =
      (readEntries r.numericConstants texts).map (List.map (levelOf r.dialects)) := by
  induction texts with
  | nil => rfl
  | cons text texts ih =>
    unfold Scanner.readLevels
    unfold readEntries at ih ⊢
    rw [read_eq, ih, List.mapM_cons]
    cases readEntry r.numericConstants text with
    | error e => rfl
    | ok entry => cases texts.mapM (readEntry r.numericConstants) <;> rfl

/-! ## The conditions of one dialect -/

/-- Of an entry a dialect has as many conditions as it is listed, all alike. -/
theorem filter_levelOf (d : Dialect) (dialects : List Dialect) (entry : Option (List Term)) :
    (levelOf dialects entry).filter (fun l => l.dialect = d) =
      levelOf (List.replicate (dialects.count d) d) entry := by
  cases entry with
  | none => rfl
  | some ts =>
    have hlisted : dialects.filter (fun e => decide (e = d)) =
        List.replicate (dialects.count d) d := List.filter_eq d
    unfold levelOf
    rw [List.filter_map, ← hlisted]
    rfl

/-- Only how often its own dialect is listed matters to a condition. -/
theorem combineLevels_levelOf (entries : List (Option (List Term))) (dialects : List Dialect)
    (pc : Condition) :
    combineLevels (entries.map (levelOf dialects)) pc = combineLevels
      (entries.map (levelOf (List.replicate (dialects.count pc.dialect) pc.dialect))) pc := by
  rw [combineLevels_filter, List.map_map]
  congr 2
  funext entry
  exact filter_levelOf pc.dialect dialects entry

namespace Scanner

/-! ## Entries that are located -/

/-- The terms of the entries of a file, which no dialect has a part in. -/
def entries (s : Scanner) (w : Workspace) : Except LocateError (List (Option (List Term))) :=
  match s.keys w with
  | .error e => .error e
  | .ok keys =>
    match (scan w s.index.text keys).1 with
    | .error e => .error (.index e)
    | .ok found =>
      (readEntries s.reader.numericConstants (foundTexts keys found)).mapError .condition

theorem lookUp_eq (s : Scanner) (w : Workspace) :
    (s.lookUp w).1.map Prod.fst = (s.entries w).map (List.map (levelOf s.reader.dialects)) := by
  unfold lookUp entries
  cases s.keys w with
  | error e => rfl
  | ok keys =>
    cases hscan : scan w s.index.text keys with
    | mk answer events =>
      cases answer with
      | error e => simp only [hscan, Except.map]
      | ok found =>
        simp only [hscan, readLevels_eq]
        cases readEntries s.reader.numericConstants (foundTexts keys found) <;> rfl

section Locating

variable (s : Scanner) (w : Workspace) (owner : Nat) (h : History)

/-- A scanner that has located nothing locates the entries that there are
now. -/
theorem answer_locate_unscanned :
    (s.locate w owner ⟨.unscanned, h⟩).answer =
      (s.entries w).map (List.map (levelOf s.reader.dialects)) := by
  rw [← lookUp_eq]
  unfold locate
  rcases hlook : s.lookUp w with ⟨_ | found, events⟩ <;> rfl

/-- What it then keeps: nothing if it fails. -/
theorem state_locate_unscanned :
    (s.locate w owner ⟨.unscanned, h⟩).state.state =
      match s.entries w with
      | .error _ => .unscanned
      | .ok entries => .scanned (entries.map (levelOf s.reader.dialects)) := by
  have hlevels := lookUp_eq s w
  unfold locate
  cases hlook : s.lookUp w with
  | mk answer events =>
    rw [hlook] at hlevels
    cases answer with
    | error e => cases hentries : s.entries w <;> simp_all [Except.map]
    | ok found => cases hentries : s.entries w <;> simp_all [Except.map]

end Locating

/-! ## Two readers -/

/-- The scanner with another reader. -/
def withReader (s : Scanner) (r : ConditionReader) : Scanner := { s with reader := r }

/-- Two scanners keep nothing, or the same entries, each read for its
dialects. -/
inductive SameEntries (dialects dialects' : List Dialect) : ScanState → ScanState → Prop
  | unscanned : SameEntries dialects dialects' .unscanned .unscanned
  | scanned (entries : List (Option (List Term))) :
      SameEntries dialects dialects' (.scanned (entries.map (levelOf dialects)))
        (.scanned (entries.map (levelOf dialects')))

section Readers

variable {r r' : ConditionReader} (s : Scanner) (owner owner' : Nat) (w : Workspace)

theorem entries_withReader (hnumbers : r.numericConstants = r'.numericConstants) :
    (s.withReader r).entries w = (s.withReader r').entries w := by
  unfold entries keys objectFile withReader
  simp only [hnumbers]

/-- Two scanners that keep the same entries locate the same entries, or fail
with one error, and keep the same entries then. -/
theorem SameEntries.locate (hnumbers : r.numericConstants = r'.numericConstants)
    {before before' : Scanning}
    (h : SameEntries r.dialects r'.dialects before.state before'.state) :
    SameEntries r.dialects r'.dialects ((s.withReader r).locate w owner before).state.state
      ((s.withReader r').locate w owner' before').state.state ∧
    ∃ located : Except LocateError (List (Option (List Term))),
      ((s.withReader r).locate w owner before).answer =
        located.map (List.map (levelOf r.dialects)) ∧
      ((s.withReader r').locate w owner' before').answer =
        located.map (List.map (levelOf r'.dialects)) := by
  obtain ⟨state, history⟩ := before
  obtain ⟨state', history'⟩ := before'
  cases h with
  | unscanned =>
    refine ⟨?_, (s.withReader r).entries w, answer_locate_unscanned .., ?_⟩
    · rw [state_locate_unscanned, state_locate_unscanned, ← entries_withReader s w hnumbers]
      cases (s.withReader r).entries w with
      | error e => exact .unscanned
      | ok entries => exact .scanned entries
    · rw [entries_withReader s w hnumbers]
      exact answer_locate_unscanned ..
  | scanned entries => exact ⟨.scanned entries, .ok entries, rfl, rfl⟩

/-- Whatever one does with the files and asks both scanners, the two see the
same files and keep the same entries. -/
theorem sameEntries_after (hnumbers : r.numericConstants = r'.numericConstants)
    (h h' : History) (turns : List (Turn Request)) :
    ((opening w h).after ((s.withReader r).ask owner) turns).files =
      ((opening w h').after ((s.withReader r').ask owner') turns).files ∧
    SameEntries r.dialects r'.dialects
      ((opening w h).after ((s.withReader r).ask owner) turns).state.state
      ((opening w h').after ((s.withReader r').ask owner') turns).state.state := by
  induction turns using List.reverseRecOn with
  | nil =>
    simp only [Session.after, List.foldl_nil]
    exact ⟨rfl, .unscanned⟩
  | append_singleton turns t ih =>
    obtain ⟨hfiles, hstate⟩ := ih
    rw [Session.after_concat, Session.after_concat]
    cases t with
    | change apply => exact ⟨congrArg apply hfiles, hstate⟩
    | ask request =>
      refine ⟨hfiles, ?_⟩
      rw [Session.turn_ask, Session.turn_ask, ← hfiles]
      cases request with
      | keys => exact hstate
      | about q =>
        rw [ask_about, ask_about]
        exact (hstate.locate s owner owner' _ hnumbers).1

/-- Two scanners of one file differ in what else their readers read for, each of
them listing a dialect once. Both combine a condition of that dialect to the
same condition, term by term and literal by literal, or fail with the same
error: at the first request, and after whatever has been asked of both while the
files changed. -/
theorem other_dialects_never_show_in_a_combined_condition {d : Dialect}
    (hnumbers : r.numericConstants = r'.numericConstants) (hd : r.dialects.count d = 1)
    (hd' : r'.dialects.count d = 1) (h h' : History) (turns : List (Turn Request))
    {pc : Condition} (hpc : pc.dialect = d) :
    let x := (opening w h).after ((s.withReader r).ask owner) turns
    let x' := (opening w h').after ((s.withReader r').ask owner') turns
    x.files = x'.files ∧
      ((s.withReader r).combine x.files owner x.state pc).answer =
        ((s.withReader r').combine x'.files owner' x'.state pc).answer := by
  subst hpc
  intro x x'
  obtain ⟨hfiles, hstate⟩ : x.files = x'.files ∧
      SameEntries r.dialects r'.dialects x.state.state x'.state.state :=
    sameEntries_after s owner owner' w hnumbers h h' turns
  obtain ⟨_, located, hlocated, hlocated'⟩ := hstate.locate s owner owner' x.files hnumbers
  refine ⟨hfiles, ?_⟩
  unfold combine
  rw [← hfiles]
  simp only [hlocated, hlocated', map_comp]
  congr 1
  funext entries
  rw [combineLevels_levelOf, combineLevels_levelOf _ r'.dialects, hd, hd']

end Readers

/-- With its index gone, the scanner of a small project combines a condition as
one that reads for the plain dialect alone. -/
theorem a_reader_of_two_dialects_combines_like_a_plain_one :
    let s := smallBuild.scanner "/lib/a.c"
    let turns : List (Turn Request) :=
      [.ask (.about .describe), .change fun w => (w.delete (Path.ofString "/index")).1]
    let x := (opening smallProject History.empty).after ((s.withReader .multi).ask 0) turns
    let x' := (opening smallProject History.empty).after ((s.withReader .plain).ask 0) turns
    ∃ combined,
      ((s.withReader .multi).combine x.files 0 x.state featureOrContradiction).answer =
        .ok combined ∧
      ((s.withReader .plain).combine x'.files 0 x'.state featureOrContradiction).answer =
        .ok combined ∧
      combined.render = "A && B" := by
  intro s turns x x'
  have hlevels := sees_smallProject.locate_of_readLevels
    (locatedTexts_smallIndex ▸ readLevels_smallIndex) 0 History.empty
  have hlocated : ((s.withReader .multi).locate x.files 0 x.state).answer = .ok _ :=
    answer_locate_of_scanned (state_locate hlevels)
  have hcombined := answer_combine hlocated featureOrContradiction
  obtain ⟨_, hsame⟩ := other_dialects_never_show_in_a_combined_condition s 0 0 smallProject
    (show ConditionReader.multi.numericConstants = ConditionReader.plain.numericConstants from rfl)
    (show ConditionReader.multi.dialects.count .plain = 1 by decide)
    (show ConditionReader.plain.dialects.count .plain = 1 by decide) History.empty History.empty
    turns (show featureOrContradiction.dialect = .plain from rfl)
  exact ⟨_, hcombined, hsame.symm.trans hcombined, by decide +kernel⟩

end Scanner

end Variability.BuildIndex
