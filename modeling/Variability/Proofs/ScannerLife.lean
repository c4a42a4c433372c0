-- The life of a scanner: it scans once, when that succeeds for the first time,
-- and from then on answers from what it found, whatever becomes of the files.
import Variability.Proofs.Combination
import Variability.Session

namespace Variability.BuildIndex

/-! ## Requests -/

/-- What is asked about the located conditions. The text of a scanner is its
description. -/
inductive Inquiry
  | locate
  | describe
  | text
  | combine (c : Condition)

inductive Request
  | about (inquiry : Inquiry)
  | keys

inductive Reply
  | levels (levels : List (List Condition))
  | text (text : String)
  | condition (c : Condition)
  | keys (keys : List Key)

/-- The reply to an inquiry once the conditions are located. -/
def Inquiry.reply (levels : List (List Condition)) : Inquiry → Reply
  | .locate => .levels levels
  | .describe | .text => .text (describeLevels levels)
  | .combine c => .condition (combineLevels levels c)

def ScanState.isScanned : ScanState → Bool
  | .unscanned => false
  | .scanned _ => true

namespace Scanner

/-- What a scanner does on a request. For its keys alone it does not look at
what it keeps. -/
def ask (s : Scanner) (owner : Nat) : Operation Request Scanning (Except LocateError Reply)
  | .about .locate, w, before => (s.locate w owner before).mapAnswer .levels
  | .about .describe, w, before | .about .text, w, before =>
    (s.describe w owner before).mapAnswer .text
  | .about (.combine c), w, before => (s.combine w owner before c).mapAnswer .condition
  | .keys, w, before => ⟨(s.keys w).map .keys, before, []⟩

/-- The reply of a scanner that is asked for the first time. -/
def firstReply (s : Scanner) (w : Workspace) (q : Inquiry) : Except LocateError Reply :=
  (s.ask 0 (.about q) w ⟨.unscanned, History.empty⟩).answer

/-! ## One request -/

section Request

variable (s : Scanner) (owner : Nat) (w : Workspace) (q : Inquiry)

theorem map_comp {ε α β γ : Type} (x : Except ε α) (f : α → β) (g : β → γ) :
    (x.map f).map g = x.map fun a => g (f a) := by
  cases x <;> rfl

/-- Every inquiry locates the conditions and goes by them alone. -/
theorem ask_about (before : Scanning) :
    s.ask owner (.about q) w before = (s.locate w owner before).mapAnswer q.reply := by
  cases q <;> simp only [ask, describe, combine, Outcome.mapAnswer, map_comp] <;> rfl

theorem ask_scanned (levels : List (List Condition)) (h : History) :
    s.ask owner (.about q) w ⟨.scanned levels, h⟩ =
      ⟨.ok (q.reply levels), ⟨.scanned levels, h⟩, []⟩ := by
  rw [ask_about]
  rfl

/-- What a scanner keeps once it has found these conditions: they, and a note
more. -/
def settled (levels : List (List Condition)) (h : History) : Scanning :=
  ⟨.scanned levels, h.add owner locatedNote⟩

/-- A scanner that has located nothing looks the conditions up. If that fails it
stays as it is. -/
theorem ask_unscanned (h : History) :
    (∃ e, s.firstReply w q = .error e ∧
      (s.ask owner (.about q) w ⟨.unscanned, h⟩).answer = .error e ∧
      (s.ask owner (.about q) w ⟨.unscanned, h⟩).state = ⟨.unscanned, h⟩) ∨
    ∃ levels, (∀ q', s.firstReply w q' = .ok (q'.reply levels)) ∧
      (s.ask owner (.about q) w ⟨.unscanned, h⟩).answer = .ok (q.reply levels) ∧
      (s.ask owner (.about q) w ⟨.unscanned, h⟩).state = settled owner levels h := by
  simp only [firstReply, ask_about, Outcome.mapAnswer, locate]
  cases hlook : s.lookUp w with
  | mk answer events =>
    cases answer with
    | error e => exact Or.inl ⟨e, rfl, rfl, rfl⟩
    | ok found => exact Or.inr ⟨found.1, fun _ => rfl, rfl, rfl⟩

end Request

/-! ## Sessions -/

/-- A session with a scanner that has located nothing yet. -/
def opening (w : Workspace) (h : History) : Session Scanning := ⟨w, ⟨.unscanned, h⟩⟩

/-- How far a scanner has come in a session: it is as it was at the start, or
some inquiry found the conditions and it has kept them since. -/
inductive Stage (s : Scanner) (owner : Nat) (w : Workspace) (h : History) :
    List (Turn Request) → Scanning → Prop
  | before {turns : List (Turn Request)} : Stage s owner w h turns ⟨.unscanned, h⟩
  | since {earlier later : List (Turn Request)} {q : Inquiry} {levels : List (List Condition)}
      (hbefore : ((opening w h).after (s.ask owner) earlier).state = ⟨.unscanned, h⟩)
      (hfound : ∀ q', s.firstReply ((opening w h).after (s.ask owner) earlier).files q' =
        .ok (q'.reply levels)) :
      Stage s owner w h (earlier ++ .ask (.about q) :: later) (settled owner levels h)

section Sessions

variable {s : Scanner} {owner : Nat} {w : Workspace} {h : History} {x : Session Scanning}

/-- A turn leaves a scanner that has settled as it is. -/
theorem turn_scanned {levels : List (List Condition)} (hx : x.state = ⟨.scanned levels, h⟩)
    (t : Turn Request) : (x.turn (s.ask owner) t).state = ⟨.scanned levels, h⟩ := by
  cases t with
  | change apply => exact hx
  | ask r =>
    cases r with
    | keys => exact hx
    | about q => rw [Session.turn_ask, hx, ask_scanned]

theorem after_scanned {levels : List (List Condition)} (hx : x.state = ⟨.scanned levels, h⟩)
    (turns : List (Turn Request)) :
    (x.after (s.ask owner) turns).state = ⟨.scanned levels, h⟩ := by
  induction turns using List.reverseRecOn with
  | nil => exact hx
  | append_singleton turns t ih =>
    rw [Session.after_concat]
    exact turn_scanned ih t

/-- Only an inquiry, and only one that finds the conditions, brings a scanner
further. -/
theorem turn_unscanned (hx : x.state = ⟨.unscanned, h⟩) (t : Turn Request) :
    (x.turn (s.ask owner) t).state = ⟨.unscanned, h⟩ ∨
    ∃ q levels, t = .ask (.about q) ∧ (∀ q', s.firstReply x.files q' = .ok (q'.reply levels)) ∧
      (x.turn (s.ask owner) t).state = settled owner levels h := by
  cases t with
  | change apply => exact Or.inl hx
  | ask r =>
    cases r with
    | keys => exact Or.inl hx
    | about q =>
      rw [Session.turn_ask, hx]
      rcases ask_unscanned s owner x.files q h with ⟨_, _, _, hsame⟩ | ⟨levels, hfirst, _, hnext⟩
      · exact Or.inl hsame
      · exact Or.inr ⟨q, levels, rfl, hfirst, hnext⟩

/-- Induction on the turns, the last one taken off. -/
theorem stage_after (s : Scanner) (owner : Nat) (w : Workspace) (h : History)
    (turns : List (Turn Request)) :
    s.Stage owner w h turns ((opening w h).after (s.ask owner) turns).state := by
  induction turns using List.reverseRecOn with
  | nil => exact .before
  | append_singleton turns t ih =>
    rw [Session.after_concat]
    generalize hx : ((opening w h).after (s.ask owner) turns).state = state at ih
    cases ih with
    | before =>
      rcases turn_unscanned hx t with hsame | ⟨q, levels, rfl, hfirst, hnext⟩
      · rw [hsame]
        exact .before
      · rw [hnext]
        exact .since hx hfirst
    | since hbefore hfound =>
      rw [turn_scanned hx t, List.append_assoc, List.cons_append]
      exact .since hbefore hfound

end Sessions

/-! ## The life of a scanner -/

/-- What holds of a scanner at `x`, after these turns of a session. -/
structure ScansOnce (s : Scanner) (owner : Nat) (w : Workspace) (h : History)
    (turns : List (Turn Request)) (x : Session Scanning) : Prop where
  /-- There is one note of a scanner that has scanned, and none of another. -/
  noted : x.state.history.notesOf owner = if x.state.state.isScanned then [locatedNote] else []
  /-- Asked for its keys, it stays as it is. -/
  keys : s.ask owner .keys x.files x.state = ⟨(s.keys x.files).map .keys, x.state, []⟩
  /-- Before it has scanned it is as it was at the start and answers as if asked
  for the first time, from the files as they are. If it fails it stays so, else
  it has scanned. -/
  unscanned : x.state.state.isScanned = false → x.state = ⟨.unscanned, h⟩ ∧ ∀ q,
    (s.ask owner (.about q) x.files x.state).answer = s.firstReply x.files q ∧
    ((∃ e, s.firstReply x.files q = .error e ∧
        (s.ask owner (.about q) x.files x.state).state = ⟨.unscanned, h⟩) ∨
      ∃ r, s.firstReply x.files q = .ok r ∧
        (s.ask owner (.about q) x.files x.state).state.state.isScanned = true)
  /-- Once it has scanned, it never changes again. It did so on an inquiry
  before which it was as at the start, and answers every later one from the
  files of that moment. -/
  scanned : x.state.state.isScanned = true → ∃ earlier q later,
    turns = earlier ++ .ask (.about q) :: later ∧
    ((opening w h).after (s.ask owner) earlier).state = ⟨.unscanned, h⟩ ∧
    ∀ more, (x.after (s.ask owner) more).state = x.state ∧ ∀ q', ∃ r,
      s.firstReply ((opening w h).after (s.ask owner) earlier).files q' = .ok r ∧
      (s.ask owner (.about q') (x.after (s.ask owner) more).files x.state).answer = .ok r

theorem notesOf_settled {h : History} {owner : Nat} (hnotes : h.notesOf owner = [])
    (levels : List (List Condition)) :
    (settled owner levels h).history.notesOf owner = [locatedNote] := by
  simp [settled, History.notesOf_add, hnotes]

/-- Whatever happens to the files and whatever is asked, in whatever order, a
scanner whose owner has no note yet scans once. -/
theorem a_scanner_scans_once_and_keeps_what_it_found {h : History} {owner : Nat}
    (hnotes : h.notesOf owner = []) (s : Scanner) (w : Workspace)
    (turns : List (Turn Request)) :
    s.ScansOnce owner w h turns ((opening w h).after (s.ask owner) turns) := by
  have hstage := stage_after s owner w h turns
  generalize (opening w h).after (s.ask owner) turns = x at hstage
  obtain ⟨files, state⟩ := x
  dsimp only at hstage
  cases hstage with
  | before =>
    refine ⟨hnotes, rfl, fun _ => ⟨rfl, fun q => ?_⟩, fun hscanned => ?_⟩
    · rcases ask_unscanned s owner files q h with ⟨e, hfirst, hanswer, hsame⟩ |
        ⟨levels, hfirst, hanswer, hnext⟩
      · exact ⟨hanswer.trans hfirst.symm, Or.inl ⟨e, hfirst, hsame⟩⟩
      · refine ⟨hanswer.trans (hfirst q).symm, Or.inr ⟨_, hfirst q, ?_⟩⟩
        rw [hnext]
        rfl
    · cases hscanned
  | @since earlier later q levels hbefore hfound =>
    refine ⟨notesOf_settled hnotes levels, rfl, fun hunscanned => ?_, fun _ => ?_⟩
    · cases hunscanned
    · refine ⟨earlier, q, later, rfl, hbefore, fun more => ⟨after_scanned rfl more, ?_⟩⟩
      intro q'
      refine ⟨q'.reply levels, hfound q', ?_⟩
      rw [settled, ask_scanned]

/-- Without its index a scanner finds nothing. -/
theorem lookUp_of_unreadable {s : Scanner} {w : Workspace} {fault : FileFault}
    (hread : w.read s.index.text = .error fault) : ∃ e, s.lookUp w = (.error e, []) := by
  unfold lookUp
  cases s.keys w with
  | error e => exact ⟨e, rfl⟩
  | ok keys =>
    have hscan : scan w s.index.text keys = (.error ⟨s.index.text, .file fault⟩, []) := by
      unfold scan
      rw [hread]
    simp only [hscan]
    exact ⟨_, rfl⟩

theorem firstReply_of_unreadable {s : Scanner} {w : Workspace} {fault : FileFault}
    (hread : w.read s.index.text = .error fault) (q : Inquiry) :
    ∃ e, s.firstReply w q = .error e := by
  obtain ⟨e, hlook⟩ := lookUp_of_unreadable hread
  refine ⟨e, ?_⟩
  rw [firstReply, ask_about, Outcome.mapAnswer, locate, hlook]
  rfl

/-- Without its index the scanner of a small project replies as it did before,
though it could not scan any more. -/
theorem a_scanner_outlives_its_index :
    let s := smallBuild.scanner "/lib/a.c"
    let x := (opening smallProject History.empty).after (s.ask 0)
      [.ask (.about .locate), .change fun w => (w.delete (Path.ofString "/index")).1]
    x.state.history.notesOf 0 = [locatedNote] ∧ ∀ q,
      (∃ e, s.firstReply x.files q = .error e) ∧
      ∃ r, s.firstReply smallProject q = .ok r ∧
        (s.ask 0 (.about q) x.files x.state).answer = .ok r := by
  intro s x
  obtain ⟨levels, hlevels, _⟩ := sees_smallProject.locate 0 History.empty
  have hlife : s.ScansOnce 0 smallProject History.empty _ x :=
    a_scanner_scans_once_and_keeps_what_it_found rfl s smallProject _
  have hscanned : x.state.state.isScanned = true := by
    rcases ask_unscanned s 0 smallProject .locate History.empty with
      ⟨e, hfirst, _⟩ | ⟨found, _, _, hnext⟩
    · rw [firstReply, ask_about, Outcome.mapAnswer, hlevels] at hfirst
      cases hfirst
    · exact congrArg (·.state.isScanned) hnext
  obtain ⟨earlier, q, later, hturns, _, hlater⟩ := hlife.scanned hscanned
  have hearlier : earlier = [] := by
    cases earlier with
    | nil => rfl
    | cons t earlier =>
      obtain ⟨_, hrest⟩ := List.cons.inj hturns
      cases earlier <;> simp at hrest
  subst hearlier
  have hgone : (smallProject.delete (Path.ofString "/index")).1.read "/index" =
      .error .missing := by
    rw [smallProject, namesEntry_index.delete_of_file (find?_project_index smallIndex)]
    exact namesEntry_index.read_of_missing
      ((FileSystem.find?_remove _ (by decide) _).trans (if_pos rfl))
  have hindex : s.index.text = "/index" := by decide +kernel
  have hread : x.files.read s.index.text = .error .missing := by
    rw [hindex]
    exact hgone
  refine ⟨?_, fun q' => ⟨firstReply_of_unreadable hread q', (hlater []).2 q'⟩⟩
  rw [hlife.noted, hscanned]
  rfl

end Scanner

end Variability.BuildIndex
