-- The texts of configurations. Over the same names two configurations have one
-- text exactly if they agree, whatever the names are: a mark that one of them
-- lacks is missed before the next space. So no two configurations of a space
-- have one text.
import Variability.Proofs.Budgets
import Variability.Proofs.Recency

namespace Variability

open Cnf Variability.Sat

namespace Configuration

/-! ## Names in order -/

/-- The names that a configuration decides on, in order. -/
def sortedNames (c : Configuration) : List String :=
  c.selection.keys.mergeSort fun s t => decide (s ≤ t)

section Names

variable {c d : Configuration} {name : String}

theorem mem_sortedNames : name ∈ c.sortedNames ↔ name ∈ c.selection.keys := List.mem_mergeSort

/-- The order in which a configuration was filled does not show in its names. -/
theorem sortedNames_congr (h : ∀ name, name ∈ c.selection.keys ↔ name ∈ d.selection.keys) :
    c.sortedNames = d.sortedNames := by
  have hkeys : c.selection.keys.Perm d.selection.keys :=
    (List.perm_ext_iff_of_nodup c.selection.nodup d.selection.nodup).mpr h
  have hsorted : c.sortedNames.Perm d.sortedNames :=
    (List.mergeSort_perm _ _).trans (hkeys.trans (List.mergeSort_perm _ _).symm)
  exact hsorted.eq_of_pairwise' (List.pairwise_mergeSort' (· ≤ ·) _)
    (List.pairwise_mergeSort' (· ≤ ·) _)

theorem sortedEntries_eq (c : Configuration) :
    c.sortedEntries = c.sortedNames.map fun name => (name, c.assignment name) := by
  have hnames : c.sortedEntries.map Prod.fst = c.sortedNames := by
    apply List.map_mergeSort
    intro p _ q _
    rfl
  have hentry : ∀ p ∈ c.sortedEntries, (p.1, c.assignment p.1) = id p := by
    intro p hp
    rw [assignment_of_mem (List.mem_mergeSort.mp hp), id]
  rw [← hnames, List.map_map]
  exact (List.map_id _).symm.trans (List.map_congr_left hentry).symm

theorem value?_of_mem_keys (h : name ∈ c.selection.keys) :
    c.value? name = some (c.assignment name) := by
  obtain ⟨p, hp, rfl⟩ := List.mem_map.mp h
  rw [assignment_of_mem hp]
  exact Table.get?_of_mem hp

end Names

/-! ## Texts -/

/-- How a text goes on with further names: a space before each feature. -/
def continuation (a : Assignment) (names : List String) : List Char :=
  names.flatMap fun name => ' ' :: (entryText (name, a name)).toList

section Texts

variable {a b : Assignment} {name : String} {names : List String}

theorem toList_entryText_true : (entryText (name, true)).toList = name.toList := rfl

theorem toList_entryText_false : (entryText (name, false)).toList = '!' :: name.toList := by
  simp [entryText]

theorem continuation_cons : continuation a (name :: names) =
    ' ' :: ((entryText (name, a name)).toList ++ continuation a names) := rfl

/-- No text goes on with a mark. -/
theorem mark_cons_ne_continuation (cs : List Char) : '!' :: cs ≠ continuation a names := by
  cases names with
  | nil => simp [continuation]
  | cons name names => simp [continuation_cons]

theorem cons_intercalate (t : List Char) (ts : List (List Char)) :
    [' '].intercalate (t :: ts) = t ++ ts.flatMap (' ' :: ·) := by
  induction ts generalizing t with
  | nil => simp
  | cons u ts ih =>
    rw [List.intercalate_cons_cons, ih]
    simp

theorem toList_text (c : Configuration) :
    c.text.toList = (continuation c.assignment c.sortedNames).tail := by
  unfold text
  rw [sortedEntries_eq, String.toList_intercalate, show " ".toList = [' '] from rfl]
  cases c.sortedNames with
  | nil => rfl
  | cons name names =>
    rw [List.map_cons, List.map_cons, List.map_cons, cons_intercalate, continuation_cons,
      List.tail_cons]
    simp [continuation, List.flatMap_map]

/-- What one text has in front of a name the other can only have behind it. -/
theorem eq_cons_of_append_eq_cons_append {x : Char} {l r s : List Char}
    (h : l ++ r = x :: (l ++ s)) : r = x :: s := by
  induction l with
  | nil => exact h
  | cons y l ih =>
    obtain ⟨rfl, hrest⟩ := List.cons.inj h
    exact ih hrest

/-- A name that starts with marks may look like a shorter one with a mark in
front, but then a mark is missed where the text goes on. -/
theorem append_continuation_ne_mark_cons (cs : List Char) :
    name.toList ++ continuation a names ≠ '!' :: (name.toList ++ cs) := by
  intro h
  exact mark_cons_ne_continuation cs (eq_cons_of_append_eq_cons_append h).symm

theorem value_eq_of_entryText {others : List String} {u v : Bool}
    (h : (entryText (name, u)).toList ++ continuation a names =
      (entryText (name, v)).toList ++ continuation b others) : u = v := by
  cases u with
  | true =>
    cases v with
    | true => rfl
    | false =>
      rw [toList_entryText_true, toList_entryText_false] at h
      exact absurd h (append_continuation_ne_mark_cons _)
  | false =>
    cases v with
    | true =>
      rw [toList_entryText_true, toList_entryText_false] at h
      exact absurd h.symm (append_continuation_ne_mark_cons _)
    | false => rfl

theorem continuation_inj :
    continuation a names = continuation b names ↔ ∀ name ∈ names, a name = b name := by
  induction names with
  | nil => simp [continuation]
  | cons name names ih =>
    rw [continuation_cons, continuation_cons, List.forall_mem_cons, ← ih]
    constructor
    · intro h
      have hrest := (List.cons.inj h).2
      -- Only with the same value do both features end at the same place.
      have hvalue := value_eq_of_entryText hrest
      rw [hvalue] at hrest
      exact ⟨hvalue, List.append_cancel_left hrest⟩
    · rintro ⟨hvalue, hrest⟩
      rw [hvalue, hrest]

/-- The first space, which a text does not have, tells nothing. -/
theorem tail_continuation_inj :
    (continuation a names).tail = (continuation b names).tail ↔
      continuation a names = continuation b names := by
  cases names with
  | nil => simp [continuation]
  | cons name names => simp [continuation_cons]

end Texts

/-- Over the same names a text tells the values, in whatever order they were
given. -/
theorem text_eq_iff {c d : Configuration}
    (h : ∀ name, name ∈ c.selection.keys ↔ name ∈ d.selection.keys) :
    c.text = d.text ↔ ∀ name ∈ c.selection.keys, c.value? name = d.value? name := by
  rw [← String.toList_inj, toList_text, toList_text, ← sortedNames_congr h, tail_continuation_inj,
    continuation_inj]
  constructor
  · intro hvalues name hname
    rw [value?_of_mem_keys hname, value?_of_mem_keys ((h name).mp hname),
      hvalues name (mem_sortedNames.mpr hname)]
  · intro hvalues name hname
    unfold assignment
    rw [hvalues name (mem_sortedNames.mp hname)]

end Configuration

/-! ## Right answers -/

/-- Every answer that the solver gives is right. It may refuse clauses and fail
at questions. -/
def Sat.Solver.Truthful (s : Solver) : Prop :=
  ∀ {models : Valuation → Prop} (session next : s.Session models) (verdict : Verdict),
    s.ask session = .ok (verdict, next) → verdict.IsRight models

theorem Sat.Solver.Sound.truthful {s : Solver} (h : s.Sound) : s.Truthful := by
  intro models session next verdict hask
  obtain ⟨verdict', next', hask', hright⟩ := h.ask session
  cases hask.symm.trans hask'
  exact hright

/-- Every solver that is chosen gives right answers only. -/
def SolverChoice.Truthful (choose : SolverChoice) : Prop :=
  ∀ name budget solver, choose name budget = .ok solver → solver.Truthful

theorem SolverChoice.Right.truthful {choose : SolverChoice} (h : choose.Right) : choose.Truthful :=
  fun name budget solver hsolver => (h name budget solver hsolver).truthful

/-! ## Different configurations -/

/-- Different configurations, which decide on the same names in the same
order. -/
structure DifferentOver (names : List String) (l : List Configuration) : Prop where
  nodup : l.Nodup
  keys : ∀ k ∈ l, k.selection.keys = names

namespace DifferentOver

variable {names : List String} {l : List Configuration}

theorem nil : DifferentOver names [] := ⟨List.nodup_nil, by simp⟩

theorem reverse (h : DifferentOver names l) : DifferentOver names l.reverse :=
  ⟨List.nodup_reverse.mpr h.nodup, fun k hk => h.keys k (List.mem_reverse.mp hk)⟩

theorem nodup_texts (h : DifferentOver names l) : (l.map Configuration.text).Nodup := by
  refine h.nodup.map_on ?_
  intro j hj k hk htext
  have hsame : ∀ name, name ∈ j.selection.keys ↔ name ∈ k.selection.keys := by
    intro name
    rw [h.keys j hj, h.keys k hk]
  by_contra hne
  obtain ⟨name, hname, hvalue⟩ := Configuration.exists_ne (h.keys j hj) (h.keys k hk) hne
  apply hvalue
  unfold Configuration.assignment
  rw [(Configuration.text_eq_iff hsame).mp htext name (h.keys j hj ▸ hname)]

end DifferentOver

section Loop

variable {solver : Solver} {projection : List (Int × String)}

/-- A turn of the loop: what it finds is new, and what satisfies the clauses
from then on gives neither that nor anything found before. -/
theorem DifferentOver.turn (hp : ProperProjection projection) {models : Valuation → Prop}
    {found : List Configuration} (hfound : DifferentOver (projection.map Prod.snd) found)
    (hexcluded : ∀ v, models v → selectionAt projection v ∉ found) {literals : List Int}
    (hmodel : models (completion literals)) :
    DifferentOver (projection.map Prod.snd) (selectionOf projection literals :: found) ∧
      ∀ v, clauseHolds v (blockingClause projection literals) = true ∧ models v →
        selectionAt projection v ∉ selectionOf projection literals :: found := by
  rw [selectionOf_eq hp]
  refine ⟨⟨List.nodup_cons.mpr ⟨hexcluded _ hmodel, hfound.nodup⟩,
    List.forall_mem_cons.mpr ⟨keys_selectionAt hp _, hfound.keys⟩⟩, ?_⟩
  rintro v ⟨hblocked, hv⟩
  rw [List.mem_cons, not_or]
  exact ⟨(clauseHolds_blockingClause hp literals v).mp hblocked, hexcluded v hv⟩

/-- The loop finds different configurations, also with a solver that refuses
some clauses. Induction on the turns, with all that has been found excluded from
what satisfies the clauses. -/
theorem findConfigurations_differentOver (hs : solver.Truthful) (hp : ProperProjection projection)
    {models : Valuation → Prop} (session : solver.Session models) (remaining : Nat)
    {found : List Configuration} (hfound : DifferentOver (projection.map Prod.snd) found)
    (hexcluded : ∀ v, models v → selectionAt projection v ∉ found) {r : Found}
    (h : findConfigurations solver projection remaining session found = .ok r) :
    DifferentOver (projection.map Prod.snd) r.configurations := by
  induction remaining generalizing models found with
  | zero =>
    cases h
    exact hfound.reverse
  | succ remaining ih =>
    unfold findConfigurations at h
    -- A question that fails and a clause that is refused both end the loop
    -- without an answer, so nothing is asked of them here.
    split at h
    · cases h
    · cases h
      exact hfound.reverse
    · cases h
      exact hfound.reverse
    · rename_i literals next hask
      obtain ⟨_, hmodel⟩ := hs session next (.model literals) hask
      obtain ⟨hmore, hblocked⟩ := hfound.turn hp hexcluded hmodel
      simp only at h
      split at h
      · cases h
        exact hmore.reverse
      · split at h
        · cases h
        · exact ih _ hmore hblocked h

end Loop

section Spaces

variable {choose : SolverChoice} {c : Condition} {space : Space}

theorem differentOver_of_configurations {solver : Solver} (hs : solver.Truthful)
    {m : FeatureModel} {limit : Nat} {r : Found}
    (h : (c.encode m).configurations solver limit = .ok r) :
    DifferentOver (projectedNames c m) r.configurations := by
  unfold Encoding.configurations at h
  split at h
  · cases h
  · rename_i session hstart
    exact findConfigurations_differentOver hs (properProjection_encode c m) session limit .nil
      (by simp) h

theorem differentOver_of_spaceUnder (hchoose : choose.Truthful) {m : FeatureModel} {limit : Nat}
    {shown : String} {budget : Option Float} {name : String}
    (h : (c.spaceUnder choose m limit shown budget name).1 = .ok space) :
    DifferentOver (projectedNames c m) space.configurations := by
  unfold Condition.spaceUnder at h
  simp only at h
  split at h
  · cases h
    exact .nil
  · split at h
    · cases h
      exact .nil
    · cases hsolver : choose name budget with
      | error fault => simp [hsolver] at h
      | ok solver =>
        simp only [hsolver] at h
        cases hfound : (c.encode m).configurations solver limit with
        | error fault => simp [hfound] at h
        | ok found =>
          simp only [hfound, Except.ok.injEq] at h
          subst h
          exact differentOver_of_configurations (hchoose name budget solver hsolver) hfound

theorem differentOver_of_enumerate (hchoose : choose.Truthful) {w : Workspace}
    {cache : ModelCache} {r : SpaceRequest}
    (h : (c.enumerate choose w cache r).answer = .ok space) :
    ∃ names, DifferentOver names space.configurations := by
  obtain ⟨m, limit, budget, _, _, hspace, _⟩ := exists_of_enumerate h
  exact ⟨_, differentOver_of_spaceUnder hchoose hspace⟩

end Spaces

/-- Two configurations over the same names have one text if and only if they
give every name the same value, in whatever order they were filled. Nothing is
asked of the names: they may be empty, hold spaces or start with marks. So
wherever the answers of the solvers are right, no two configurations of a space
have one text. -/
theorem the_text_of_a_configuration_tells_its_selection :
    (∀ c d : Configuration, (∀ name, name ∈ c.selection.keys ↔ name ∈ d.selection.keys) →
      (c.text = d.text ↔ ∀ name ∈ c.selection.keys, c.value? name = d.value? name)) ∧
    ∀ choose : SolverChoice, choose.Truthful →
      ∀ (w : Workspace) (cache : ModelCache) (c : Condition) (r : SpaceRequest) (space : Space),
        (c.enumerate choose w cache r).answer = .ok space →
        (space.configurations.map Configuration.text).Nodup := by
  refine ⟨fun c d h => Configuration.text_eq_iff h, ?_⟩
  intro choose hchoose w cache c r space h
  obtain ⟨_, hdifferent⟩ := differentOver_of_enumerate hchoose h
  exact hdifferent.nodup_texts

/-! ## Names with marks -/

/-- A formula over two features, one of them called like the other with a mark
in front. -/
def markedText : String := "c 1 A\nc 2 !A\n1 2 0"

/-- The formula in the file `/model`. -/
def markedModel : Workspace := ModelCache.writeModel markedText 0 ModelCache.noModel

theorem encode_markedText : ∃ d, readDimacs markedText.toList = .ok d ∧
    (Condition.always .plain).encode ⟨d, "/model"⟩ = ⟨[[1, 2]], [(1, "A"), (2, "!A")]⟩ := by
  have hparts : (readDimacs markedText.toList).map (fun d => (d.names.entries, d.clauses)) =
      .ok ([(1, "A"), (2, "!A")], [[1, 2]]) := by
    decide +kernel
  obtain ⟨d, hread, hd⟩ := exists_of_map_eq_ok hparts
  obtain ⟨hentries, hclauses⟩ := Prod.mk.inj hd
  refine ⟨d, hread, ?_⟩
  have hfeatures : (FeatureModel.mk d "/model").features = [("A", 1), ("!A", 2)] := by
    rw [FeatureModel.features_of_ascending (by simp [hentries]) (by simp [hentries]), hentries]
    rfl
  have hsorted : (Condition.always .plain).sortedFeatures = [] := List.mergeSort_nil
  have hprojection : Encoding.projectionOf [("A", 1), ("!A", 2)] = [(1, "A"), (2, "!A")] :=
    mergeSort_of_ascending (by simp)
  unfold Condition.encode Encoding.variableTable Encoding.unknownFeatures FeatureModel.clauses
  rw [hfeatures, hsorted, hclauses]
  simp only [List.filter_nil, Encoding.numberFrom, List.zipIdx_nil, List.map_nil, List.append_nil,
    hprojection]
  rfl

/-- At least two selections satisfy the formula. -/
theorem one_lt_ncard_markedText {m : FeatureModel} (h : (Condition.always .plain).encode m =
    ⟨[[1, 2]], [(1, "A"), (2, "!A")]⟩) : 1 < (solutions (.always .plain) m).ncard := by
  have hproper := properProjection_encode (.always .plain) m
  have hreachable := reachable_encode (.always .plain) m
  rw [h] at hproper hreachable
  rw [Set.one_lt_ncard (finite_solutions _ m), ← hreachable]
  let first : Valuation := fun x => x = 1
  let second : Valuation := fun x => x = 2
  refine ⟨selectionAt _ first, ⟨first, by decide, rfl⟩, selectionAt _ second,
    ⟨second, by decide, rfl⟩, ?_⟩
  rw [ne_eq, selectionAt_eq_iff hproper]
  intro hsame
  exact absurd (hsame (1, "A") List.mem_cons_self) (by decide)

theorem enumerate_markedModel :
    ∃ space, ((Condition.always .plain).enumerate alwaysLearning markedModel .empty
        (twoFrom "glucose4" .null)).answer = .ok space ∧ space.configurations.length = 2 := by
  obtain ⟨d, hd, hencode⟩ := encode_markedText
  obtain ⟨hfile, hread⟩ := ModelCache.modelFile_of_file
    (ModelCache.find?_writeModel markedText 0 ModelCache.noModel)
  have htext : Text.utf8Text? markedText.toUTF8.toList = some markedText.toList := by decide +kernel
  have hmodel := ModelCache.ofFile_of_text hread htext hd
  have hload : (ModelCache.empty.load markedModel "/model").answer = .ok ⟨0, ⟨d, "/model"⟩⟩ :=
    congrArg Outcome.answer (ModelCache.load_of_ofFile hfile rfl hmodel)
  obtain ⟨space, hspace, hacc⟩ := spaceUnder_accounts
    (show alwaysLearning "glucose4" none = .ok learning from rfl) learning_sound
    (.always .plain) ⟨d, "/model"⟩ 2 (Value.int 2).text
  have htime := spaceUnder_not_timedOut
    (show alwaysLearning "glucose4" none = .ok learning from rfl) learning_neverInterrupted hspace
  refine ⟨space, ?_, ?_⟩
  · rw [enumerate_of_load alwaysLearning (.always .plain) (r := twoFrom "glucose4" .null)
      (show Value.int 2 = .int (2 : Nat) from rfl) rfl hload]
    exact hspace
  · have hmany := one_lt_ncard_markedText hencode
    have := hacc.counted htime
    omega

/-- With the names `A` and `!A` a text such as `!A !A` tells both values, and
two selections that are enumerated have two texts. -/
theorem texts_with_marked_names_differ :
    let c : Configuration := ⟨Table.ofList [("A", false), ("!A", true)]⟩
    let d : Configuration := ⟨Table.ofList [("!A", true), ("A", false)]⟩
    let e : Configuration := ⟨Table.ofList [("A", true), ("!A", false)]⟩
    c.text = d.text ∧ c.text ≠ e.text ∧
      ∃ space, ((Condition.always .plain).enumerate alwaysLearning markedModel .empty
          (twoFrom "glucose4" .null)).answer = .ok space ∧ space.configurations.length = 2 ∧
        (space.configurations.map Configuration.text).Nodup := by
  intro c d e
  obtain ⟨htexts, hspaces⟩ := the_text_of_a_configuration_tells_its_selection
  have hc : c.selection.keys = ["A", "!A"] := by decide
  have hd : d.selection.keys = ["!A", "A"] := by decide
  have he : e.selection.keys = ["A", "!A"] := by decide
  refine ⟨?_, ?_, ?_⟩
  · apply (htexts c d fun name => by simp [hc, hd, or_comm]).mpr
    decide
  · intro htext
    have hvalues := (htexts c e fun name => by rw [hc, he]).mp htext
    exact absurd (hvalues "A" (by decide)) (by decide)
  · obtain ⟨space, hspace, hlength⟩ := enumerate_markedModel
    have hright : alwaysLearning.Right := by
      intro name budget solver hsolver
      cases hsolver
      exact learning_sound
    exact ⟨space, hspace, hlength, hspaces alwaysLearning hright.truthful _ _ _ _ space hspace⟩

end Variability
