-- Batches of locations: a call of a space locator gives every key the space
-- that its condition has alone, or it fails and leaves the last measurement as
-- it was.
import Variability.Proofs.Pipeline
import Variability.Session

namespace Variability

open Variability.Sat BuildIndex

/-! ## One after the other -/

section Each

variable {ε α β : Type} {f : α → Except ε β}

theorem mapM_cons_ok {a : α} {b : β} (h : f a = .ok b) (rest : List α) :
    (a :: rest).mapM f = (rest.mapM f).map (b :: ·) := by
  rw [List.mapM_cons, h]
  cases rest.mapM f <;> rfl

theorem mapM_cons_error {a : α} {e : ε} (h : f a = .error e) (rest : List α) :
    (a :: rest).mapM f = .error e := by
  rw [List.mapM_cons, h]
  rfl

theorem exists_of_mapM_cons {a : α} {rest : List α} {found : List β}
    (h : (a :: rest).mapM f = .ok found) :
    ∃ b others, f a = .ok b ∧ rest.mapM f = .ok others ∧ found = b :: others := by
  cases ha : f a with
  | error e => simp [mapM_cons_error ha] at h
  | ok b =>
    rw [mapM_cons_ok ha] at h
    cases hrest : rest.mapM f with
    | error e => simp [hrest, Except.map] at h
    | ok others =>
      rw [hrest] at h
      cases h
      exact ⟨b, others, rfl, rfl, rfl⟩

theorem exists_mem_of_mapM {l : List α} {found : List β} (h : l.mapM f = .ok found) :
    ∀ a ∈ l, ∃ b ∈ found, f a = .ok b := by
  induction l generalizing found with
  | nil => simp
  | cons first rest ih =>
    obtain ⟨b, others, hfirst, hrest, rfl⟩ := exists_of_mapM_cons h
    intro a ha
    rcases List.mem_cons.mp ha with rfl | ha
    · exact ⟨b, List.mem_cons_self, hfirst⟩
    · obtain ⟨c, hc, hac⟩ := ih hrest a ha
      exact ⟨c, List.mem_cons_of_mem _ hc, hac⟩

/-- What each step keeps is kept by all of them together. -/
theorem map_eq_of_mapM {γ : Type} {g : α → γ} {g' : β → γ}
    (hkeeps : ∀ a b, f a = .ok b → g' b = g a) {l : List α} {found : List β}
    (h : l.mapM f = .ok found) : found.map g' = l.map g := by
  induction l generalizing found with
  | nil =>
    cases h
    rfl
  | cons first rest ih =>
    obtain ⟨b, others, hfirst, hrest, rfl⟩ := exists_of_mapM_cons h
    rw [List.map_cons, List.map_cons, hkeeps _ _ hfirst, ih hrest]

/-- What fails is the first that fails alone, and it fails alike. -/
theorem exists_of_mapM_error {l : List α} {e : ε} (h : l.mapM f = .error e) :
    ∃ earlier a later, l = earlier ++ a :: later ∧ (∀ b ∈ earlier, ∃ found, f b = .ok found) ∧
      f a = .error e := by
  induction l with
  | nil => cases h
  | cons a rest ih =>
    cases ha : f a with
    | error e' =>
      rw [mapM_cons_error ha] at h
      cases h
      exact ⟨[], a, rest, rfl, by simp, ha⟩
    | ok b =>
      rw [mapM_cons_ok ha] at h
      cases hrest : rest.mapM f with
      | ok others => simp [hrest, Except.map] at h
      | error e' =>
        rw [hrest] at h
        cases h
        obtain ⟨earlier, c, later, rfl, hearlier, hc⟩ := ih hrest
        exact ⟨a :: earlier, c, later, rfl, List.forall_mem_cons.mpr ⟨⟨b, ha⟩, hearlier⟩, hc⟩

end Each

/-! ## Keys that share a cache -/

section Keys

variable {choose : SolverChoice} {w : Workspace} {cache cache' : ModelCache} {r : SpaceRequest}
  {c : Condition}

/-- Of what is kept an enumeration needs no more than how its model loads. -/
theorem enumerate_congr
    (h : (cache.load w r.modelPath).answer = (cache'.load w r.modelPath).answer)
    (c : Condition) :
    (c.enumerate choose w cache r).answer = (c.enumerate choose w cache' r).answer := by
  unfold Condition.enumerate
  cases limitError? r.limit with
  | some e => rfl
  | none =>
    cases Budget.ofValue w.depths.values r.budget with
    | error fault => rfl
    | ok budget =>
      simp only [h]
      cases (cache'.load w r.modelPath).answer with
      | error e => rfl
      | ok m => cases r.limit.readCount.below (.field "limit") <;> rfl

/-- What an enumeration has done that gives a space. -/
theorem exists_of_enumerate {space : Space}
    (h : (c.enumerate choose w cache r).answer = .ok space) :
    ∃ m limit budget, (cache.load w r.modelPath).answer = .ok m ∧
      r.limit.readCount.below (.field "limit") = .ok limit ∧
      (c.spaceUnder choose m.model limit r.limit.text budget r.solverName).1 = .ok space ∧
      (c.enumerate choose w cache r).state = (cache.load w r.modelPath).state := by
  unfold Condition.enumerate at h ⊢
  cases hlimit : limitError? r.limit with
  | some e => simp [hlimit] at h
  | none =>
    cases hbudget : Budget.ofValue w.depths.values r.budget with
    | error fault => simp [hlimit, hbudget] at h
    | ok budget =>
      cases hload : (cache.load w r.modelPath).answer with
      | error e => simp [hlimit, hbudget, hload] at h
      | ok m =>
        cases hcount : r.limit.readCount.below (.field "limit") with
        | error details => simp [hlimit, hbudget, hload, hcount] at h
        | ok limit =>
          simp only [hlimit, hbudget, hload, hcount] at h ⊢
          exact ⟨m, limit, budget, rfl, rfl, h, trivial⟩

/-- Once a condition has been enumerated the model loads as it did before. -/
theorem load_after_enumerate {space : Space}
    (h : (c.enumerate choose w cache r).answer = .ok space) :
    ((c.enumerate choose w cache r).state.load w r.modelPath).answer =
      (cache.load w r.modelPath).answer := by
  obtain ⟨m, _, _, hload, _, _, hstate⟩ := exists_of_enumerate h
  rw [hstate, ModelCache.load_again hload, hload]

/-- Every key is enumerated as if there were no others. -/
theorem enumerateAll_answer (choose : SolverChoice) (w : Workspace) (r : SpaceRequest)
    (cache : ModelCache) (entries : List (Int × Condition)) :
    (SpaceLocator.enumerateAll choose w r cache entries).answer =
      entries.mapM fun p => (p.2.enumerate choose w cache r).answer.map fun space =>
        (p.1, space) := by
  induction entries generalizing cache with
  | nil => rfl
  | cons p rest ih =>
    unfold SpaceLocator.enumerateAll
    simp only
    split
    · rename_i e he
      rw [mapM_cons_error (by rw [he]; rfl)]
    · rename_i space hspace
      simp only
      rw [mapM_cons_ok (b := (p.1, space)) (by rw [hspace]; rfl), ih]
      simp only [enumerate_congr (load_after_enumerate hspace)]

end Keys

/-! ## Other solvers -/

/-- Every solver that is chosen gives right answers. -/
def SolverChoice.Right (choose : SolverChoice) : Prop :=
  ∀ name budget solver, choose name budget = .ok solver → solver.Sound

/-- As many configurations, the same flags, and the same configurations if those
are all. -/
structure Space.Agrees (s t : Space) : Prop where
  count : s.configurations.length = t.configurations.length
  exhausted : s.exhausted = t.exhausted
  timedOut : s.timedOut = t.timedOut
  same : s.exhausted = true → ∀ k, k ∈ s.configurations ↔ k ∈ t.configurations

section Solvers

variable {choose other : SolverChoice} {c : Condition} {space alone : Space}

/-- Whenever there is a space, it accounts for the solutions. Where no solver is
asked, it is the space that there would be with any. -/
theorem accounts_of_spaceUnder (hchoose : choose.Right) {m : FeatureModel} {limit : Nat}
    {shown : String} {budget : Option Float} {name : String}
    (h : (c.spaceUnder choose m limit shown budget name).1 = .ok space) :
    space.Accounts c m limit := by
  cases hsolver : choose name budget with
  | ok solver =>
    obtain ⟨found, hfound, hacc⟩ :=
      spaceUnder_accounts hsolver (hchoose _ _ _ hsolver) c m limit shown
    rw [hfound] at h
    cases h
    exact hacc
  | error fault =>
    have hunasked : (c.spaceUnder alwaysLearning m limit shown budget name).1 = .ok space := by
      unfold Condition.spaceUnder at h ⊢
      simp only [hsolver] at h
      split at h
      · rename_i hzero
        rw [if_pos hzero]
        exact h
      · rename_i hpos
        split at h
        · rename_i hfalse
          rw [if_neg hpos, if_pos hfalse]
          exact h
        · cases h
    obtain ⟨found, hfound, hacc⟩ := spaceUnder_accounts
      (show alwaysLearning name budget = .ok learning from rfl) learning_sound c m limit shown
    rw [hfound] at hunasked
    cases hunasked
    exact hacc

/-- Two spaces of one condition agree, unless one of them was cut off. -/
theorem Space.Accounts.agrees {m : FeatureModel} {limit : Nat} (h : space.Accounts c m limit)
    (h' : alone.Accounts c m limit) (htime : space.timedOut = false)
    (htime' : alone.timedOut = false) : space.Agrees alone := by
  have hiff : space.exhausted = true ↔ alone.exhausted = true := by
    rw [h.exhausted_iff, h'.exhausted_iff, htime, htime']
  refine ⟨by rw [h.counted htime, h'.counted htime'], Bool.eq_iff_iff.mpr hiff,
    htime.trans htime'.symm, ?_⟩
  intro he k
  exact ⟨fun hk => h'.complete (hiff.mp he) k (h.sound k hk),
    fun hk => h.complete he k (h'.sound k hk)⟩

/-- They may come from different caches, as long as the file is the same model
in both. -/
theorem agrees_of_enumerate (hchoose : choose.Right) (hother : other.Right) {w : Workspace}
    {cache cache' : ModelCache} {r : SpaceRequest}
    (hload : (cache.load w r.modelPath).answer.map (·.model) =
      (cache'.load w r.modelPath).answer.map (·.model))
    (h : (c.enumerate choose w cache r).answer = .ok space)
    (h' : (c.enumerate other w cache' r).answer = .ok alone) (htime : space.timedOut = false)
    (htime' : alone.timedOut = false) : space.Agrees alone := by
  obtain ⟨m, limit, _, hm, hlimit, hspace, _⟩ := exists_of_enumerate h
  obtain ⟨m', limit', _, hm', hlimit', halone, _⟩ := exists_of_enumerate h'
  have hmodel : m.model = m'.model := by
    rw [hm, hm'] at hload
    exact Except.ok.inj hload
  obtain rfl : limit = limit' := Except.ok.inj (hlimit.symm.trans hlimit')
  rw [← hmodel] at halone
  exact (accounts_of_spaceUnder hchoose hspace).agrees (accounts_of_spaceUnder hother halone)
    htime htime'

end Solvers

/-! ## Calls -/

/-- A call of a space locator: the file, what the source answers then, the
solvers that there are, and the readings of the clock before and after. -/
structure Call where
  file : String
  upstream : String → Except LocatorError (Table Int Condition)
  choose : SolverChoice
  began : Float
  ended : Float

namespace Call

/-- The call in which the source has a condition for one key only. -/
def only (q : Call) (key : Int) (pc : Condition) : Call :=
  { q with upstream := fun _ => .ok (Table.ofList [(key, pc)]) }

/-- What a call measures: its end, and how long it took. -/
def measurement (q : Call) : Measurement :=
  ⟨.float q.ended, some (.float (q.ended - q.began))⟩

end Call

/-- The locator with other answers of its source. -/
def ConditionLocator.answering (answer : String → Except LocatorError (Table Int Condition)) :
    ConditionLocator → ConditionLocator
  | .source s => .source { s with annotate := answer }
  | .build s b => .build { s with annotate := answer } b

/-- What is made of the conditions of a file, whatever they are. -/
def ConditionLocator.refinement (w : Workspace) (file : String) :
    ConditionLocator → Except LocateError (Condition → Condition)
  | .source _ => .ok id
  | .build _ b => ((b.scanner file).lookUp w).1.map fun found => combineLevels found.1

namespace SpaceLocator

/-- A call of the locator, with the answers that the source gives in it. -/
def call (l : SpaceLocator) (q : Call) (w : Workspace) (before : SpaceLocatorState) :
    LocatedSpaces :=
  { l with conditions := l.conditions.answering q.upstream }.annotate q.choose w q.began q.ended
    before q.file

/-- The calls of a schedule as turns of a session. -/
def calls (l : SpaceLocator) (schedule : Nat → Call) :
    Operation Nat SpaceLocatorState (Except LocatorError (Table Int Space)) :=
  fun n w before =>
    let done := l.call (schedule n) w before
    ⟨done.answer, done.state, done.events⟩

end SpaceLocator

theorem mapValues_id {κ ν : Type} (t : Table κ ν) : t.mapValues id = t :=
  Table.ext (List.map_id t.entries)

section Refinement

variable {l : ConditionLocator} {w : Workspace} {file : String}

/-- If the build conditions cannot be located, the source does not matter. -/
theorem annotate_of_refinement_error {e : LocateError} (h : l.refinement w file = .error e) :
    ∃ events, ∀ answer, (l.answering answer).annotate w file = ⟨.error (.locate e), 0, events⟩ := by
  cases l with
  | source s => cases h
  | build s b =>
    unfold ConditionLocator.answering ConditionLocator.annotate Scanner.locate
    simp only [ConditionLocator.refinement] at h
    cases hlook : (b.scanner file).lookUp w with
    | mk result events =>
      cases result with
      | ok found => simp [hlook, Except.map] at h
      | error e' =>
        simp only [hlook, Except.map, Except.error.injEq] at h
        subst h
        refine ⟨events, fun answer => ?_⟩
        simp only [hlook]

/-- Otherwise the source is asked once, and each of its conditions is refined
for itself. -/
theorem annotate_of_refinement {refine : Condition → Condition}
    (h : l.refinement w file = .ok refine)
    (answer : String → Except LocatorError (Table Int Condition)) :
    ((l.answering answer).annotate w file).answer = (answer file).map (·.mapValues refine) ∧
      ((l.answering answer).annotate w file).consultations = 1 := by
  cases l with
  | source s =>
    cases h
    refine ⟨?_, rfl⟩
    change answer file = (answer file).map (·.mapValues id)
    cases answer file with
    | error e => rfl
    | ok conditions => rw [Except.map, mapValues_id]
  | build s b =>
    unfold ConditionLocator.answering ConditionLocator.annotate Scanner.locate
    simp only [ConditionLocator.refinement] at h
    cases hlook : (b.scanner file).lookUp w with
    | mk result events =>
      cases result with
      | error e => simp [hlook, Except.map] at h
      | ok found =>
        simp only [hlook, Except.map, Except.ok.injEq] at h
        subst h
        simp only [hlook, and_self]

end Refinement

namespace SpaceLocator

section Call

variable {l : SpaceLocator} {q : Call} {w : Workspace} {before : SpaceLocatorState}

/-- A call measures if it succeeds, and only then. -/
theorem lastMeasurement_call (l : SpaceLocator) (q : Call) (w : Workspace)
    (before : SpaceLocatorState) :
    (l.call q w before).state.lastMeasurement =
      if (l.call q w before).answer.isOk then some q.measurement else before.lastMeasurement := by
  unfold call annotate
  generalize (l.conditions.answering q.upstream).annotate w q.file = located
  cases hlocated : located.answer with
  | error e =>
    simp only [hlocated]
    rfl
  | ok conditions =>
    cases hall : (enumerateAll q.choose w l.request before.cache conditions.entries).answer with
    | error e =>
      simp only [hlocated, hall]
      rfl
    | ok found =>
      simp only [hlocated, hall]
      rfl

theorem consultations_call (l : SpaceLocator) (q : Call) (w : Workspace)
    (before : SpaceLocatorState) :
    (l.call q w before).consultations =
      ((l.conditions.answering q.upstream).annotate w q.file).consultations := by
  unfold call annotate
  generalize (l.conditions.answering q.upstream).annotate w q.file = located
  cases hlocated : located.answer with
  | error e => simp only [hlocated]
  | ok conditions =>
    cases hall : (enumerateAll q.choose w l.request before.cache conditions.entries).answer with
    | error e => simp only [hlocated, hall]
    | ok found => simp only [hlocated, hall]

theorem consultations_of_refinement {refine : Condition → Condition}
    (h : l.conditions.refinement w q.file = .ok refine) :
    (l.call q w before).consultations = 1 := by
  rw [consultations_call]
  exact (annotate_of_refinement h q.upstream).2

/-- Where the build conditions cannot be located, a call ends before the source
is asked. -/
theorem call_of_refinement_error (before : SpaceLocatorState) {e : LocateError}
    (h : l.conditions.refinement w q.file = .error e) :
    ∃ events, ∀ upstream, l.call { q with upstream := upstream } w before =
      ⟨.error (.locate e), before, 0, events⟩ := by
  obtain ⟨events, hevents⟩ := annotate_of_refinement_error h
  refine ⟨events, fun upstream => ?_⟩
  unfold call annotate
  simp only [hevents]

variable {refine : Condition → Condition}

theorem answer_call_of_upstream_error {e : LocatorError}
    (h : l.conditions.refinement w q.file = .ok refine) (hsource : q.upstream q.file = .error e) :
    (l.call q w before).answer = .error e := by
  have hlocated := (annotate_of_refinement h q.upstream).1
  rw [hsource] at hlocated
  unfold call annotate
  simp only [hlocated, Except.map]

/-- The space of a condition under what is kept before a call. -/
def spaceOf (l : SpaceLocator) (q : Call) (w : Workspace) (before : SpaceLocatorState)
    (c : Condition) : Except SpaceError Space :=
  (c.enumerate q.choose w before.cache l.request).answer

/-- The entry of a key: it, with the space of its refined condition. -/
def entryOf (l : SpaceLocator) (q : Call) (w : Workspace) (before : SpaceLocatorState)
    (refine : Condition → Condition) (p : Int × Condition) : Except SpaceError (Int × Space) :=
  (l.spaceOf q w before (refine p.2)).map fun space => (p.1, space)

theorem entryOf_eq_ok {p : Int × Condition} {s : Int × Space} :
    l.entryOf q w before refine p = .ok s ↔
      s.1 = p.1 ∧ l.spaceOf q w before (refine p.2) = .ok s.2 := by
  unfold entryOf
  cases l.spaceOf q w before (refine p.2) with
  | error e => simp [Except.map]
  | ok space => simp [Except.map, Prod.ext_iff, eq_comm]

theorem entryOf_eq_error {p : Int × Condition} {e : SpaceError} :
    l.entryOf q w before refine p = .error e ↔
      l.spaceOf q w before (refine p.2) = .error e := by
  unfold entryOf
  cases l.spaceOf q w before (refine p.2) <;> simp [Except.map]

/-- A call gives each key its entry. -/
theorem answer_call (before : SpaceLocatorState) {conditions : Table Int Condition}
    (h : l.conditions.refinement w q.file = .ok refine)
    (hsource : q.upstream q.file = .ok conditions) :
    (l.call q w before).answer =
      ((conditions.entries.mapM (l.entryOf q w before refine)).mapError
        LocatorError.space).map Table.ofList := by
  have hlocated := (annotate_of_refinement h q.upstream).1
  rw [hsource] at hlocated
  have hall : (enumerateAll q.choose w l.request before.cache
      (conditions.mapValues refine).entries).answer =
      conditions.entries.mapM (l.entryOf q w before refine) := by
    rw [enumerateAll_answer, Table.mapValues, List.mapM_map]
    rfl
  rw [← hall]
  unfold call annotate
  simp only [hlocated, Except.map]
  cases (enumerateAll q.choose w l.request before.cache
    (conditions.mapValues refine).entries).answer <;> rfl

/-- All ways in which a call can end. -/
theorem answer_call_cases (l : SpaceLocator) (q : Call) (w : Workspace)
    (before : SpaceLocatorState) :
    (∃ e, l.conditions.refinement w q.file = .error e ∧
      (l.call q w before).answer = .error (.locate e)) ∨
    (∃ refine e, l.conditions.refinement w q.file = .ok refine ∧ q.upstream q.file = .error e ∧
      (l.call q w before).answer = .error e) ∨
    (∃ refine conditions e, l.conditions.refinement w q.file = .ok refine ∧
      q.upstream q.file = .ok conditions ∧
      conditions.entries.mapM (l.entryOf q w before refine) = .error e ∧
      (l.call q w before).answer = .error (.space e)) ∨
    ∃ refine conditions found, l.conditions.refinement w q.file = .ok refine ∧
      q.upstream q.file = .ok conditions ∧
      conditions.entries.mapM (l.entryOf q w before refine) = .ok found ∧
      (l.call q w before).answer = .ok (Table.ofList found) := by
  cases hrefine : l.conditions.refinement w q.file with
  | error e =>
    obtain ⟨events, hevents⟩ := call_of_refinement_error before hrefine
    have hcall : l.call q w before = _ := hevents q.upstream
    exact Or.inl ⟨e, rfl, by rw [hcall]⟩
  | ok refine =>
    cases hsource : q.upstream q.file with
    | error e =>
      exact Or.inr (Or.inl ⟨refine, e, rfl, rfl, answer_call_of_upstream_error hrefine hsource⟩)
    | ok conditions =>
      have hanswer := answer_call before hrefine hsource
      cases hall : conditions.entries.mapM (l.entryOf q w before refine) with
      | error e =>
        rw [hall] at hanswer
        exact Or.inr (Or.inr (Or.inl ⟨refine, conditions, e, rfl, rfl, hall, hanswer⟩))
      | ok found =>
        rw [hall] at hanswer
        exact Or.inr (Or.inr (Or.inr ⟨refine, conditions, found, rfl, rfl, hall, hanswer⟩))

/-- A key that is called alone is given its entry alone. -/
theorem answer_call_only (h : l.conditions.refinement w q.file = .ok refine) (key : Int)
    (pc : Condition) :
    (l.call (q.only key pc) w before).answer =
      ((l.spaceOf q w before (refine pc)).mapError LocatorError.space).map fun space =>
        Table.ofList [(key, space)] := by
  have hentries : (Table.ofList [(key, pc)]).entries = [(key, pc)] := rfl
  have hsame : l.entryOf (q.only key pc) w before refine = l.entryOf q w before refine := rfl
  rw [answer_call (q := q.only key pc) before h rfl, hentries, hsame]
  cases hspace : l.spaceOf q w before (refine pc) with
  | error e =>
    rw [mapM_cons_error (entryOf_eq_error.mpr hspace)]
    rfl
  | ok space =>
    rw [mapM_cons_ok (entryOf_eq_ok (s := (key, space)) |>.mpr ⟨rfl, hspace⟩)]
    rfl

theorem answer_call_only_of_ok (h : l.conditions.refinement w q.file = .ok refine) (key : Int)
    {pc : Condition} {space : Space} (hspace : l.spaceOf q w before (refine pc) = .ok space) :
    (l.call (q.only key pc) w before).answer = .ok (Table.ofList [(key, space)]) := by
  rw [answer_call_only h, hspace]
  rfl

theorem answer_call_only_of_error (h : l.conditions.refinement w q.file = .ok refine) (key : Int)
    {pc : Condition} {e : SpaceError} (hspace : l.spaceOf q w before (refine pc) = .error e) :
    (l.call (q.only key pc) w before).answer = .error (.space e) := by
  rw [answer_call_only h, hspace]
  rfl

end Call

/-! ## Batches -/

/-- Why a call fails: the build conditions cannot be located, the source fails
when it is asked, or some key fails, alone as well, and those before it do
not. -/
inductive Fails (l : SpaceLocator) (q : Call) (w : Workspace) (before : SpaceLocatorState) :
    LocatorError → Prop
  | unlocated {source : Source} {b : BuildSystem} {e : LocateError}
      (hconditions : l.conditions = .build source b)
      (hlook : ((b.scanner q.file).lookUp w).1 = .error e) : Fails l q w before (.locate e)
  | refused {e : LocatorError} (hasked : (l.call q w before).consultations = 1)
      (hsource : q.upstream q.file = .error e) : Fails l q w before e
  | key {refine : Condition → Condition} {conditions : Table Int Condition}
      {earlier later : List (Int × Condition)} {key : Int} {pc : Condition} {e : SpaceError}
      (hrefine : l.conditions.refinement w q.file = .ok refine)
      (hsource : q.upstream q.file = .ok conditions)
      (hentries : conditions.entries = earlier ++ (key, pc) :: later)
      (hearlier : ∀ p ∈ earlier, ∃ space, l.spaceOf q w before (refine p.2) = .ok space)
      (hkey : l.spaceOf q w before (refine pc) = .error e)
      (halone : (l.call (q.only key pc) w before).answer = .error (.space e)) :
      Fails l q w before (.space e)

/-- What a call does, from any state. -/
structure IsWhole (l : SpaceLocator) (q : Call) (w : Workspace) (before : SpaceLocatorState) :
    Prop where
  /-- A call that succeeds measures and has the keys of the source. Each key has
  the space of its own refined condition, in a call of its own as well, and one
  that agrees with what any other solvers give for that condition, whatever
  models are kept then. -/
  whole : ∀ spaces, (l.call q w before).answer = .ok spaces →
    (l.call q w before).state.lastMeasurement = some q.measurement ∧
    ∃ refine conditions, l.conditions.refinement w q.file = .ok refine ∧
      q.upstream q.file = .ok conditions ∧ spaces.keys = conditions.keys ∧
      ∀ key pc, conditions.get? key = some pc → ∃ space, spaces.get? key = some space ∧
        l.spaceOf q w before (refine pc) = .ok space ∧
        (l.call (q.only key pc) w before).answer = .ok (Table.ofList [(key, space)]) ∧
        ∀ other cache alone, q.choose.Right → other.Right →
          (before.cache.load w l.request.modelPath).answer.map (·.model) =
            (cache.load w l.request.modelPath).answer.map (·.model) →
          ((refine pc).enumerate other w cache l.request).answer = .ok alone →
          space.timedOut = false → alone.timedOut = false → space.Agrees alone
  /-- A call that fails does not measure, and it fails for a reason. -/
  nothing : ∀ e, (l.call q w before).answer = .error e →
    (l.call q w before).state.lastMeasurement = before.lastMeasurement ∧ l.Fails q w before e
  /-- With a build system the source is asked once. It is not asked if the build
  conditions cannot be located, and the call is the same then whatever it would
  have answered. -/
  asked : ∀ source b, l.conditions = .build source b →
    match ((b.scanner q.file).lookUp w).1 with
    | .ok _ => (l.call q w before).consultations = 1
    | .error e => (l.call q w before).consultations = 0 ∧
        (l.call q w before).answer = .error (.locate e) ∧ (l.call q w before).state = before ∧
        ∀ upstream, l.call { q with upstream := upstream } w before = l.call q w before

/-- The measurements of the calls that succeeded. -/
def measurements (schedule : Nat → Call) (asked : List (Workspace × Nat))
    (answers : List (Except LocatorError (Table Int Space))) : List Measurement :=
  ((asked.zip answers).filter (·.2.isOk)).map fun p => (schedule p.1.2).measurement

/-- The last measurement is that of the last call that succeeded, whatever
failed since. -/
theorem lastMeasurement_after (l : SpaceLocator) (schedule : Nat → Call) (turns : List (Turn Nat))
    (x : Session SpaceLocatorState) :
    (x.after (l.calls schedule) turns).state.lastMeasurement =
      (measurements schedule (Session.asked x.files turns)
        (x.answers (l.calls schedule) turns)).getLast?.or x.state.lastMeasurement := by
  induction turns generalizing x with
  | nil => rfl
  | cons t turns ih =>
    rw [Session.after, List.foldl_cons, ← Session.after, ih]
    cases t with
    | change apply => rfl
    | ask n =>
      rw [Session.turn_ask]
      simp only [calls, lastMeasurement_call, Session.asked, Session.answers, measurements,
        List.zip_cons_cons, Session.turn_ask]
      cases (l.call (schedule n) x.files x.state).answer with
      | error e => rfl
      | ok spaces =>
        rw [List.filter_cons_of_pos rfl, List.map_cons, List.getLast?_cons]
        simp [Except.isOk, Except.toBool]

section Batch

variable {l : SpaceLocator} {q : Call} {w : Workspace} {before : SpaceLocatorState}

theorem fails_of_refinement_error {e : LocateError}
    (h : l.conditions.refinement w q.file = .error e) : l.Fails q w before (.locate e) := by
  cases hconditions : l.conditions with
  | source s =>
    rw [hconditions] at h
    cases h
  | build s b =>
    apply Fails.unlocated hconditions
    rw [hconditions, ConditionLocator.refinement] at h
    cases hlook : ((b.scanner q.file).lookUp w).1 with
    | error e' =>
      rw [hlook] at h
      cases h
      rfl
    | ok found =>
      rw [hlook] at h
      cases h

theorem fails_of_answer {e : LocatorError} (h : (l.call q w before).answer = .error e) :
    l.Fails q w before e := by
  rcases answer_call_cases l q w before with ⟨_, hrefine, hanswer⟩ |
    ⟨_, _, hrefine, hsource, hanswer⟩ | ⟨refine, conditions, _, hrefine, hsource, hall, hanswer⟩ |
    ⟨_, _, _, _, _, _, hanswer⟩
  all_goals
    rw [hanswer] at h
    cases h
  · exact fails_of_refinement_error hrefine
  · exact .refused (consultations_of_refinement hrefine) hsource
  · obtain ⟨earlier, ⟨key, pc⟩, later, hentries, hearlier, hkey⟩ := exists_of_mapM_error hall
    have hspace := entryOf_eq_error.mp hkey
    -- Alone the key fails as it does here: every key is enumerated from the
    -- same cache.
    refine .key hrefine hsource hentries ?_ hspace (answer_call_only_of_error hrefine key hspace)
    intro p hp
    obtain ⟨s, hs⟩ := hearlier p hp
    exact ⟨s.2, (entryOf_eq_ok.mp hs).2⟩

/-- What a call that succeeds has found. -/
theorem exists_of_answer {spaces : Table Int Space} (h : (l.call q w before).answer = .ok spaces) :
    ∃ refine conditions, l.conditions.refinement w q.file = .ok refine ∧
      q.upstream q.file = .ok conditions ∧ spaces.keys = conditions.keys ∧
      ∀ key pc, conditions.get? key = some pc → ∃ space, spaces.get? key = some space ∧
        l.spaceOf q w before (refine pc) = .ok space := by
  rcases answer_call_cases l q w before with ⟨_, _, hanswer⟩ | ⟨_, _, _, _, hanswer⟩ |
    ⟨_, _, _, _, _, _, hanswer⟩ | ⟨refine, conditions, found, hrefine, hsource, hall, hanswer⟩
  all_goals
    rw [hanswer] at h
    cases h
  have hkeys : found.map Prod.fst = conditions.keys :=
    map_eq_of_mapM (fun _ _ hs => (entryOf_eq_ok.mp hs).1) hall
  have hentries : (Table.ofList found).entries = found :=
    Table.entries_ofList (hkeys ▸ conditions.nodup)
  refine ⟨refine, conditions, hrefine, hsource, by rw [Table.keys, hentries, hkeys], ?_⟩
  intro key pc hpc
  obtain ⟨⟨key', space⟩, hs, hspace⟩ :=
    exists_mem_of_mapM hall (key, pc) (Table.mem_of_get? hpc)
  obtain ⟨rfl, hspace⟩ := entryOf_eq_ok.mp hspace
  refine ⟨space, ?_, hspace⟩
  apply Table.get?_of_mem (p := (key', space))
  rw [hentries]
  exact hs

end Batch

theorem a_call_is_whole (l : SpaceLocator) (q : Call) (w : Workspace)
    (before : SpaceLocatorState) : l.IsWhole q w before where
  whole spaces h := by
    obtain ⟨refine, conditions, hrefine, hsource, hkeys, hall⟩ := exists_of_answer h
    refine ⟨by rw [lastMeasurement_call, h]; rfl, refine, conditions, hrefine, hsource, hkeys, ?_⟩
    intro key pc hpc
    obtain ⟨space, hget, hspace⟩ := hall key pc hpc
    refine ⟨space, hget, hspace, answer_call_only_of_ok hrefine key hspace, ?_⟩
    intro other cache alone hchoose hother hload halone
    exact agrees_of_enumerate hchoose hother hload hspace halone
  nothing e h := ⟨by rw [lastMeasurement_call, h]; rfl, fails_of_answer h⟩
  asked source b hconditions := by
    cases hlook : ((b.scanner q.file).lookUp w).1 with
    | ok found =>
      have hrefine : l.conditions.refinement w q.file = .ok (combineLevels found.1) := by
        rw [hconditions, ConditionLocator.refinement, hlook]
        rfl
      exact consultations_of_refinement hrefine
    | error e =>
      have hrefine : l.conditions.refinement w q.file = .error e := by
        rw [hconditions, ConditionLocator.refinement, hlook]
        rfl
      obtain ⟨events, hevents⟩ := call_of_refinement_error before hrefine
      have hcall : l.call q w before = _ := hevents q.upstream
      simp only [hcall]
      exact ⟨trivial, trivial, trivial, hevents⟩

/-- Whatever the files become between the calls and whatever the source answers
to each: the last measurement is that of the last call that succeeded, if any
did, and the next call is whole or fails and leaves it as it is. -/
theorem a_batch_is_whole_or_leaves_the_last_measurement (l : SpaceLocator) (schedule : Nat → Call)
    (w : Workspace) (cache : ModelCache) (turns : List (Turn Nat)) (q : Call) :
    let start : Session SpaceLocatorState := ⟨w, ⟨cache, none⟩⟩
    let x := start.after (l.calls schedule) turns
    x.state.lastMeasurement =
        (measurements schedule (Session.asked w turns)
          (start.answers (l.calls schedule) turns)).getLast? ∧
      l.IsWhole q x.files x.state := by
  intro start x
  refine ⟨?_, a_call_is_whole l q x.files x.state⟩
  rw [lastMeasurement_after, Option.or_none]

end SpaceLocator

end Variability
