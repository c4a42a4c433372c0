-- Budgets: a time budget that lasts changes no outcome, unless the solver is
-- asked in a way that it refuses.
import Variability.Proofs.Batches

namespace Variability

open Cnf Variability.Sat

namespace Sat

/-! ## What a library promises -/

/-- Of a clause that fits every literal has a variable for which there is
room. -/
def Fits (room : Nat → Prop) (c : Clause) : Prop := ∀ l ∈ c, l ≠ 0 ∧ room l.natAbs

/-- The solver takes the clauses that fit and no others, and every answer it
gives is right. -/
structure Solver.Faithful (s : Solver) (room : Nat → Prop) : Prop where
  start (cs : List Clause) : (∃ session, s.start cs = .ok session) ↔ ∀ c ∈ cs, Fits room c
  ask {models : Valuation → Prop} (session : s.Session models) :
    ∃ verdict next, s.ask session = .ok (verdict, next) ∧ verdict.IsRight models
  give {models : Valuation → Prop} (session : s.Session models) (c : Clause) :
    (∃ next, s.give c session = .ok next) ↔ Fits room c

theorem Solver.Faithful.soundOn {s : Solver} {room : Nat → Prop} (h : s.Faithful room) :
    s.SoundOn (Fits room) :=
  ⟨fun cs => (h.start cs).mpr, h.ask, fun session c => (h.give session c).mpr⟩

namespace Backend

/-- Asked so that it may be interrupted the solver gives right answers as well,
and it is not interrupted unless it is overtaken. -/
def Interruptible (b : Backend) : Prop :=
  ∀ (models : Valuation → Prop) (overtaken : Bool) (session : b.Session models),
    ∃ verdict next, b.askInterruptibly overtaken session = .ok (verdict, next) ∧
      verdict.IsRight models ∧ (verdict = .interrupted → overtaken = true)

def Refuses (b : Backend) : Prop :=
  ∀ (models : Valuation → Prop) (overtaken : Bool) (session : b.Session models),
    b.askInterruptibly overtaken session = .error .notInterruptible

end Backend

/-- What a library promises of the solvers that it knows. Of the names that are
asked so that they may be interrupted only those of one solver refuse. -/
structure Library.Documented (l : Library) : Prop where
  faithful {name : String} {b : Backend} :
    l name = .ok b → ∃ room, b.toSolver.Faithful room
  neverInterrupted {name : String} {b : Backend} :
    l name = .ok b → b.toSolver.NeverInterrupted
  interruptible {name : String} {b : Backend} : l name = .ok b →
    name ∈ interruptibleNames → name ∉ uninterruptibleNames → b.Interruptible
  refuses {name : String} {b : Backend} :
    l name = .ok b → name ∈ uninterruptibleNames → b.Refuses

namespace Library

variable {l : Library} {name : String} {b : Backend} (clock : Clock)

theorem solver_without_budget (h : l (lowered name) = .ok b) :
    l.solver clock name none = .ok b.toSolver := by
  unfold solver
  rw [h]

theorem solver_under_budget (h : l (lowered name) = .ok b) (seconds : Float) :
    l.solver clock name (some seconds) =
      .ok (b.timed (interruptibleNames.contains name) (clock seconds)) := by
  unfold solver
  rw [h]

end Library

/-- Names that are asked so that they may be interrupted are written in small
letters. -/
theorem lowered_of_mem_interruptibleNames {name : String} (h : name ∈ interruptibleNames) :
    lowered name = name := by
  revert name
  decide +kernel

/-- Two names are asked so that they may be interrupted although they cannot
be. -/
theorem mem_uninterruptibleNames_iff {name : String} (h : name ∈ interruptibleNames) :
    name ∈ uninterruptibleNames ↔ name ∈ ["cadical195", "cd19"] := by
  revert name
  decide +kernel

theorem mem_interruptibleNames_of_refused {name : String} (h : name ∈ ["cadical195", "cd19"]) :
    name ∈ interruptibleNames := by
  revert name
  decide +kernel

namespace Library.Documented

variable {l : Library} {name : String} {b : Backend}

theorem refuses_of_mem (h : l.Documented) (hknown : l (lowered name) = .ok b)
    (hname : name ∈ ["cadical195", "cd19"]) : b.Refuses := by
  have hasked := mem_interruptibleNames_of_refused hname
  rw [lowered_of_mem_interruptibleNames hasked] at hknown
  exact h.refuses hknown ((mem_uninterruptibleNames_iff hasked).mpr hname)

theorem interruptible_of_not_mem (h : l.Documented) (hknown : l (lowered name) = .ok b)
    (hname : name ∉ ["cadical195", "cd19"]) (hasked : interruptibleNames.contains name = true) :
    b.Interruptible := by
  have hasked : name ∈ interruptibleNames := List.contains_iff_mem.mp hasked
  rw [lowered_of_mem_interruptibleNames hasked] at hknown
  refine h.interruptible hknown hasked ?_
  intro hmem
  exact hname ((mem_uninterruptibleNames_iff hasked).mp hmem)

end Library.Documented

/-! ## Questions in time -/

namespace Backend

/-- The solver as it is asked when there is time. -/
def asked (b : Backend) (interruptibly : Bool) : Solver :=
  { b.toSolver with
    ask := fun session =>
      if interruptibly then b.askInterruptibly false session else b.ask session }

section Asked

variable {b : Backend} {interruptibly : Bool}

theorem faithful_asked {room : Nat → Prop} (h : b.toSolver.Faithful room)
    (hinterruptible : interruptibly = true → b.Interruptible) :
    (b.asked interruptibly).Faithful room where
  start := h.start
  give := h.give
  ask session := by
    cases interruptibly with
    | false => exact h.ask session
    | true =>
      obtain ⟨verdict, next, hask, hright, _⟩ := hinterruptible rfl _ false session
      exact ⟨verdict, next, hask, hright⟩

theorem neverInterrupted_asked (h : b.toSolver.NeverInterrupted)
    (hinterruptible : interruptibly = true → b.Interruptible) :
    (b.asked interruptibly).NeverInterrupted := by
  intro models session next hask
  cases interruptibly with
  | false => exact h session next hask
  | true =>
    obtain ⟨verdict, next', hanswer, _, hcut⟩ := hinterruptible rfl _ false session
    have hverdict : verdict = .interrupted :=
      congrArg Prod.fst (Except.ok.inj (hanswer.symm.trans hask))
    cases hcut hverdict

end Asked

/-- A session under a deadline, before the question of that number. -/
def numbered (b : Backend) (interruptibly : Bool) (timing : Nat → Timing) (k : Nat)
    {models : Valuation → Prop} (session : (b.asked interruptibly).Session models) :
    (b.timed interruptibly timing).Session models := (k, session)

section Timed

variable {b : Backend} {interruptibly : Bool} {timing : Nat → Timing}
  {models : Valuation → Prop}

theorem start_timed (cs : List Clause) :
    (b.timed interruptibly timing).start cs =
      ((b.asked interruptibly).start cs).map (b.numbered interruptibly timing 0) := rfl

theorem give_numbered (k : Nat) (c : Clause)
    (session : (b.asked interruptibly).Session models) :
    (b.timed interruptibly timing).give c (b.numbered interruptibly timing k session) =
      ((b.asked interruptibly).give c session).map (b.numbered interruptibly timing k) := rfl

theorem ask_numbered {k : Nat} (h : timing k = .inTime)
    (session : (b.asked interruptibly).Session models) :
    (b.timed interruptibly timing).ask (b.numbered interruptibly timing k session) =
      ((b.asked interruptibly).ask session).map fun answer =>
        (answer.1, b.numbered interruptibly timing (k + 1) answer.2) := by
  unfold timed numbered asked
  simp only [h]
  rfl

end Timed

end Backend

end Sat

/-! ## Loops that are in time -/

/-- How many questions the loop asks. -/
def questions (solver : Solver) (projection : List (Int × String)) :
    Nat → {models : Valuation → Prop} → solver.Session models → Nat
  | 0, _, _ => 0
  | remaining + 1, _, session =>
    match solver.ask session with
    | .ok (.model literals, next) =>
      if projection = [] then 1
      else
        match solver.give (blockingClause projection literals) next with
        | .error _ => 1
        | .ok after => questions solver projection remaining after + 1
    | _ => 1

/-- How many questions are asked for the configurations of a condition. -/
def Condition.questions (solver : Solver) (c : Condition) (m : FeatureModel) (limit : Nat) : Nat :=
  if c.isFalse then 0
  else
    match solver.start (c.encode m).clauses with
    | .error _ => 0
    | .ok session => Variability.questions solver (c.encode m).projection limit session

theorem questions_pos (solver : Solver) (projection : List (Int × String)) (remaining : Nat)
    {models : Valuation → Prop} (session : solver.Session models) :
    0 < questions solver projection (remaining + 1) session := by
  unfold questions
  split
  · split
    · exact Nat.one_pos
    · split
      · exact Nat.one_pos
      · exact Nat.succ_pos _
  · exact Nat.one_pos

section InTime

variable {b : Backend} {interruptibly : Bool} {timing : Nat → Timing}

/-- If all of its questions are in time, the deadline does not matter to the
loop. -/
theorem findConfigurations_timed {projection : List (Int × String)} {models : Valuation → Prop}
    (session : (b.asked interruptibly).Session models) {k remaining : Nat}
    (found : List Configuration)
    (h : ∀ j < questions (b.timed interruptibly timing) projection remaining
      (b.numbered interruptibly timing k session), timing (k + j) = .inTime) :
    findConfigurations (b.timed interruptibly timing) projection remaining
        (b.numbered interruptibly timing k session) found =
      findConfigurations (b.asked interruptibly) projection remaining session found := by
  induction remaining generalizing models k found with
  | zero => rfl
  | succ remaining ih =>
    have hfirst : timing k = .inTime := h 0 (questions_pos _ _ _ _)
    unfold findConfigurations
    unfold questions at h
    rw [Backend.ask_numbered hfirst] at h ⊢
    cases hanswer : (b.asked interruptibly).ask session with
    | error fault => rfl
    | ok answer =>
      obtain ⟨verdict, next⟩ := answer
      cases verdict with
      | interrupted => rfl
      | unsatisfiable => rfl
      | model literals =>
        simp only [hanswer, Except.map, Backend.give_numbered] at h ⊢
        by_cases hprojected : projection = []
        · rw [if_pos hprojected, if_pos hprojected]
        · rw [if_neg hprojected] at h ⊢
          rw [if_neg hprojected]
          cases hgive : (b.asked interruptibly).give (blockingClause projection literals) next with
          | error fault => rfl
          | ok after =>
            simp only [hgive] at h ⊢
            apply ih
            intro j hj
            rw [Nat.add_assoc, Nat.add_comm 1 j]
            exact h (j + 1) (Nat.succ_lt_succ hj)

/-- A run whose questions are all in time is that of the solver as it is asked
then. -/
theorem configurations_timed {c : Condition} {m : FeatureModel} {limit : Nat}
    (hfalse : c.isFalse = false)
    (h : ∀ k < c.questions (b.timed interruptibly timing) m limit, timing k = .inTime) :
    (c.encode m).configurations (b.timed interruptibly timing) limit =
      (c.encode m).configurations (b.asked interruptibly) limit := by
  unfold Condition.questions at h
  unfold Encoding.configurations
  rw [hfalse, Backend.start_timed] at h
  rw [Backend.start_timed]
  cases hstart : (b.asked interruptibly).start (c.encode m).clauses with
  | error fault => rfl
  | ok session =>
    rw [hstart] at h
    apply findConfigurations_timed
    intro j hj
    rw [Nat.zero_add]
    exact h j hj

end InTime

/-! ## Solvers that have the same room -/

/-- There is room for the clauses, and for those that exclude what satisfies
them. -/
def Encoding.HasRoom (room : Nat → Prop) (e : Encoding) : Prop :=
  (∀ c ∈ e.clauses, Fits room c) ∧
    ((∃ v, clausesHold v e.clauses = true) → ∀ p ∈ e.projection, room p.1.natAbs)

theorem fits_blockingClause {room : Nat → Prop} {projection : List (Int × String)}
    (h : ProperProjection projection) (literals : List Int) :
    Fits room (blockingClause projection literals) ↔ ∀ p ∈ projection, room p.1.natAbs := by
  have hsize : ∀ p : Int × String,
      (if (Std.HashSet.ofList literals).contains p.1 then -p.1 else p.1).natAbs = p.1.natAbs := by
    intro p
    split
    · exact Int.natAbs_neg p.1
    · rfl
  constructor
  · intro hfits p hp
    rw [← hsize p]
    exact (hfits _ (List.mem_map.mpr ⟨p, hp, rfl⟩)).2
  · intro hroom l hl
    refine ⟨blockingClause_ne_zero h literals l hl, ?_⟩
    obtain ⟨p, hp, rfl⟩ := List.mem_map.mp hl
    rw [hsize p]
    exact hroom p hp

section Room

variable {solver : Solver} {room : Nat → Prop} {c : Condition} {m : FeatureModel} {limit : Nat}

theorem configurations_of_room (hs : solver.Faithful room) (h : (c.encode m).HasRoom room)
    (limit : Nat) : ∃ r, (c.encode m).configurations solver limit = .ok r ∧
      r.Accounts (c.encode m).projection (solutions c m) 0 limit := by
  refine encode_configurations_accounts hs.soundOn h.1 ?_ limit
  intro literals hholds
  exact (fits_blockingClause (properProjection_encode c m) literals).mpr (h.2 ⟨_, hholds⟩)

/-- Without room the loop fails at the first clause that does not fit: one of
the encoding, or the one that excludes the first configuration. -/
theorem configurations_of_no_room (hs : solver.Faithful room) (hn : solver.NeverInterrupted)
    (h : ¬ (c.encode m).HasRoom room) (hpos : 0 < limit) :
    ∃ fault, (c.encode m).configurations solver limit = .error fault := by
  unfold Encoding.configurations
  cases hstart : solver.start (c.encode m).clauses with
  | error fault => exact ⟨fault, rfl⟩
  | ok session =>
    have hclauses := (hs.start _).mp ⟨session, hstart⟩
    have hblocked : ¬ ((∃ v, clausesHold v (c.encode m).clauses = true) →
        ∀ p ∈ (c.encode m).projection, room p.1.natAbs) := fun hroom => h ⟨hclauses, hroom⟩
    push Not at hblocked
    obtain ⟨⟨v, hv⟩, p, hp, hlarge⟩ := hblocked
    obtain ⟨remaining, rfl⟩ := Nat.exists_eq_succ_of_ne_zero (Nat.ne_of_gt hpos)
    obtain ⟨verdict, next, hask, hright⟩ := hs.ask session
    simp only
    unfold findConfigurations
    rw [hask]
    cases verdict with
    | interrupted => exact absurd hask (hn session next)
    | unsatisfiable => exact absurd hv (hright v)
    | model literals =>
      have hprojected : (c.encode m).projection ≠ [] := List.ne_nil_of_mem hp
      simp only [if_neg hprojected]
      cases hgive : solver.give (blockingClause (c.encode m).projection literals) next with
      | error fault => exact ⟨fault, rfl⟩
      | ok after =>
        have hfits := (hs.give _ _).mp ⟨after, hgive⟩
        rw [fits_blockingClause (properProjection_encode c m)] at hfits
        exact absurd (hfits p hp) hlarge

end Room

/-! ## Outcomes -/

/-- Both fail, or both give spaces that agree, and no answer was cut off. -/
inductive SameOutcome : Except SpaceError Space → Except SpaceError Space → Prop
  | failed (e e' : SpaceError) : SameOutcome (.error e) (.error e')
  | found {s t : Space} (intime : s.timedOut = false) (agrees : s.Agrees t) :
    SameOutcome (.ok s) (.ok t)

theorem sameOutcome_error_iff {e : SpaceError} {x : Except SpaceError Space} :
    SameOutcome (.error e) x ↔ ∀ s, x ≠ .ok s := by
  constructor
  · rintro h s rfl
    cases h
  · intro h
    cases x with
    | error e' => exact .failed e e'
    | ok s => exact absurd rfl (h s)

section Answers

variable {choose : SolverChoice} {c : Condition} {m : FeatureModel} {limit : Nat} {shown : String}
  {budget : Option Float} {name : String} {solver : Solver}

/-- The space of what the loop ended with. -/
def Condition.spaceOf (c : Condition) (limit : Nat) (r : Found) : Space :=
  { Space.start c.render limit with
    configurations := r.configurations
    exhausted := r.exhausted
    timedOut := r.timedOut }

def Condition.answerOf (c : Condition) (m : FeatureModel) (limit : Nat) (name : String) :
    Except SolverFault Found → Except SpaceError Space
  | .error fault => .error (.solver name m.source fault)
  | .ok r => .ok (c.spaceOf limit r)

theorem limit_of_answerOf {x : Except SolverFault Found} {space : Space}
    (h : c.answerOf m limit name x = .ok space) : space.limit = limit := by
  cases x <;> cases h
  rfl

theorem spaceUnder_of_asked (hchoose : choose name budget = .ok solver) (hpos : 0 < limit)
    (hfalse : c.isFalse = false) :
    (c.spaceUnder choose m limit shown budget name).1 =
      c.answerOf m limit name ((c.encode m).configurations solver limit) := by
  unfold Condition.spaceUnder
  simp only [Nat.ne_of_gt hpos, hfalse, hchoose, if_false, Bool.false_eq_true]
  cases (c.encode m).configurations solver limit <;> rfl

/-- Where nothing is asked, the solver and the budget do not matter. -/
theorem spaceUnder_of_unasked (m : FeatureModel) (h : limit = 0 ∨ c.isFalse = true) :
    ∃ space, space.limit = limit ∧ space.timedOut = false ∧
      ∀ (choose : SolverChoice) (shown : String) (budget : Option Float) (name : String),
        (c.spaceUnder choose m limit shown budget name).1 = .ok space := by
  rcases Nat.eq_zero_or_pos limit with rfl | hpos
  · exact ⟨Space.start c.render 0, rfl, rfl, fun _ _ _ _ => rfl⟩
  · have hfalse : c.isFalse = true := h.resolve_left (Nat.ne_of_gt hpos)
    refine ⟨{ Space.start c.render limit with exhausted := true }, rfl, rfl, ?_⟩
    intro choose shown budget name
    rw [spaceUnder_of_isFalse hfalse hpos]

/-- Two solvers with the same room for variables give outcomes that are the
same, whichever models they pick. -/
theorem sameOutcome_of_faithful {other : Solver} {room : Nat → Prop} (hs : solver.Faithful room)
    (ht : other.Faithful room) (hsn : solver.NeverInterrupted) (htn : other.NeverInterrupted)
    (hpos : 0 < limit) (c : Condition) (m : FeatureModel) (name : String) :
    SameOutcome (c.answerOf m limit name ((c.encode m).configurations solver limit))
      (c.answerOf m limit name ((c.encode m).configurations other limit)) := by
  by_cases hroom : (c.encode m).HasRoom room
  · obtain ⟨r, hr, hacc⟩ := configurations_of_room hs hroom limit
    obtain ⟨r', hr', hacc'⟩ := configurations_of_room ht hroom limit
    have hagrees : (c.spaceOf limit r).Agrees (c.spaceOf limit r') :=
      (Space.accounts_of_found hacc rfl rfl rfl).agrees
        (Space.accounts_of_found hacc' rfl rfl rfl)
        (configurations_not_timedOut hsn hr) (configurations_not_timedOut htn hr')
    rw [hr, hr']
    exact .found (configurations_not_timedOut hsn hr) hagrees
  · obtain ⟨fault, hfault⟩ := configurations_of_no_room hs hsn hroom hpos
    obtain ⟨fault', hfault'⟩ := configurations_of_no_room ht htn hroom hpos
    rw [hfault, hfault']
    exact .failed _ _

/-- A solver that refuses fails at the first question, if not before. -/
theorem configurations_of_refuses {b : Backend} (h : b.Refuses) (hpos : 0 < limit)
    (c : Condition) (m : FeatureModel) :
    ∃ fault, (c.encode m).configurations (b.asked true) limit = .error fault ∧
      ((∃ session, b.start (c.encode m).clauses = .ok session) → fault = .notInterruptible) := by
  obtain ⟨remaining, rfl⟩ := Nat.exists_eq_succ_of_ne_zero (Nat.ne_of_gt hpos)
  unfold Encoding.configurations
  cases hstart : (b.asked true).start (c.encode m).clauses with
  | error fault =>
    refine ⟨fault, rfl, ?_⟩
    rintro ⟨session, hsession⟩
    cases hstart.symm.trans hsession
  | ok session =>
    have hask : (b.asked true).ask session = .error .notInterruptible := h _ false session
    simp only
    unfold findConfigurations
    rw [hask]
    exact ⟨_, rfl, fun _ => rfl⟩

/-- Where all is in time it does not matter how the solver is asked, unless it
refuses and there would have been a space. -/
theorem sameOutcome_asked_iff {l : Library} (hl : l.Documented) {b : Backend}
    (hknown : l (lowered name) = .ok b) (hpos : 0 < limit) (c : Condition) (m : FeatureModel) :
    let plain := c.answerOf m limit name ((c.encode m).configurations b.toSolver limit)
    SameOutcome (c.answerOf m limit name ((c.encode m).configurations
        (b.asked (interruptibleNames.contains name)) limit)) plain ↔
      (name ∈ ["cadical195", "cd19"] → ∀ space, plain ≠ .ok space) := by
  intro plain
  by_cases hname : name ∈ ["cadical195", "cd19"]
  · have hasked : interruptibleNames.contains name = true :=
      List.contains_iff_mem.mpr (mem_interruptibleNames_of_refused hname)
    obtain ⟨fault, hfault, _⟩ :=
      configurations_of_refuses (hl.refuses_of_mem hknown hname) hpos c m
    rw [hasked, hfault]
    exact sameOutcome_error_iff.trans ⟨fun h _ => h, fun h => h hname⟩
  · have hinterruptible := hl.interruptible_of_not_mem hknown hname
    obtain ⟨room, hfaithful⟩ := hl.faithful hknown
    have hnever : b.toSolver.NeverInterrupted := hl.neverInterrupted hknown
    refine ⟨fun _ h => absurd h hname, fun _ => ?_⟩
    exact sameOutcome_of_faithful (Backend.faithful_asked hfaithful hinterruptible) hfaithful
      (Backend.neverInterrupted_asked hnever hinterruptible) hnever hpos c m name

/-- An enumeration fails whatever the budget and the solvers are, or its model
loads and they decide. -/
theorem enumerate_cases (w : Workspace) (cache : ModelCache) (c : Condition) (r : SpaceRequest) :
    (∃ e, ∀ (choose : SolverChoice) (value : Value) (budget : Option Float),
      Budget.ofValue w.depths.values value = .ok budget →
      (c.enumerate choose w cache { r with budget := value }).answer = .error e) ∨
    ∃ m limit, (cache.load w r.modelPath).answer = .ok m ∧ r.limit.readCount = .ok limit ∧
      ∀ (choose : SolverChoice) (value : Value) (budget : Option Float),
        Budget.ofValue w.depths.values value = .ok budget →
        (c.enumerate choose w cache { r with budget := value }).answer =
          (c.spaceUnder choose m.model limit r.limit.text budget r.solverName).1 := by
  cases hlimit : limitError? r.limit with
  | some e =>
    refine Or.inl ⟨e, ?_⟩
    intro choose value budget _
    unfold Condition.enumerate
    simp only [hlimit]
  | none =>
    cases hload : (cache.load w r.modelPath).answer with
    | error e =>
      refine Or.inl ⟨.model e, ?_⟩
      intro choose value budget hbudget
      unfold Condition.enumerate
      simp only [hlimit, hbudget, hload]
    | ok m =>
      cases hcount : r.limit.readCount with
      | error details =>
        refine Or.inl ⟨.invalidLimit
          (details.map fun d => { d with place := .field "limit" :: d.place }), ?_⟩
        intro choose value budget hbudget
        unfold Condition.enumerate
        simp only [hlimit, hbudget, hload, hcount, Checked.below, Except.mapError]
      | ok limit =>
        refine Or.inr ⟨m, limit, rfl, rfl, ?_⟩
        intro choose value budget hbudget
        exact congrArg (·.answer) (enumerate_of_count choose c (r := { r with budget := value })
          hlimit hcount hbudget hload)

end Answers

/-! ## A library of one solver -/

namespace Sat

theorem learning_faithful : learning.Faithful fun _ => True where
  start cs := by
    constructor
    · rintro ⟨session, hsession⟩ c hc l hl
      by_contra hl0
      have hzero : ¬ ∀ c ∈ cs, ∀ l ∈ c, l ≠ 0 := fun h => hl0 ⟨h c hc l hl, trivial⟩
      rw [show learning.start cs = .error .zeroLiteral from dif_neg hzero] at hsession
      cases hsession
    · intro h
      exact learning_sound.start cs fun c hc l hl => (h c hc l hl).1
  ask := learning_sound.ask
  give session c := by
    constructor
    · rintro ⟨next, hnext⟩ l hl
      by_contra hl0
      have hzero : ¬ ∀ l ∈ c, l ≠ 0 := fun h => hl0 ⟨h l hl, trivial⟩
      rw [show learning.give c session = .error .zeroLiteral from dif_neg hzero] at hnext
      cases hnext
    · intro h
      exact learning_sound.give session c fun l hl => (h l hl).1

theorem libraryOf_eq_ok {s : Solver} {name : String} {b : Backend}
    (h : libraryOf s name = .ok b) :
    name ∈ uninterruptibleNames ∧ b = s.uninterruptible ∨
      name ∉ uninterruptibleNames ∧ b = s.interruptible := by
  unfold libraryOf at h
  split at h
  · cases h
  · split at h
    · cases h
    · split at h
      · rename_i hmem
        cases h
        exact Or.inl ⟨List.contains_iff_mem.mp hmem, rfl⟩
      · rename_i hmem
        cases h
        exact Or.inr ⟨fun hn => hmem (List.contains_iff_mem.mpr hn), rfl⟩

/-- The library of a solver that gives right answers and is not interrupted
keeps what libraries promise. -/
theorem documented_libraryOf {s : Solver} {room : Nat → Prop} (hs : s.Faithful room)
    (hn : s.NeverInterrupted) : (libraryOf s).Documented where
  faithful h := by
    rcases libraryOf_eq_ok h with ⟨_, rfl⟩ | ⟨_, rfl⟩ <;> exact ⟨room, hs⟩
  neverInterrupted h := by
    rcases libraryOf_eq_ok h with ⟨_, rfl⟩ | ⟨_, rfl⟩ <;> exact hn
  interruptible h _ hmem models overtaken session := by
    rcases libraryOf_eq_ok h with ⟨hrefused, _⟩ | ⟨_, rfl⟩
    · exact absurd hrefused hmem
    · cases overtaken with
      | true => exact ⟨.interrupted, session, rfl, trivial, fun _ => rfl⟩
      | false =>
        obtain ⟨verdict, next, hask, hright⟩ := hs.ask session
        refine ⟨verdict, next, hask, hright, ?_⟩
        rintro rfl
        exact absurd hask (hn session next)
  refuses h hmem models overtaken session := by
    rcases libraryOf_eq_ok h with ⟨_, rfl⟩ | ⟨hother, _⟩
    · rfl
    · exact absurd hmem hother

end Sat

/-! ## Budgets that last -/

/-- While the request is worked on the deadline does not come: every question
that is asked is answered in time. -/
def SpaceRequest.Lasts (r : SpaceRequest) (w : Workspace) (cache : ModelCache) (c : Condition)
    (b : Backend) (timing : Nat → Timing) : Prop :=
  ∀ m limit, (cache.load w r.modelPath).answer = .ok m → r.limit.readCount = .ok limit →
    ∀ k < c.questions (b.timed (interruptibleNames.contains r.solverName) timing) m.model limit,
      timing k = .inTime

/-- Under every name that the library knows, in letters of either case, a budget
that lasts gives the same outcome as no budget, unless the name is one of the
two, so written, that are asked to be interruptible but refuse, and without a
budget there is a space that is looked for. -/
theorem a_budget_that_lasts_changes_nothing_unless_the_solver_refuses {l : Library}
    (hl : l.Documented) {clock : Clock} {w : Workspace} {cache : ModelCache} {c : Condition}
    {r : SpaceRequest} {b : Backend} {seconds : Float}
    (hknown : l (lowered r.solverName) = .ok b)
    (hbudget : Budget.ofValue w.depths.values r.budget = .ok (some seconds))
    (hlasts : r.Lasts w cache c b (clock seconds)) :
    let limited := (c.enumerate (l.solver clock) w cache r).answer
    let unlimited := (c.enumerate (l.solver clock) w cache { r with budget := .null }).answer
    SameOutcome limited unlimited ↔
      (r.solverName ∈ ["cadical195", "cd19"] →
        ∀ space, unlimited = .ok space → c.isFalse = true ∨ space.limit = 0) := by
  intro limited unlimited
  rcases enumerate_cases w cache c r with ⟨e, hfails⟩ | ⟨m, limit, hload, hcount, hdone⟩
  · have hfirst : limited = .error e := hfails _ r.budget _ hbudget
    have hsecond : unlimited = .error e := hfails _ .null none rfl
    rw [hfirst, hsecond]
    refine ⟨?_, fun _ => .failed e e⟩
    intro _ _ space hspace
    cases hspace
  have hfirst : limited = _ := hdone _ r.budget _ hbudget
  have hsecond : unlimited = _ := hdone _ .null none rfl
  by_cases hnone : limit = 0 ∨ c.isFalse = true
  · obtain ⟨space, hlimit, htime, hspace⟩ := spaceUnder_of_unasked m.model hnone
    rw [hfirst, hsecond, hspace, hspace]
    refine ⟨?_, fun _ => .found htime ⟨rfl, rfl, rfl, fun _ _ => Iff.rfl⟩⟩
    rintro _ _ _ ⟨⟩
    rw [hlimit]
    exact hnone.symm
  · obtain ⟨hlimit, hfalse⟩ := not_or.mp hnone
    rw [Bool.not_eq_true] at hfalse
    have hpos : 0 < limit := Nat.pos_of_ne_zero hlimit
    rw [spaceUnder_of_asked (l.solver_under_budget clock hknown seconds) hpos hfalse,
      configurations_timed hfalse (hlasts m limit hload hcount)] at hfirst
    rw [spaceUnder_of_asked (l.solver_without_budget clock hknown) hpos hfalse] at hsecond
    rw [hfirst, hsecond]
    refine (sameOutcome_asked_iff hl hknown hpos c m.model).trans ?_
    -- Once a solver is asked, neither way out is left: there would be no space.
    refine imp_congr_right fun _ => forall_congr' fun space => imp_congr_right fun hspace => ?_
    rw [limit_of_answerOf hspace, hfalse]
    simp [hlimit]

/-- Two configurations are asked for, from a solver of that name. -/
def twoFrom (name : String) (budget : Value) : SpaceRequest := ⟨"/model", .int 2, budget, name⟩

/-- All names stand for the solver that learns, and every question is in
time. -/
def patientLearning : SolverChoice := (libraryOf learning).solver fun _ _ => .inTime

/-- What is answered if any two configurations under the formula are asked
for. -/
def answerUnder (name : String) (budget : Value) : Except SpaceError Space :=
  ((Condition.always .plain).enumerate patientLearning oneClause .empty
    (twoFrom name budget)).answer

/-- A minute is a budget. -/
theorem ofValue_minute (room : Nat) :
    ∃ seconds, Budget.ofValue room (.int 60) = .ok (some seconds) := by
  have hsome : (Budget.ofValue 0 (.int 60)).toOption.map Option.isSome = some true := by
    decide +kernel
  obtain ⟨budget, hbudget, hseconds⟩ := Option.map_eq_some_iff.mp hsome
  obtain ⟨seconds, rfl⟩ := Option.isSome_iff_exists.mp hseconds
  refine ⟨seconds, Eq.trans ?_ (eq_ok_of_toOption hbudget)⟩
  simp only [Budget.ofValue, Budget.seconds?]

/-- In letters of either case a name is known, and a minute changes nothing. -/
theorem a_minute_does_not_matter_to_most_names :
    SameOutcome (answerUnder "g4" (.int 60)) (answerUnder "g4" .null) ∧
      SameOutcome (answerUnder "Cadical195" (.int 60)) (answerUnder "Cadical195" .null) := by
  obtain ⟨seconds, hbudget⟩ := ofValue_minute oneClause.depths.values
  have hdocumented := documented_libraryOf learning_faithful learning_neverInterrupted
  have hfirst : libraryOf learning (lowered "g4") = .ok learning.interruptible := by
    rw [show lowered "g4" = "g4" by decide +kernel]
    rfl
  have hsecond : libraryOf learning (lowered "Cadical195") = .ok learning.uninterruptible := by
    rw [show lowered "Cadical195" = "cadical195" by decide +kernel]
    rfl
  constructor
  · refine (a_budget_that_lasts_changes_nothing_unless_the_solver_refuses hdocumented
      (c := .always .plain) (r := twoFrom "g4" (.int 60)) hfirst hbudget ?_).mpr ?_
    · exact fun _ _ _ _ _ _ => rfl
    · exact fun hname => absurd hname (by decide)
  · refine (a_budget_that_lasts_changes_nothing_unless_the_solver_refuses hdocumented
      (c := .always .plain) (r := twoFrom "Cadical195" (.int 60)) hsecond hbudget ?_).mpr ?_
    · exact fun _ _ _ _ _ _ => rfl
    · exact fun hname => absurd hname (by decide)

/-- In small letters the same name has a space without a budget, and fails with
a minute. -/
theorem a_minute_makes_a_refusing_solver_fail :
    (∃ space, answerUnder "cadical195" .null = .ok space) ∧
      (∃ source, answerUnder "cadical195" (.int 60) =
        .error (.solver "cadical195" source .notInterruptible)) ∧
      ¬ SameOutcome (answerUnder "cadical195" (.int 60)) (answerUnder "cadical195" .null) := by
  obtain ⟨seconds, hbudget⟩ := ofValue_minute oneClause.depths.values
  obtain ⟨m, hload⟩ := load_oneClause
  have hknown : libraryOf learning (lowered "cadical195") = .ok learning.uninterruptible := by
    rw [show lowered "cadical195" = "cadical195" by decide +kernel]
    rfl
  have hunlimited : patientLearning "cadical195" none = .ok learning :=
    Library.solver_without_budget _ hknown
  have hlimited : patientLearning "cadical195" (some seconds) =
      .ok (learning.uninterruptible.timed true fun _ => .inTime) :=
    Library.solver_under_budget _ hknown seconds
  have hspace : ∃ space, answerUnder "cadical195" .null = .ok space := by
    obtain ⟨space, hspace, _⟩ := spaceUnder_accounts hunlimited learning_sound (.always .plain)
      m.model 2 (Value.int 2).text
    refine ⟨space, ?_⟩
    unfold answerUnder
    rw [enumerate_of_load patientLearning (.always .plain) (r := twoFrom "cadical195" .null)
      (show Value.int 2 = .int (2 : Nat) from rfl) rfl hload]
    exact hspace
  have herror : answerUnder "cadical195" (.int 60) =
      .error (.solver "cadical195" m.model.source .notInterruptible) := by
    obtain ⟨fault, hfault, hrefused⟩ := configurations_of_refuses (b := learning.uninterruptible)
      (fun _ _ _ => rfl) (show 0 < 2 by decide) (.always .plain) m.model
    obtain rfl := hrefused (learning_sound.start _ (zeroFree_encode (.always .plain) m.model))
    unfold answerUnder
    rw [enumerate_of_load patientLearning (.always .plain) (r := twoFrom "cadical195" (.int 60))
      (show Value.int 2 = .int (2 : Nat) from rfl) hbudget hload]
    change ((Condition.always .plain).spaceUnder patientLearning m.model 2 _ (some seconds)
      "cadical195").1 = _
    rw [spaceUnder_of_asked hlimited (by decide) (by decide),
      configurations_timed (by decide) fun _ _ => rfl, hfault]
    rfl
  refine ⟨hspace, ⟨_, herror⟩, ?_⟩
  obtain ⟨space, hspace⟩ := hspace
  rw [herror, hspace, sameOutcome_error_iff]
  intro h
  exact h space rfl

end Variability
