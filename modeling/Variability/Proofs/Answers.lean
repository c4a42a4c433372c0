-- What is asked of a solver: right answers, whichever models it picks, and
-- room for any answer to be cut off. A solver that learns keeps to it.
import Variability.Space.Enumeration

namespace Variability.Sat

open Cnf

/-! ## Right answers -/

/-- What an answer says of the clauses: that the listed literals fit together
and satisfy them, that nothing satisfies them, or nothing at all. -/
def Verdict.IsRight (models : Valuation → Prop) : Verdict → Prop
  | .model literals => Consistent literals ∧ models (completion literals)
  | .unsatisfiable => ∀ v, ¬ models v
  | .interrupted => True

namespace Solver

/-- The solver takes all clauses without the literal zero, and every answer it
gives is right. Which model it picks and which answers are cut off may depend on
anything that its sessions hold. -/
structure Sound (s : Solver) : Prop where
  start (cs : List Clause) : ZeroFree cs → ∃ session, s.start cs = .ok session
  ask {models : Valuation → Prop} (session : s.Session models) :
    ∃ verdict next, s.ask session = .ok (verdict, next) ∧ verdict.IsRight models
  give {models : Valuation → Prop} (session : s.Session models) (c : Clause) :
    (∀ l ∈ c, l ≠ 0) → ∃ next, s.give c session = .ok next

/-- The solver takes such clauses, and every answer it gives is right. -/
structure SoundOn (s : Solver) (takes : Clause → Prop) : Prop where
  start (cs : List Clause) : (∀ c ∈ cs, takes c) → ∃ session, s.start cs = .ok session
  ask {models : Valuation → Prop} (session : s.Session models) :
    ∃ verdict next, s.ask session = .ok (verdict, next) ∧ verdict.IsRight models
  give {models : Valuation → Prop} (session : s.Session models) (c : Clause) :
    takes c → ∃ next, s.give c session = .ok next

theorem Sound.soundOn {s : Solver} (h : s.Sound) : s.SoundOn fun c => ∀ l ∈ c, l ≠ 0 :=
  ⟨h.start, h.ask, h.give⟩

/-- No answer is cut off. -/
def NeverInterrupted (s : Solver) : Prop :=
  ∀ {models : Valuation → Prop} (session next : s.Session models),
    s.ask session ≠ .ok (.interrupted, next)

/-- The solver for at most `n` questions; it fails at every question more. -/
def upTo (s : Solver) (n : Nat) : Solver where
  Session models := Nat × s.Session models
  start cs := (s.start cs).map fun session => (n, session)
  ask
    | (0, _) => .error .notInterruptible
    | (left + 1, session) => (s.ask session).map fun answer => (answer.1, (left, answer.2))
  give c session := (s.give c session.2).map fun next => (session.1, next)

section UpTo

variable (s : Solver) (n : Nat) {models : Valuation → Prop}

/-- A session with so many questions left. -/
def leave (left : Nat) (session : s.Session models) : (s.upTo n).Session models := (left, session)

theorem start_upTo (cs : List Clause) :
    (s.upTo n).start cs = (s.start cs).map (s.leave n n) := rfl

theorem ask_leave (left : Nat) (session : s.Session models) :
    (s.upTo n).ask (s.leave n (left + 1) session) =
      (s.ask session).map fun answer => (answer.1, s.leave n left answer.2) := rfl

theorem give_leave (left : Nat) (c : Clause) (session : s.Session models) :
    (s.upTo n).give c (s.leave n left session) = (s.give c session).map (s.leave n left) := rfl

end UpTo

end Solver

/-! ## The solver that learns -/

theorem learning_sound : learning.Sound where
  start cs h := by
    exact ⟨⟨cs, h, fun _ => Iff.rfl, .start cs⟩, dif_pos h⟩
  ask {models} x := by
    refine ⟨_, _, rfl, ?_⟩
    unfold Verdict.IsRight
    split
    · rename_i literals h
      obtain ⟨hc, hh⟩ := Session.of_ask_model x.zeroFree h
      exact ⟨hc, (x.meaning _).mpr hh⟩
    · rename_i h
      intro v hv
      have := Session.of_ask_unsatisfiable x.zeroFree h v
      rw [(x.meaning v).mp hv] at this
      simp at this
    · trivial
  give {models} x c h := by
    exact ⟨⟨c :: x.clauses, List.forall_mem_cons.mpr ⟨h, x.zeroFree⟩,
      fun v => by simp [x.meaning v, clausesHold], x.session.give c⟩, dif_pos h⟩

theorem learning_neverInterrupted : learning.NeverInterrupted := by
  intro models x next h
  have hv : (x.session.ask).1 = .interrupted := congrArg Prod.fst (Except.ok.inj h)
  revert hv
  unfold Session.ask verdictOf
  split
  · split <;> simp
  · split
    · simp
    · simp
    · split <;> simp

end Variability.Sat
