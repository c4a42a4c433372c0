-- Sessions: an operation with a state of its own is asked again and again while
-- the files change.
import Variability.Event
import Variability.Workspace

namespace Variability

/-- The outcome with an answer made of its own, unless that is an error. -/
def Outcome.mapAnswer {σ ε α β : Type} (o : Outcome σ (Except ε α)) (f : α → β) :
    Outcome σ (Except ε β) :=
  ⟨o.answer.map f, o.state, o.events⟩

/-- What is done with a question, the files and the state so far. -/
abbrev Operation (ι σ α : Type) := ι → Workspace → σ → Outcome σ α

/-- One turn of a session: the files change in any way, or something is
asked. -/
inductive Turn (ι : Type)
  | change (apply : Workspace → Workspace)
  | ask (question : ι)

/-- The files, and the state that the last operation has left behind. -/
structure Session (σ : Type) where
  files : Workspace
  state : σ

namespace Session

variable {ι σ α : Type}

def turn (op : Operation ι σ α) (x : Session σ) : Turn ι → Session σ
  | .change apply => { x with files := apply x.files }
  | .ask question => { x with state := (op question x.files x.state).state }

/-- The session after some turns. -/
def after (op : Operation ι σ α) (x : Session σ) (turns : List (Turn ι)) : Session σ :=
  turns.foldl (turn op) x

/-- What is asked, each question with the files that it finds. -/
def asked (files : Workspace) : List (Turn ι) → List (Workspace × ι)
  | [] => []
  | .change apply :: rest => asked (apply files) rest
  | .ask question :: rest => (files, question) :: asked files rest

/-- The answers, first to last. -/
def answers (op : Operation ι σ α) (x : Session σ) : List (Turn ι) → List α
  | [] => []
  | .change apply :: rest => answers op (x.turn op (.change apply)) rest
  | .ask question :: rest =>
    (op question x.files x.state).answer :: answers op (x.turn op (.ask question)) rest

@[simp] theorem turn_change (op : Operation ι σ α) (x : Session σ)
    (apply : Workspace → Workspace) : x.turn op (.change apply) = ⟨apply x.files, x.state⟩ := rfl

@[simp] theorem turn_ask (op : Operation ι σ α) (x : Session σ) (question : ι) :
    x.turn op (.ask question) = ⟨x.files, (op question x.files x.state).state⟩ := rfl

theorem after_append (op : Operation ι σ α) (x : Session σ) (turns more : List (Turn ι)) :
    x.after op (turns ++ more) = (x.after op turns).after op more := List.foldl_append

theorem after_concat (op : Operation ι σ α) (x : Session σ) (turns : List (Turn ι))
    (t : Turn ι) : x.after op (turns ++ [t]) = (x.after op turns).turn op t := after_append ..

end Session

end Variability
