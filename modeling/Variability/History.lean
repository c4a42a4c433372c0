-- Histories: notes that tell where a result came from, kept per owner.
import Variability.Data.Table
import Variability.Event

namespace Variability

/-- The notes of every owner that has some, oldest note first. Owners are
told apart by numbers. -/
structure History where
  notes : Table Nat (List String)
deriving DecidableEq

namespace History

def empty : History := ⟨Table.empty⟩

def notesOf (h : History) (owner : Nat) : List String := (h.notes.get? owner).getD []

def add (h : History) (owner : Nat) (note : String) : History :=
  ⟨h.notes.insert owner (h.notesOf owner ++ [note])⟩

/-- A note is added behind those of its owner and leaves the others alone. -/
theorem notesOf_add (h : History) (owner other : Nat) (note : String) :
    (h.add owner note).notesOf other =
      if owner = other then h.notesOf other ++ [note] else h.notesOf other := by
  rw [notesOf, add, Table.get?_insert]
  by_cases ho : owner = other <;> simp [ho, notesOf]

/-- The number of owners with notes. -/
def size (h : History) : Nat := h.notes.size

/-- Forgets an owner that is gone. -/
def drop (h : History) (owner : Nat) : History := ⟨h.notes.erase owner⟩

/-- Adds a note and reports it, with the kind of the owner. -/
def record (h : History) (kind : String) (owner : Nat) (note : String) : History × Event :=
  (h.add owner note, .noted kind note)

end History

end Variability
