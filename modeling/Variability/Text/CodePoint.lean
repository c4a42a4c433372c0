-- Code points of texts in which a surrogate may stand without its partner.

namespace Variability.Text

/-- The character of a code point; a surrogate has none. -/
def charOf? (n : Nat) : Option Char :=
  if h : n.isValidChar then some (Char.ofNatAux n h) else none

@[simp] theorem charOf?_toNat (c : Char) : charOf? c.toNat = some c := by
  have h : c.toNat.isValidChar := c.valid
  rw [charOf?, dif_pos h]
  rfl

/-- The text of code points without surrogates. -/
def exactText? (points : List Nat) : Option String := (points.mapM charOf?).map String.ofList

/-- The replacement character in place of each of the three bytes that a
surrogate would take. -/
def replacement : List Char := List.replicate 3 (Char.ofNat 0xfffd)

/-- The text of code points, with replacements for surrogates. -/
def lossyText (points : List Nat) : String :=
  String.ofList (points.flatMap fun n =>
    match charOf? n with
    | some c => [c]
    | none => replacement)

/-- Where the first surrogates stand, and they. -/
def firstSurrogates (points : List Nat) : Nat × List Nat :=
  let before := points.takeWhile fun n => (charOf? n).isSome
  (before.length, (points.drop before.length).takeWhile fun n => (charOf? n).isNone)

end Variability.Text
