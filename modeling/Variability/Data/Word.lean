-- Words: whole numbers that fit into a fixed number of bits, and what is left
-- of those that do not.

namespace Variability

/-- The largest number of a word of 64 bits. -/
def largestWord : Nat := 0x7fffffffffffffff

/-- Whether a number fits into a word of 64 bits; most fit into less. -/
def isWord (i : Int) : Bool :=
  i.natAbs < 0x80000000 || i.natAbs ≤ largestWord || i = -(largestWord : Int) - 1

/-- What a word of 32 bits keeps of a number. -/
def halfWord (i : Int) : Int :=
  if i.natAbs < 0x80000000 then i else Int.bmod i 0x100000000

end Variability
