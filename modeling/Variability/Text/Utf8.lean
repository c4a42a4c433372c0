-- UTF-8: the characters that a run of bytes spells, and where a run that
-- spells none goes wrong.

namespace Variability.Text

/-! ## Faults -/

/-- Why bytes are not UTF-8: the byte at an offset cannot stand there, or the
last character lacks bytes. A surrogate is refused at its third byte. -/
inductive Utf8Fault
  | invalid (offset : Nat)
  | truncated
deriving DecidableEq, Repr

/-- The characters before the fault, and the fault. -/
structure Decoded where
  chars : List Char
  fault : Option Utf8Fault
deriving DecidableEq, Repr

/-! ## Decoding -/

/-- The range of the byte after the lead byte `lead`. It is narrower than that
of other continuation bytes where a longer spelling than needed, a surrogate
or a number beyond the last character would arise. -/
def secondByteRange (lead : Nat) : Nat × Nat :=
  if lead = 0xe0 then (0xa0, 0xbf)
  else if lead = 0xed then (0x80, 0x9f)
  else if lead = 0xf0 then (0x90, 0xbf)
  else if lead = 0xf4 then (0x80, 0x8f)
  else (0x80, 0xbf)

def mayFollow (lead : Nat) (b : UInt8) : Bool :=
  (secondByteRange lead).1 ≤ b.toNat && b.toNat ≤ (secondByteRange lead).2

/-- Whether a lead byte and the byte after it start a surrogate. -/
def startsSurrogate (lead : Nat) (b : UInt8) : Bool :=
  lead = 0xed && 0xa0 ≤ b.toNat && b.toNat ≤ 0xbf

def isContinuation (b : UInt8) : Bool := 0x80 ≤ b.toNat && b.toNat ≤ 0xbf

/-- The six bits that a continuation byte carries. -/
def payload (b : UInt8) : Nat := b.toNat - 0x80

/-- Decodes the bytes from `offset` on, after the characters `done`, last
character first. -/
def decodeFrom (done : List Char) (offset : Nat) : List UInt8 → Decoded
  | [] => ⟨done.reverse, none⟩
  | b :: rest =>
    let lead := b.toNat
    if lead < 0x80 then decodeFrom (Char.ofNat lead :: done) (offset + 1) rest
    else if lead < 0xc2 then ⟨done.reverse, some (.invalid offset)⟩
    else if lead < 0xe0 then
      match rest with
      | [] => ⟨done.reverse, some .truncated⟩
      | c :: rest =>
        if mayFollow lead c then
          decodeFrom (Char.ofNat ((lead - 0xc0) * 64 + payload c) :: done) (offset + 2) rest
        else ⟨done.reverse, some (.invalid (offset + 1))⟩
    else if lead < 0xf0 then
      match rest with
      | [] => ⟨done.reverse, some .truncated⟩
      | [c] =>
        ⟨done.reverse, some
          (if mayFollow lead c || startsSurrogate lead c then .truncated
          else .invalid (offset + 1))⟩
      | c :: d :: rest =>
        if startsSurrogate lead c then ⟨done.reverse, some (.invalid (offset + 2))⟩
        else if !mayFollow lead c then ⟨done.reverse, some (.invalid (offset + 1))⟩
        else if !isContinuation d then ⟨done.reverse, some (.invalid (offset + 2))⟩
        else
          decodeFrom
            (Char.ofNat (((lead - 0xe0) * 64 + payload c) * 64 + payload d) :: done)
            (offset + 3) rest
    else if lead < 0xf5 then
      match rest with
      | [] => ⟨done.reverse, some .truncated⟩
      | [c] =>
        ⟨done.reverse, some (if mayFollow lead c then .truncated else .invalid (offset + 1))⟩
      | [c, d] =>
        ⟨done.reverse, some
          (if !mayFollow lead c then .invalid (offset + 1)
          else if isContinuation d then .truncated else .invalid (offset + 2))⟩
      | c :: d :: e :: rest =>
        if !mayFollow lead c then ⟨done.reverse, some (.invalid (offset + 1))⟩
        else if !isContinuation d then ⟨done.reverse, some (.invalid (offset + 2))⟩
        else if !isContinuation e then ⟨done.reverse, some (.invalid (offset + 3))⟩
        else
          decodeFrom
            (Char.ofNat ((((lead - 0xf0) * 64 + payload c) * 64 + payload d) * 64 + payload e)
              :: done)
            (offset + 4) rest
    else ⟨done.reverse, some (.invalid offset)⟩

def decodeUtf8 (bytes : List UInt8) : Decoded := decodeFrom [] 0 bytes

/-- The text that the bytes spell, if they are UTF-8 throughout. -/
def utf8Text? (bytes : List UInt8) : Option (List Char) :=
  match decodeUtf8 bytes with
  | ⟨chars, none⟩ => some chars
  | ⟨_, some _⟩ => none

/-! ## Bytes that may be no text -/

/-- The character that the bytes start with, and how many of them it takes. -/
def firstChar? (bytes : List UInt8) : Option (Char × Nat) :=
  [1, 2, 3, 4].findSome? fun n =>
    match decodeUtf8 (bytes.take n) with
    | ⟨[c], none⟩ => some (c, n)
    | _ => none

/-- The code points of the bytes behind the first `skip`. A byte that belongs
to no character becomes a surrogate. -/
def escapedFrom : Nat → List UInt8 → List Nat
  | _, [] => []
  | skip + 1, _ :: rest => escapedFrom skip rest
  | 0, b :: rest =>
    match firstChar? (b :: rest) with
    | some (c, n) => c.toNat :: escapedFrom (n - 1) rest
    | none => (0xdc00 + b.toNat) :: escapedFrom 0 rest

/-- The code points of bytes that may be no text. -/
def escapedPoints (bytes : List UInt8) : List Nat := escapedFrom 0 bytes

/-! ## Reading block by block -/

/-- The text that a reader has who takes whole blocks of bytes and stops at
the first block whose decoding fails, and whether it got to the end. A
character that is not complete at the end of the bytes fails only once no
block is left. -/
def readableText (blockSize : Nat) (bytes : List UInt8) : List Char × Bool :=
  match decodeUtf8 bytes with
  | ⟨chars, none⟩ => (chars, true)
  | ⟨chars, some .truncated⟩ => (chars, false)
  | ⟨_, some (.invalid offset)⟩ =>
    ((decodeUtf8 (bytes.take (offset / blockSize * blockSize))).chars, false)

end Variability.Text
