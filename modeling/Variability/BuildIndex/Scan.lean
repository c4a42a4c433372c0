-- Scanning a build index: one pass over its lines finds the condition text
-- of every key.
import Std.Data.HashMap
import Std.Data.HashSet
import Variability.BuildIndex.Key
import Variability.Event
import Variability.Text.Utf8
import Variability.Workspace

namespace Variability.BuildIndex

open Text

/-! ## Errors -/

inductive IndexFault
  | file (fault : FileFault)
  | notUtf8
deriving DecidableEq, Repr

/-- Why an index cannot be read, and its path. -/
structure IndexError where
  path : String
  fault : IndexFault
deriving DecidableEq, Repr

def IndexError.message (e : IndexError) : String :=
  let phrase? :=
    match e.fault with
    | .file fault => fault.phrase?
    | .notUtf8 => none
  phrase?.getD ("Cannot read Kmax file " ++ e.path ++ ": ")

/-- Whether an error is reported as that of an index. One that is not reaches
the caller as it arose. -/
def IndexError.isReported (e : IndexError) : Bool :=
  match e.fault with
  | .file fault => fault.isFound
  | .notUtf8 => true

/-! ## Lines -/

/-- The key of a line and the rest of its words with single spaces between
them. A line of fewer than two words has none. -/
def entryOf? (line : List Char) : Option (Key × String) :=
  match words line with
  | tag :: path :: rest =>
    some (⟨String.ofList tag, String.ofList path⟩, String.ofList (unwords rest))
  | _ => none

/-- The condition texts that a pass has found, and whether it found everything
before the lines ended. -/
structure Pass where
  found : Std.HashMap Key String
  finished : Bool
  events : List Event

/-- Goes on with a pass over the lines from `number` on. Each key takes its
first line; later ones are reported. The pass ends with the last key. -/
def scanLines (index : String) (number : Nat) (pending : Std.HashSet Key)
    (found : Std.HashMap Key String) : List (List Char) → Pass
  | [] => ⟨found, false, []⟩
  | line :: rest =>
    match entryOf? line with
    | none => scanLines index (number + 1) pending found rest
    | some (key, text) =>
      if pending.contains key then
        let pending := pending.erase key
        let found := found.insert key text
        if pending.isEmpty then ⟨found, true, []⟩
        else scanLines index (number + 1) pending found rest
      else if found.contains key then
        let pass := scanLines index (number + 1) pending found rest
        { pass with events := .duplicateEntry key.tag key.path index number :: pass.events }
      else scanLines index (number + 1) pending found rest

/-! ## Files -/

/-- An index is read in blocks of this many bytes. -/
def blockSize : Nat := 8192

/-- The lines that can be read, and whether they are all. -/
def readableLines (bytes : List UInt8) : List (List Char) × Bool :=
  match readableText blockSize bytes with
  | (text, true) => (linesAt isFileLineEnd text, true)
  | (text, false) => (closedLinesAt isFileLineEnd text, false)

/-- Finds the condition texts of the keys. Bytes that are not text matter only
if they are read before the last key is found. -/
def scan (w : Workspace) (index : String) (keys : List Key) :
    Except IndexError (Std.HashMap Key String) × List Event :=
  match w.read index with
  | .error fault => (.error ⟨index, .file fault⟩, [])
  | .ok bytes =>
    let (lines, complete) := readableLines bytes
    let pass := scanLines index 1 (Std.HashSet.ofList keys) ∅ lines
    if pass.finished || complete then (.ok pass.found, pass.events)
    else (.error ⟨index, .notUtf8⟩, pass.events)

end Variability.BuildIndex
