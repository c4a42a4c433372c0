-- Paths as written: an anchor and parts. Repeated slashes and parts that are
-- a single dot do not count.
import Variability.Text.Quoted
import Variability.Text.Split

namespace Variability

/-- Where a path starts. Exactly two leading slashes are a root of their own. -/
inductive Anchor
  | relative
  | root
  | doubleRoot
deriving DecidableEq, Repr

def Anchor.text : Anchor → String
  | .relative => ""
  | .root => "/"
  | .doubleRoot => "//"

structure Path where
  anchor : Anchor
  parts : List String
deriving DecidableEq, Repr

/-- What lies between the slashes of a text. -/
def slashParts (s : String) : List String := (Text.cutWhere (· = '/') s.toList).map String.ofList

namespace Path

/-! ## Reading and writing -/

def anchorOf (s : String) : Anchor :=
  match (s.toList.takeWhile (· = '/')).length with
  | 0 => .relative
  | 2 => .doubleRoot
  | _ => .root

def isVisible (part : String) : Bool := part ≠ "" && part ≠ "."

def ofString (s : String) : Path := ⟨anchorOf s, (slashParts s).filter isVisible⟩

/-- The path as text; a relative path without parts is a dot. -/
def text (p : Path) : String :=
  if p.anchor = .relative ∧ p.parts = [] then "."
  else p.anchor.text ++ "/".intercalate p.parts

def isAbsolute (p : Path) : Bool := p.anchor ≠ .relative

/-! ## Normal form -/

/-- Takes back one part for every `..`, without a look at any file. `done` is
what is kept so far, last part first. Above a root there is nothing. -/
def normalParts (absolute : Bool) (done : List String) : List String → List String
  | [] => done.reverse
  | part :: rest =>
    if part = ".." then
      match done with
      | [] => normalParts absolute (if absolute then [] else [".."]) rest
      | top :: below =>
        if top = ".." then normalParts absolute (".." :: top :: below) rest
        else normalParts absolute below rest
    else normalParts absolute (part :: done) rest

def normalize (p : Path) : Path := { p with parts := normalParts p.isAbsolute [] p.parts }

/-- The entry `part` of a directory. -/
def child (p : Path) (part : String) : Path := { p with parts := p.parts ++ [part] }

/-- The directory above. Above a root there is nothing, and above the start of
a relative path there is `..`. -/
def up (p : Path) : Path :=
  match p.parts.getLast? with
  | none => if p.isAbsolute then p else p.child ".."
  | some last => if last = ".." then p.child ".." else { p with parts := p.parts.dropLast }

/-- The path seen from the directory `base`. -/
def absoluteIn (base p : Path) : Path :=
  if p.isAbsolute then p else ⟨base.anchor, base.parts ++ p.parts⟩

/-- What leads from the directory `base` down to the path. -/
def relativeTo? (base p : Path) : Option Path :=
  if p.anchor = base.anchor ∧ base.parts.isPrefixOf p.parts then
    some ⟨.relative, p.parts.drop base.parts.length⟩
  else none

/-- The directories above, innermost first. -/
def parents (p : Path) : List Path :=
  (List.range p.parts.length).reverse.map fun n => { p with parts := p.parts.take n }

/-! ## Suffixes -/

/-- The last part. -/
def name (p : Path) : String := p.parts.getLast?.getD ""

/-- Splits a name before its last dot, if there is text on either side of it. -/
def splitSuffix (name : List Char) : List Char × List Char :=
  let tail := (name.reverse.takeWhile (· ≠ '.')).reverse
  let stem := name.take (name.length - tail.length - 1)
  if tail.length < name.length ∧ tail ≠ [] ∧ stem ≠ [] then (stem, '.' :: tail) else (name, [])

def suffix (p : Path) : String := String.ofList (splitSuffix p.name.toList).2

/-- Why the suffix of a path cannot be replaced. -/
inductive SuffixFault
  | invalid (suffix : String)
  | noName (path : Path)
deriving DecidableEq, Repr

def SuffixFault.message : SuffixFault → String
  | .invalid s => "Invalid suffix " ++ Text.quoted s
  | .noName p => "PurePosixPath(" ++ Text.quoted p.text ++ ") has an empty name"

/-- A suffix is empty, or a dot and at least one character more; it has no
slash. -/
def isSuffix (s : String) : Bool :=
  !s.toList.contains '/' && (s = "" || (s.toList.head? = some '.' && s ≠ "."))

def withSuffix (p : Path) (s : String) : Except SuffixFault Path :=
  if !isSuffix s then .error (.invalid s)
  else if p.name = "" then .error (.noName p)
  else
    let stem := String.ofList (splitSuffix p.name.toList).1
    .ok { p with parts := p.parts.dropLast ++ [stem ++ s] }

end Path

end Variability
