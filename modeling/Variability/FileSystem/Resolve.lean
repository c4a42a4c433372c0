-- Resolving a path: the path to the same place that leads through no link.
import Variability.FileSystem

namespace Variability.FileSystem

/-! ## Trails -/

/-- How far a path has been resolved: to a path without links, or up to a link
that leads to itself, from which on it stays as written. -/
inductive Trail
  | resolved (here : Path)
  | stuck (text : String)

/-- A path and more of it. What starts with a slash starts anew. -/
def joinText (before after : String) : String :=
  if after.toList.head? = some '/' then after
  else if before.toList.getLast? = some '/' then before ++ after
  else before ++ "/" ++ after

/-- A trail that ends at a link, with the parts behind it. -/
def stuckAt (before : String) (rest : List String) : Trail :=
  .stuck (joinText before ("/".intercalate rest))

/-- Where the target of a link in the directory `here` starts. -/
def targetBase (here : Path) (target : String) : Path :=
  if (Path.ofString target).isAbsolute then ⟨.root, []⟩ else here

/-- The location of a path without links, seen from the directory `base`. -/
def locate (base : Location) (p : Path) : Location :=
  .ofParts (Path.absoluteIn ⟨.root, base.parts⟩ p).normalize.parts

/-! ## Resolving -/

/-- The links met so far, each with the path that its target leads to, or with
`none` while that is being resolved. -/
abbrev Known := List (Path × Option Path)

/-- Replaces the links among `parts`, seen from `here`, by what they lead to. A
part that leads nowhere stays. Links may lead to each other `room` deep. -/
def resolveFrom (fs : FileSystem) (base : Location) (room : Nat) (known : Known) (here : Path)
    (parts : List String) : Except FileFault (Trail × Known) :=
  match parts with
  | [] => .ok (.resolved here, known)
  | part :: rest =>
    if part = "" ∨ part = "." then resolveFrom fs base room known here rest
    else if part = ".." then resolveFrom fs base room known here.up rest
    else if hasNull part then .error .nullCharacter
    else
      match fs.find? (locate base (here.child part)) with
      | some (.link target) =>
        match known.lookup (here.child part) with
        | some (some there) => resolveFrom fs base room known there rest
        | some none => .ok (stuckAt (here.child part).text rest, known)
        | none =>
          match room with
          | 0 => .error .deepLinks
          | room + 1 =>
            match resolveFrom fs base room ((here.child part, none) :: known)
                (targetBase here target) (slashParts target) with
            | .error fault => .error fault
            | .ok (.stuck text, known) => .ok (stuckAt text rest, known)
            | .ok (.resolved there, known) =>
              resolveFrom fs base (room + 1) ((here.child part, some there) :: known) there rest
      | _ => resolveFrom fs base room known (here.child part) rest
termination_by (room, parts.length)

/-- The path without links, repeated slashes, `.` and `..`, seen from the
directory `base`. It need not lead anywhere. Links may lead to each other
`room` deep. -/
def resolve (fs : FileSystem) (room : Nat) (base : Location) (p : Path) :
    Except FileFault Path :=
  let start : Path := if p.isAbsolute then ⟨.root, []⟩ else ⟨.relative, []⟩
  (resolveFrom fs base room [] start p.parts).map fun
    | (.resolved here, _) => ⟨.root, (locate base here).parts⟩
    | (.stuck text, _) => (Path.absoluteIn ⟨.root, base.parts⟩ (Path.ofString text)).normalize

end Variability.FileSystem
