-- Loading feature models. A file that has not changed is read once; the eight
-- models used last are kept.
import Variability.Event
import Variability.FeatureModel.Basic
import Variability.Text.Utf8
import Variability.Workspace

namespace Variability

/-! ## Errors -/

/-- Why a feature model cannot be loaded. -/
inductive ModelError
  | unreadable (path : String) (fault : FileFault)
  | linkLoop (path : String)
  | notUtf8
  | dimacs (error : Cnf.DimacsError)
deriving DecidableEq, Repr

def ModelError.message : ModelError → String
  | .unreadable path fault => fault.phrase?.getD ("Cannot read feature model " ++ path ++ ": ")
  | .linkLoop path => "Symlink loop from " ++ Text.quoted path
  | .notUtf8 => ""
  | .dimacs e => e.message

/-- Whether an error is reported as a bad model. One that is not reaches the
caller as it arose. -/
def ModelError.isReported : ModelError → Bool
  | .unreadable _ fault => fault.isFound
  | .linkLoop _ | .notUtf8 => false
  | .dimacs e => e.isReported

/-! ## Reading a file -/

/-- Reads a formula from a file in DIMACS form. -/
def readDimacsFile (w : Workspace) (path : Path) : Except ModelError Cnf.Document :=
  match w.read path.text with
  | .error fault => .error (.unreadable path.text fault)
  | .ok bytes =>
    match Text.utf8Text? bytes with
    | none => .error .notUtf8
    | some text => (Cnf.readDimacs text).mapError .dimacs

/-! ## The cache -/

/-- What tells the states of model files apart. -/
structure ModelKey where
  path : String
  status : Status
deriving DecidableEq, Repr

/-- A model as loaded. Models read at different times have different serial
numbers. -/
structure LoadedModel where
  serial : Nat
  model : FeatureModel

/-- The models kept, used last first. -/
structure ModelCache where
  kept : List (ModelKey × LoadedModel)
  nextSerial : Nat

namespace ModelCache

/-- How many models are kept. -/
def capacity : Nat := 8

def empty : ModelCache := ⟨[], 0⟩

def find? (cache : ModelCache) (key : ModelKey) : Option LoadedModel :=
  (cache.kept.find? (·.1 = key)).map Prod.snd

/-- Marks a kept model as used last. -/
def refresh (cache : ModelCache) (key : ModelKey) (m : LoadedModel) : ModelCache :=
  { cache with kept := (key, m) :: cache.kept.filter (·.1 ≠ key) }

/-- Keeps a new model. If there are too many, the one not used for longest is
dropped. -/
def add (cache : ModelCache) (key : ModelKey) (m : FeatureModel) : ModelCache :=
  ⟨((key, ⟨cache.nextSerial, m⟩) :: cache.kept).take capacity, cache.nextSerial + 1⟩

/-- The model in the file at `path`, which has no links and leads from the
root. It is read unless it is kept. -/
def loadResolved (cache : ModelCache) (w : Workspace) (path : Path) (status : Status) :
    Outcome ModelCache (Except ModelError LoadedModel) :=
  let key : ModelKey := ⟨path.text, status⟩
  match cache.find? key with
  | some m => ⟨.ok m, cache.refresh key m, []⟩
  | none =>
    match readDimacsFile w path with
    | .error e => ⟨.error e, cache, [.loadingModel path.text]⟩
    | .ok document =>
      let m : FeatureModel := ⟨document, path.text⟩
      ⟨.ok ⟨cache.nextSerial, m⟩, cache.add key m, [.loadingModel path.text]⟩

/-- Loads the feature model at a path, links resolved. -/
def load (cache : ModelCache) (w : Workspace) (path : String) :
    Outcome ModelCache (Except ModelError LoadedModel) :=
  match w.resolve (Path.ofString path) with
  | .error fault => ⟨.error (.unreadable path fault), cache, []⟩
  | .ok resolved =>
    match w.status? resolved.text with
    | .error .linkLoop => ⟨.error (.linkLoop resolved.text), cache, []⟩
    | .error fault => ⟨.error (.unreadable resolved.text fault), cache, []⟩
    | .ok status => cache.loadResolved w resolved status

end ModelCache

end Variability
