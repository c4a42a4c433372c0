-- Indexes: pairs prepared for many look-ups. Of several values of a key the
-- first counts.
import Std.Data.HashMap
import Variability.Data.Distinct

namespace Variability

/-- A few pairs are searched from end to end, more are hashed. -/
inductive Index (κ ν : Type) [BEq κ] [Hashable κ]
  | few (pairs : List (κ × ν))
  | many (pairs : Std.HashMap κ ν)

namespace Index

variable {κ ν : Type} [DecidableEq κ] [Hashable κ]

def ofList (l : List (κ × ν)) : Index κ ν :=
  if l.length ≤ searchLimit then .few l
  else .many (l.foldl (fun pairs p => pairs.insertIfNew p.1 p.2) ∅)

/-- An index of keys alone. -/
def ofKeys (l : List κ) : Index κ Unit := ofList (l.map fun k => (k, ()))

def get? (index : Index κ ν) (k : κ) : Option ν :=
  match index with
  | few pairs => (pairs.find? (·.1 = k)).map Prod.snd
  | many pairs => pairs[k]?

def contains (index : Index κ ν) (k : κ) : Bool := (index.get? k).isSome

/-- What is there stays; of new values of a key the first counts. -/
theorem getElem?_foldl_insertIfNew (pairs : Std.HashMap κ ν) (l : List (κ × ν)) (k : κ) :
    (l.foldl (fun pairs p => pairs.insertIfNew p.1 p.2) pairs)[k]? =
      pairs[k]?.or ((l.find? (·.1 = k)).map Prod.snd) := by
  induction l generalizing pairs with
  | nil => simp
  | cons p l ih =>
    rw [List.foldl_cons, ih, Std.HashMap.getElem?_insertIfNew]
    by_cases hp : p.1 = k
    · subst hp
      by_cases hm : p.1 ∈ pairs
      · simp [hm]
      · simp [hm]
    · simp [hp]

theorem get?_ofList (l : List (κ × ν)) (k : κ) :
    (ofList l).get? k = (l.find? (·.1 = k)).map Prod.snd := by
  unfold ofList get?
  split
  · rename_i h
    split at h
    · cases h
      rfl
    · cases h
  · rename_i h
    split at h
    · cases h
    · cases h
      rw [getElem?_foldl_insertIfNew]
      simp

theorem contains_ofKeys (l : List κ) (k : κ) : (ofKeys l).contains k = l.contains k := by
  rw [contains, ofKeys, get?_ofList, Option.isSome_map]
  induction l with
  | nil => rfl
  | cons a l ih =>
    rw [List.map_cons, List.find?_cons, List.contains_cons, ← ih]
    by_cases h : a = k
    · simp [h]
    · simp [h, Ne.symm h]

end Index

end Variability
