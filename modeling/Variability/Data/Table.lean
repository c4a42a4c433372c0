-- Tables: each key has one value, and the keys keep the order in which they
-- came first.
import Std.Data.HashMap
import Variability.Data.Distinct

namespace Variability

/-- A finite map that remembers the order of its keys. -/
structure Table (κ ν : Type) where
  entries : List (κ × ν)
  nodup : (entries.map Prod.fst).Nodup

namespace Table

variable {κ ν : Type}

theorem ext {s t : Table κ ν} (h : s.entries = t.entries) : s = t := by
  cases s; cases t; cases h; rfl

instance [DecidableEq κ] [DecidableEq ν] : DecidableEq (Table κ ν) := fun s t =>
  if h : s.entries = t.entries then isTrue (ext h)
  else isFalse fun hst => h (hst ▸ rfl)

def empty : Table κ ν := ⟨[], by simp⟩

def keys (t : Table κ ν) : List κ := t.entries.map Prod.fst

def size (t : Table κ ν) : Nat := t.entries.length

variable [DecidableEq κ]

/-! ## Look-up -/

def get? (t : Table κ ν) (k : κ) : Option ν := (t.entries.find? (·.1 = k)).map Prod.snd

def contains (t : Table κ ν) (k : κ) : Bool := t.entries.any (·.1 = k)

/-! ## Insertion -/

/-- Replaces the value of a key where it stands, or puts the key last. -/
def insertEntries (k : κ) (v : ν) : List (κ × ν) → List (κ × ν)
  | [] => [(k, v)]
  | p :: rest => if p.1 = k then (k, v) :: rest else p :: insertEntries k v rest

theorem map_fst_insertEntries (k : κ) (v : ν) (l : List (κ × ν)) :
    (insertEntries k v l).map Prod.fst =
      if k ∈ l.map Prod.fst then l.map Prod.fst else l.map Prod.fst ++ [k] := by
  induction l with
  | nil => simp [insertEntries]
  | cons p rest ih =>
    unfold insertEntries
    by_cases hp : p.1 = k
    · simp [hp]
    · have hk : k ≠ p.1 := fun h => hp h.symm
      rw [if_neg hp, List.map_cons, ih]
      simp only [List.map_cons, List.mem_cons, hk, false_or]
      split <;> rfl

/-- A table with the value `v` at `k`. A new key comes last, an old one keeps
its place. -/
def insert (t : Table κ ν) (k : κ) (v : ν) : Table κ ν where
  entries := insertEntries k v t.entries
  nodup := by
    rw [map_fst_insertEntries]
    split
    · exact t.nodup
    · rename_i h
      exact List.nodup_append.2 ⟨t.nodup, by simp, fun a ha b hb hab =>
        h (by rw [List.mem_singleton.1 hb] at hab; exact hab ▸ ha)⟩

theorem find?_insertEntries (k j : κ) (v : ν) (l : List (κ × ν)) :
    (insertEntries k v l).find? (·.1 = j) = if k = j then some (k, v) else l.find? (·.1 = j) := by
  induction l with
  | nil => by_cases h : k = j <;> simp [insertEntries, h]
  | cons p rest ih =>
    unfold insertEntries
    by_cases hp : p.1 = k
    · by_cases h : k = j <;> simp [hp, h]
    · by_cases hj : p.1 = j
      · have : k ≠ j := fun h => hp (hj.trans h.symm)
        rw [if_neg hp, if_neg this, List.find?_cons_of_pos (by simpa using hj),
          List.find?_cons_of_pos (by simpa using hj)]
      · rw [if_neg hp, List.find?_cons_of_neg (by simpa using hj), ih,
          List.find?_cons_of_neg (by simpa using hj)]

/-- A look-up after an insertion finds the new value at its key and what was
there elsewhere. -/
theorem get?_insert (t : Table κ ν) (k j : κ) (v : ν) :
    (t.insert k v).get? j = if k = j then some v else t.get? j := by
  rw [get?, insert, find?_insertEntries]
  by_cases h : k = j <;> simp [h, get?]

theorem keys_insert (t : Table κ ν) (k : κ) (v : ν) :
    (t.insert k v).keys = if k ∈ t.keys then t.keys else t.keys ++ [k] :=
  map_fst_insertEntries k v t.entries

theorem insertEntries_of_not_mem {k : κ} {v : ν} {l : List (κ × ν)} (h : k ∉ l.map Prod.fst) :
    insertEntries k v l = l ++ [(k, v)] := by
  induction l with
  | nil => rfl
  | cons p rest ih =>
    simp only [List.map_cons, List.mem_cons, not_or] at h
    rw [insertEntries, if_neg (Ne.symm h.1), ih h.2]
    rfl

/-! ## Tables of lists -/

/-- The last value of each key of a list. -/
def lastValues [Hashable κ] (l : List (κ × ν)) : Std.HashMap κ ν :=
  l.foldl (fun values p => values.insert p.1 p.2) ∅

/-- The keys that have values, with them. -/
def withValues [Hashable κ] (values : Std.HashMap κ ν) (keys : List κ) : List (κ × ν) :=
  keys.filterMap fun k => values[k]?.map fun v => (k, v)

/-- Each key of a list once, where it first occurs, with its last value. -/
def lastEntries [Hashable κ] (l : List (κ × ν)) : List (κ × ν) :=
  withValues (lastValues l) (distinct (l.map Prod.fst))

theorem withValues_cons [Hashable κ] (values : Std.HashMap κ ν) (k : κ) (keys : List κ) :
    withValues values (k :: keys) =
      (values[k]?.map fun v => (k, v)).toList ++ withValues values keys := by
  rw [withValues, List.filterMap_cons]
  cases values[k]? <;> rfl

theorem map_fst_withValues [Hashable κ] {values : Std.HashMap κ ν} {keys : List κ}
    (h : ∀ k ∈ keys, k ∈ values) : (withValues values keys).map Prod.fst = keys := by
  induction keys with
  | nil => rfl
  | cons k keys ih =>
    have hvalue := Std.HashMap.getElem?_eq_some_getElem (h k (by simp))
    simp [withValues_cons, hvalue, ih fun j hj => h j (by simp [hj])]

theorem withValues_insert [Hashable κ] {values : Std.HashMap κ ν} {k : κ} (v : ν) {keys : List κ}
    (h : k ∉ keys) : withValues (values.insert k v) keys = withValues values keys := by
  induction keys with
  | nil => rfl
  | cons j keys ih =>
    simp only [List.mem_cons, not_or] at h
    simp [withValues_cons, Std.HashMap.getElem?_insert, h.1, ih h.2]

/-- A new value of a key that is there takes the place of the old one. -/
theorem withValues_insert_of_mem [Hashable κ] {values : Std.HashMap κ ν} {k : κ} (v : ν)
    {keys : List κ} (hmem : k ∈ keys) (hnodup : keys.Nodup) (h : ∀ j ∈ keys, j ∈ values) :
    withValues (values.insert k v) keys = insertEntries k v (withValues values keys) := by
  induction keys with
  | nil => simp at hmem
  | cons j keys ih =>
    obtain ⟨hj, hkeys⟩ := List.nodup_cons.1 hnodup
    have hvalue := Std.HashMap.getElem?_eq_some_getElem (h j (by simp))
    by_cases hjk : j = k
    · subst hjk
      simp [withValues_cons, withValues_insert v hj, hvalue, insertEntries]
    · have ih := ih ((List.mem_cons.1 hmem).resolve_left (Ne.symm hjk)) hkeys
        fun i hi => h i (by simp [hi])
      simp [withValues_cons, Std.HashMap.getElem?_insert, Ne.symm hjk, hvalue, insertEntries, hjk,
        ih]

theorem mem_lastValues [Hashable κ] {l : List (κ × ν)} {k : κ} (h : k ∈ l.map Prod.fst) :
    k ∈ lastValues l := by
  have general (values : Std.HashMap κ ν) (l : List (κ × ν))
      (h : k ∈ values ∨ k ∈ l.map Prod.fst) :
      k ∈ l.foldl (fun values p => values.insert p.1 p.2) values := by
    induction l generalizing values with
    | nil => simpa using h
    | cons p l ih =>
      refine ih _ ?_
      rw [Std.HashMap.mem_insert]
      rcases h with h | h
      · exact .inl (.inr h)
      · rcases List.mem_cons.1 h with h | h
        · exact .inl (.inl (by simp [h]))
        · exact .inr h
  exact general ∅ l (.inr h)

theorem map_fst_lastEntries [Hashable κ] (l : List (κ × ν)) :
    (lastEntries l).map Prod.fst = distinct (l.map Prod.fst) :=
  map_fst_withValues fun _ hk => mem_lastValues (mem_distinct.1 hk)

/-- One entry more is inserted into the others. -/
theorem lastEntries_concat [Hashable κ] (l : List (κ × ν)) (p : κ × ν) :
    lastEntries (l ++ [p]) = insertEntries p.1 p.2 (lastEntries l) := by
  have hvalues : lastValues (l ++ [p]) = (lastValues l).insert p.1 p.2 := by
    simp [lastValues, List.foldl_append]
  have hfound : ∀ k ∈ distinct (l.map Prod.fst), k ∈ lastValues l :=
    fun k hk => mem_lastValues (mem_distinct.1 hk)
  rw [lastEntries, hvalues, List.map_append, List.map_singleton, distinct_eq_firsts,
    firsts_concat, ← distinct_eq_firsts]
  split
  · rename_i h
    exact withValues_insert_of_mem _ (mem_distinct.2 h) (nodup_distinct _) hfound
  · rename_i h
    have hnew : p.1 ∉ distinct (l.map Prod.fst) := fun hk => h (mem_distinct.1 hk)
    rw [insertEntries_of_not_mem (by rwa [map_fst_lastEntries]), lastEntries, withValues,
      List.filterMap_append, ← withValues, withValues_insert _ hnew]
    simp

/-- The entries one after the other. -/
def ofList [Hashable κ] (l : List (κ × ν)) : Table κ ν :=
  if l.length ≤ searchLimit then l.foldl (fun t p => t.insert p.1 p.2) empty
  else ⟨lastEntries l, map_fst_lastEntries l ▸ nodup_distinct _⟩

/-- A table of a list is what inserting its entries one by one gives. -/
theorem ofList_eq_foldl [Hashable κ] (l : List (κ × ν)) :
    ofList l = l.foldl (fun t p => t.insert p.1 p.2) empty := by
  have general (r : List (κ × ν)) :
      lastEntries r.reverse = (r.reverse.foldl (fun t p => t.insert p.1 p.2) empty).entries := by
    induction r with
    | nil => rfl
    | cons p r ih =>
      rw [List.reverse_cons, lastEntries_concat, List.foldl_append, ih]
      rfl
  unfold ofList
  split
  · rfl
  · exact ext (by simpa using general l.reverse)

/-! ## Removal -/

/-- The table without a key. -/
def erase (t : Table κ ν) (k : κ) : Table κ ν where
  entries := t.entries.filter (·.1 ≠ k)
  nodup := t.nodup.sublist (List.filter_sublist.map Prod.fst)

@[simp] theorem get?_erase (t : Table κ ν) (k j : κ) :
    (t.erase k).get? j = if k = j then none else t.get? j := by
  rw [get?, erase, List.find?_filter]
  by_cases h : k = j
  · subst h
    simp
  · rw [if_neg h, get?]
    congr 2
    funext p
    by_cases hp : p.1 = j <;> simp [hp, Ne.symm h]

/-- The table with every value changed by `f`. -/
def mapValues {μ : Type} (f : ν → μ) (t : Table κ ν) : Table κ μ where
  entries := t.entries.map fun p => (p.1, f p.2)
  nodup := by
    rw [List.map_map]
    exact t.nodup

end Table

end Variability
