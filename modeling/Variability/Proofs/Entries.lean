-- The entries of tables: what a table keeps of the list that it is built from.
import Mathlib.Data.List.Induction
import Mathlib.Data.List.Nodup
import Variability.Data.Table

namespace Variability

/-- Where the keys are different, each entry is found under its key. -/
theorem find?_of_mem {κ ν : Type} [DecidableEq κ] {l : List (κ × ν)} (h : (l.map Prod.fst).Nodup)
    {p : κ × ν} (hp : p ∈ l) : l.find? (·.1 = p.1) = some p := by
  cases hf : l.find? (·.1 = p.1) with
  | none =>
    have := List.find?_eq_none.mp hf p hp
    simp at this
  | some q =>
    have hq := List.mem_of_find?_eq_some hf
    have hkey : q.1 = p.1 := by simpa using List.find?_some hf
    rw [List.inj_on_of_nodup_map h hq hp hkey]

namespace Table

variable {κ ν : Type} [DecidableEq κ]

theorem get?_of_mem {t : Table κ ν} {p : κ × ν} (hp : p ∈ t.entries) : t.get? p.1 = some p.2 := by
  unfold get?
  rw [find?_of_mem t.nodup hp]
  rfl

theorem mem_of_get? {t : Table κ ν} {k : κ} {v : ν} (h : t.get? k = some v) :
    (k, v) ∈ t.entries := by
  unfold get? at h
  obtain ⟨p, hp, hv⟩ := Option.map_eq_some_iff.mp h
  have hkey : p.1 = k := by simpa using List.find?_some hp
  rw [← hkey, ← hv]
  exact List.mem_of_find?_eq_some hp

theorem mem_insertEntries {k : κ} {v : ν} {l : List (κ × ν)} {p : κ × ν}
    (h : p ∈ insertEntries k v l) : p = (k, v) ∨ p ∈ l := by
  induction l with
  | nil =>
    simp only [insertEntries, List.mem_singleton] at h
    exact Or.inl h
  | cons q rest ih =>
    unfold insertEntries at h
    split at h
    · rcases List.mem_cons.mp h with h | h
      · exact Or.inl h
      · exact Or.inr (List.mem_cons_of_mem _ h)
    · rcases List.mem_cons.mp h with h | h
      · exact Or.inr (h ▸ List.mem_cons_self)
      · rcases ih h with h | h
        · exact Or.inl h
        · exact Or.inr (List.mem_cons_of_mem _ h)

/-- A table of a list has no entry that the list does not have. -/
theorem mem_of_mem_ofList [Hashable κ] {l : List (κ × ν)} {p : κ × ν}
    (h : p ∈ (ofList l).entries) : p ∈ l := by
  have general : ∀ (l : List (κ × ν)) (t : Table κ ν),
      p ∈ (l.foldl (fun t q => t.insert q.1 q.2) t).entries → p ∈ t.entries ∨ p ∈ l := by
    intro l
    induction l with
    | nil => intro t h; exact Or.inl h
    | cons q l ih =>
      intro t h
      rcases ih _ h with h | h
      · rcases mem_insertEntries h with h | h
        · exact Or.inr (h ▸ List.mem_cons_self)
        · exact Or.inl h
      · exact Or.inr (List.mem_cons_of_mem _ h)
  rw [ofList_eq_foldl] at h
  rcases general l empty h with h | h
  · simp [empty] at h
  · exact h

theorem mem_keys_ofList [Hashable κ] {l : List (κ × ν)} {k : κ} :
    k ∈ (ofList l).keys ↔ k ∈ l.map Prod.fst := by
  rw [ofList_eq_foldl]
  induction l using List.reverseRecOn with
  | nil => rfl
  | append_singleton l p ih =>
    rw [List.foldl_append, List.foldl_cons, List.foldl_nil, keys_insert, List.map_append,
      List.mem_append, ← ih]
    split
    · rename_i hp
      simp only [List.map_cons, List.map_nil, List.mem_singleton, iff_self_or]
      rintro rfl
      exact hp
    · simp

/-- A list of different keys is its own table. -/
theorem entries_ofList [Hashable κ] {l : List (κ × ν)} (h : (l.map Prod.fst).Nodup) :
    (ofList l).entries = l := by
  have general : ∀ (l : List (κ × ν)) (t : Table κ ν),
      ((t.entries ++ l).map Prod.fst).Nodup →
      (l.foldl (fun t p => t.insert p.1 p.2) t).entries = t.entries ++ l := by
    intro l
    induction l with
    | nil => intro t _; simp
    | cons p l ih =>
      intro t ht
      have hnew : p.1 ∉ t.entries.map Prod.fst := by
        rw [List.map_append, List.nodup_append] at ht
        intro hp
        exact ht.2.2 p.1 hp p.1 (by simp) rfl
      have hinsert : (t.insert p.1 p.2).entries = t.entries ++ [p] :=
        insertEntries_of_not_mem hnew
      rw [List.foldl_cons, ih _ (by rw [hinsert]; simpa using ht), hinsert]
      simp
  rw [ofList_eq_foldl, general l empty (by simpa [empty] using h)]
  rfl

/-! ## Last values -/

/-- The value of a key in a list of entries; of several the last. -/
def lastValue? (l : List (κ × ν)) (k : κ) : Option ν := (l.reverse.find? (·.1 = k)).map Prod.snd

theorem lastValue?_append (l m : List (κ × ν)) (k : κ) :
    lastValue? (l ++ m) k = (lastValue? m k).or (lastValue? l k) := by
  unfold lastValue?
  rw [List.reverse_append, List.find?_append]
  cases m.reverse.find? (·.1 = k) <;> rfl

/-- A table of a list has the last value of each key. -/
theorem get?_ofList [Hashable κ] (l : List (κ × ν)) (k : κ) :
    (ofList l).get? k = lastValue? l k := by
  rw [ofList_eq_foldl]
  induction l using List.reverseRecOn with
  | nil => rfl
  | append_singleton l p ih =>
    rw [List.foldl_append, List.foldl_cons, List.foldl_nil, get?_insert, ih, lastValue?_append]
    by_cases hp : p.1 = k <;> simp [lastValue?, hp]

theorem lastValue?_entries [Hashable κ] (t : Table κ ν) (k : κ) :
    lastValue? t.entries k = t.get? k := by
  rw [← get?_ofList, ext (entries_ofList t.nodup)]

/-- Where the keys are different, each of them has one value. -/
theorem lastValue?_eq_some_iff [Hashable κ] {l : List (κ × ν)} (h : (l.map Prod.fst).Nodup)
    {k : κ} {v : ν} : lastValue? l k = some v ↔ (k, v) ∈ l := by
  rw [← get?_ofList, show (k, v) ∈ l ↔ (k, v) ∈ (ofList l).entries by rw [entries_ofList h]]
  exact ⟨mem_of_get?, get?_of_mem⟩

end Table

end Variability
