-- The loop that finds configurations: whatever the solver picks, each one
-- found is new and allowed, and the loop ends with all of them, with as many
-- as were wanted, or with an answer that was cut off.
import Mathlib.Data.Set.Card
import Mathlib.Data.Set.Finite.Range
import Variability.Proofs.Answers
import Variability.Proofs.Exactness
import Variability.Proofs.Files

namespace Variability

open Cnf Variability.Sat

/-! ## Selections -/

/-- The configurations that decide on the names, in their order, and whose
selections are admitted. -/
def selections (names : List String) (admitted : Assignment → Prop) : Set Configuration :=
  {k | k.selection.keys = names ∧ admitted k.assignment}

/-- The configuration with the values of a selection. -/
def Configuration.ofAssignment (names : List String) (a : Assignment) : Configuration :=
  ⟨Table.ofList (names.map fun name => (name, a name))⟩

namespace Configuration

theorem assignment_of_mem {k : Configuration} {p : String × Bool} (hp : p ∈ k.selection.entries) :
    k.assignment p.1 = p.2 := by
  unfold assignment value?
  rw [Table.get?_of_mem hp]
  rfl

theorem map_fst_values (names : List String) (a : Assignment) :
    (names.map fun name => (name, a name)).map Prod.fst = names := by
  rw [List.map_map]
  exact List.map_id names

theorem entries_ofAssignment {names : List String} (h : names.Nodup) (a : Assignment) :
    (ofAssignment names a).selection.entries = names.map fun name => (name, a name) := by
  apply Table.entries_ofList
  rw [map_fst_values]
  exact h

/-- A configuration is its names and their values. -/
theorem eq_ofAssignment {k : Configuration} {names : List String} (h : k.selection.keys = names)
    {a : Assignment} (ha : ∀ name ∈ names, k.assignment name = a name) :
    k = ofAssignment names a := by
  have hnodup : names.Nodup := h ▸ k.selection.nodup
  have hentries : k.selection.entries = (ofAssignment names a).selection.entries := by
    have hvalues :
        k.selection.entries.map (fun p => (p.1, a p.1)) = k.selection.entries.map id := by
      apply List.map_congr_left
      intro p hp
      have hname : p.1 ∈ names := h ▸ List.mem_map.mpr ⟨p, hp, rfl⟩
      rw [← ha p.1 hname, assignment_of_mem hp]
      rfl
    rw [entries_ofAssignment hnodup, ← h, Table.keys, List.map_map]
    exact (List.map_id _).symm.trans hvalues.symm
  cases k
  rw [ofAssignment, Configuration.mk.injEq]
  exact Table.ext hentries

/-- Different configurations over the same names differ on one of them. -/
theorem exists_ne {j k : Configuration} {names : List String} (hj : j.selection.keys = names)
    (hk : k.selection.keys = names) (hne : j ≠ k) :
    ∃ name ∈ names, j.assignment name ≠ k.assignment name := by
  by_contra hall
  apply hne
  have hsame : ∀ name ∈ names, j.assignment name = k.assignment name := by
    intro name hn
    by_contra hd
    exact hall ⟨name, hn, hd⟩
  rw [eq_ofAssignment hj hsame]
  exact (eq_ofAssignment hk fun _ _ => rfl).symm

end Configuration

/-- There are finitely many selections of finitely many names. -/
theorem finite_selections (names : List String) (admitted : Assignment → Prop) :
    (selections names admitted).Finite := by
  have : Finite {name // name ∈ names} := names.finite_toSet
  apply (Set.finite_range fun f : {name // name ∈ names} → Bool =>
    Configuration.ofAssignment names fun name =>
      if h : name ∈ names then f ⟨name, h⟩ else false).subset
  rintro k ⟨hkeys, _⟩
  refine ⟨fun name => k.assignment name.1, ?_⟩
  symm
  apply Configuration.eq_ofAssignment hkeys
  intro name hn
  simp [hn]

/-! ## The values of the projected variables -/

/-- Different names on positive variables. -/
structure ProperProjection (projection : List (Int × String)) : Prop where
  names : (projection.map Prod.snd).Nodup
  positive : ∀ p ∈ projection, 0 < p.1

/-- The configuration that a valuation gives on the projected variables. -/
def selectionAt (projection : List (Int × String)) (v : Valuation) : Configuration :=
  ⟨Table.ofList (projection.map fun p => (p.2, v p.1.natAbs))⟩

/-- The configurations of the valuations that satisfy the clauses. -/
def reachable (projection : List (Int × String)) (cs : List Clause) : Set Configuration :=
  {k | ∃ v : Valuation, clausesHold v cs = true ∧ selectionAt projection v = k}

section Projection

variable {projection : List (Int × String)}

theorem entries_selectionAt (h : ProperProjection projection) (v : Valuation) :
    (selectionAt projection v).selection.entries =
      projection.map fun p => (p.2, v p.1.natAbs) := by
  apply Table.entries_ofList
  rw [List.map_map]
  exact h.names

theorem keys_selectionAt (h : ProperProjection projection) (v : Valuation) :
    (selectionAt projection v).selection.keys = projection.map Prod.snd := by
  unfold Table.keys
  rw [entries_selectionAt h, List.map_map]
  rfl

theorem assignment_selectionAt (h : ProperProjection projection) (v : Valuation)
    {p : Int × String} (hp : p ∈ projection) :
    (selectionAt projection v).assignment p.2 = v p.1.natAbs := by
  have hentry : (p.2, v p.1.natAbs) ∈ (selectionAt projection v).selection.entries := by
    rw [entries_selectionAt h]
    exact List.mem_map.mpr ⟨p, hp, rfl⟩
  exact Configuration.assignment_of_mem hentry

theorem selectionAt_eq_iff (h : ProperProjection projection) {v w : Valuation} :
    selectionAt projection v = selectionAt projection w ↔
      ∀ p ∈ projection, v p.1.natAbs = w p.1.natAbs := by
  constructor
  · intro heq p hp
    rw [← assignment_selectionAt h v hp, heq, assignment_selectionAt h w hp]
  · intro hall
    unfold selectionAt
    congr 2
    apply List.map_congr_left
    intro p hp
    rw [hall p hp]

theorem contains_ofList_eq_completion {literals : List Int} {x : Int} (hx : 0 < x) :
    (Std.HashSet.ofList literals).contains x = completion literals x.natAbs := by
  have hcast : (x.natAbs : Int) = x := by omega
  rw [Std.HashSet.contains_ofList, completion, hcast]

theorem selectionOf_eq (h : ProperProjection projection) (literals : List Int) :
    selectionOf projection literals = selectionAt projection (completion literals) := by
  unfold selectionOf selectionAt
  simp only
  congr 2
  apply List.map_congr_left
  intro p hp
  rw [contains_ofList_eq_completion (h.positive p hp)]

/-- The blocking clause excludes one selection and no other. -/
theorem clauseHolds_blockingClause (h : ProperProjection projection) (literals : List Int)
    (v : Valuation) :
    clauseHolds v (blockingClause projection literals) = true ↔
      selectionAt projection v ≠ selectionAt projection (completion literals) := by
  have hliteral : ∀ p ∈ projection,
      (literalHolds v (if (Std.HashSet.ofList literals).contains p.1 then -p.1 else p.1) = true ↔
        v p.1.natAbs ≠ completion literals p.1.natAbs) := by
    intro p hp
    have hpos := h.positive p hp
    have hnonneg : ¬ p.1 < 0 := by omega
    rw [contains_ofList_eq_completion hpos]
    cases completion literals p.1.natAbs <;> simp [literalHolds, hpos, hnonneg]
  rw [ne_eq, selectionAt_eq_iff h, blockingClause, clauseHolds, List.any_eq_true]
  push Not
  constructor
  · rintro ⟨l, hl, hlv⟩
    obtain ⟨p, hp, rfl⟩ := List.mem_map.mp hl
    exact ⟨p, hp, (hliteral p hp).mp hlv⟩
  · rintro ⟨p, hp, hne⟩
    exact ⟨_, List.mem_map.mpr ⟨p, hp, rfl⟩, (hliteral p hp).mpr hne⟩

theorem blockingClause_ne_zero (h : ProperProjection projection) (literals : List Int) :
    ∀ l ∈ blockingClause projection literals, l ≠ 0 := by
  intro l hl
  obtain ⟨p, hp, rfl⟩ := List.mem_map.mp hl
  have := h.positive p hp
  split <;> omega

end Projection

/-! ## The loop -/

/-- What the loop may end with, after `before` configurations and with room for
`remaining` more. -/
structure Found.Accounts (projection : List (Int × String)) (all : Set Configuration)
    (before remaining : Nat) (r : Found) : Prop where
  nodup : r.configurations.Nodup
  sound : ∀ k ∈ r.configurations, k ∈ all
  bounded : r.configurations.length ≤ before + remaining
  complete : r.exhausted = true → ∀ k ∈ all, k ∈ r.configurations
  exhausted : r.exhausted = true → r.timedOut = false ∧ 0 < remaining ∧
    (r.configurations.length < before + remaining ∨ projection = [])
  full : r.exhausted = false → r.timedOut = false →
    r.configurations.length = before + remaining ∧ (projection = [] → remaining = 0)

section Accounts

variable {projection : List (Int × String)} {all : Set Configuration} {before remaining : Nat}

/-- An end of the loop: what has been found so far, last first. -/
theorem accounts_reverse {found : List Configuration} {exhausted timedOut : Bool}
    (hnodup : found.Nodup) (hsound : ∀ k ∈ found, k ∈ all)
    (hbounded : found.length ≤ before + remaining)
    (hcomplete : exhausted = true → ∀ k ∈ all, k ∈ found)
    (hexhausted : exhausted = true → timedOut = false ∧ 0 < remaining ∧
      (found.length < before + remaining ∨ projection = []))
    (hfull : exhausted = false → timedOut = false →
      found.length = before + remaining ∧ (projection = [] → remaining = 0)) :
    Found.Accounts projection all before remaining ⟨found.reverse, exhausted, timedOut⟩ := by
  refine ⟨List.nodup_reverse.mpr hnodup, ?_, ?_, ?_, ?_, ?_⟩
  · intro k hk
    exact hsound k (List.mem_reverse.mp hk)
  · rw [List.length_reverse]
    exact hbounded
  · intro he k hk
    exact List.mem_reverse.mpr (hcomplete he k hk)
  · rw [List.length_reverse]
    exact hexhausted
  · rw [List.length_reverse]
    exact hfull

/-- A turn of the loop: one more found, room for one less. -/
theorem Found.Accounts.turn {r : Found} (hprojected : projection ≠ [])
    (h : r.Accounts projection all (before + 1) remaining) :
    r.Accounts projection all before (remaining + 1) := by
  have hsum : before + 1 + remaining = before + (remaining + 1) := by omega
  refine ⟨h.nodup, h.sound, hsum ▸ h.bounded, h.complete, ?_, ?_⟩
  · intro he
    obtain ⟨ht, _, hreason⟩ := h.exhausted he
    exact ⟨ht, Nat.succ_pos remaining, hsum ▸ hreason⟩
  · intro he ht
    exact ⟨hsum ▸ (h.full he ht).1, fun hnone => absurd hnone hprojected⟩

end Accounts

/-- The loop keeps to this: what satisfies the clauses of the session is what
satisfied the first clauses and gives a configuration not yet found. -/
theorem findConfigurations_accounts {solver : Solver} {takes : Clause → Prop}
    (hs : solver.SoundOn takes) {projection : List (Int × String)}
    (hp : ProperProjection projection) {cs : List Clause}
    (htakes : ∀ literals, clausesHold (completion literals) cs = true →
      takes (blockingClause projection literals))
    {models : Valuation → Prop} (session : solver.Session models) (remaining : Nat)
    (found : List Configuration)
    (hmodels : ∀ v, models v ↔ clausesHold v cs = true ∧ selectionAt projection v ∉ found)
    (hnodup : found.Nodup) (hsound : ∀ k ∈ found, k ∈ reachable projection cs) :
    ∃ r, findConfigurations solver projection remaining session found = .ok r ∧
      r.Accounts projection (reachable projection cs) found.length remaining := by
  induction remaining generalizing models found with
  | zero =>
    refine ⟨_, rfl, accounts_reverse hnodup hsound (Nat.le_add_right _ _) ?_ ?_ ?_⟩ <;> simp
  | succ remaining ih =>
    obtain ⟨verdict, next, hask, hright⟩ := hs.ask session
    unfold findConfigurations
    rw [hask]
    cases verdict with
    | interrupted =>
      refine ⟨_, rfl, accounts_reverse hnodup hsound (Nat.le_add_right _ _) ?_ ?_ ?_⟩ <;> simp
    | unsatisfiable =>
      have hall : ∀ k ∈ reachable projection cs, k ∈ found := by
        rintro k ⟨v, hv, rfl⟩
        by_contra hnew
        exact hright v ((hmodels v).mpr ⟨hv, hnew⟩)
      refine ⟨_, rfl, accounts_reverse hnodup hsound (Nat.le_add_right _ _) (fun _ => hall) ?_ ?_⟩
      · intro _
        exact ⟨rfl, Nat.succ_pos remaining, Or.inl (by omega)⟩
      · simp
    | model literals =>
      obtain ⟨_, hmodel⟩ := hright
      obtain ⟨hcs, hnew⟩ := (hmodels _).mp hmodel
      have hfound : selectionAt projection (completion literals) ∈ reachable projection cs :=
        ⟨_, hcs, rfl⟩
      simp only [selectionOf_eq hp]
      generalize hk : selectionAt projection (completion literals) = k at *
      have hnodup' : (k :: found).Nodup := List.nodup_cons.mpr ⟨hnew, hnodup⟩
      have hsound' : ∀ j ∈ k :: found, j ∈ reachable projection cs :=
        List.forall_mem_cons.mpr ⟨hfound, hsound⟩
      split
      · rename_i hempty
        have hall : ∀ j ∈ reachable projection cs, j ∈ k :: found := by
          rintro j ⟨v, _, rfl⟩
          have hsame : selectionAt projection v = k := by
            rw [← hk, hempty]
            rfl
          rw [hsame]
          exact List.mem_cons_self
        refine ⟨_, rfl, accounts_reverse hnodup' hsound' ?_ (fun _ => hall) ?_ ?_⟩
        · rw [List.length_cons]
          omega
        · intro _
          exact ⟨rfl, Nat.succ_pos remaining, Or.inr hempty⟩
        · simp
      · rename_i hprojected
        obtain ⟨after, hgive⟩ := hs.give next _ (htakes literals hcs)
        rw [hgive]
        have hmodels' : ∀ v, clauseHolds v (blockingClause projection literals) = true ∧ models v ↔
            clausesHold v cs = true ∧ selectionAt projection v ∉ k :: found := by
          intro v
          rw [clauseHolds_blockingClause hp, hmodels, hk, List.mem_cons, not_or]
          exact and_left_comm
        obtain ⟨r, hr, hacc⟩ := ih after (k :: found) hmodels' hnodup' hsound'
        exact ⟨r, hr, hacc.turn hprojected⟩

/-- The loop asks at most once for each configuration that it has room for. -/
theorem findConfigurations_upTo (solver : Solver) (n : Nat) (projection : List (Int × String))
    {models : Valuation → Prop} (session : solver.Session models) {left remaining : Nat}
    (found : List Configuration) (h : remaining ≤ left) :
    findConfigurations (solver.upTo n) projection remaining (solver.leave n left session) found =
      findConfigurations solver projection remaining session found := by
  induction remaining generalizing models left found with
  | zero => rfl
  | succ remaining ih =>
    cases left with
    | zero => omega
    | succ left =>
      unfold findConfigurations
      rw [Solver.ask_leave]
      cases solver.ask session with
      | error fault => rfl
      | ok answer =>
        obtain ⟨verdict, next⟩ := answer
        cases verdict with
        | interrupted => rfl
        | unsatisfiable => rfl
        | model literals =>
          simp only [Except.map, Solver.give_leave]
          split
          · rfl
          · cases solver.give (blockingClause projection literals) next with
            | error fault => rfl
            | ok after => exact ih after _ (by omega)

theorem configurations_upTo (solver : Solver) (e : Encoding) (limit : Nat) :
    e.configurations (solver.upTo limit) limit = e.configurations solver limit := by
  unfold Encoding.configurations
  rw [Solver.start_upTo]
  cases solver.start e.clauses with
  | error fault => rfl
  | ok session => exact findConfigurations_upTo solver limit e.projection session [] (Nat.le_refl _)

/-! ## The configurations of an encoding -/

theorem properProjection_encode (c : Condition) (m : FeatureModel) :
    ProperProjection (c.encode m).projection := by
  have hw := Encoding.wellNumbered_variableTable c m
  refine ⟨Encoding.names_projectionOf_nodup hw, ?_⟩
  intro p hp
  exact (hw.within _ (Encoding.mem_projectionOf.mp hp)).1

/-- The names that the configurations of a condition decide on. -/
def projectedNames (c : Condition) (m : FeatureModel) : List String :=
  (c.encode m).projection.map Prod.snd

/-- The selections that satisfy a condition and extend to the model. -/
def solutions (c : Condition) (m : FeatureModel) : Set Configuration :=
  selections (projectedNames c m) fun a => c.holds a = true ∧ m.Admits a

/-- What the clauses of an encoding reach are the solutions. -/
theorem reachable_encode (c : Condition) (m : FeatureModel) :
    reachable (c.encode m).projection (c.encode m).clauses = solutions c m := by
  have hp := properProjection_encode c m
  ext k
  constructor
  · rintro ⟨v, hv, rfl⟩
    refine ⟨keys_selectionAt hp v, (Encoding.encode_admits_iff c m _).mp ⟨v, ?_, hv⟩⟩
    intro p hpm
    exact (assignment_selectionAt hp v hpm).symm
  · rintro ⟨hkeys, hadmitted⟩
    obtain ⟨v, hv, hcl⟩ := (Encoding.encode_admits_iff c m _).mpr hadmitted
    refine ⟨v, hcl, ?_⟩
    rw [Configuration.eq_ofAssignment hkeys fun _ _ => rfl]
    apply Configuration.eq_ofAssignment (keys_selectionAt hp v)
    intro name hname
    obtain ⟨p, hpm, rfl⟩ := List.mem_map.mp hname
    rw [assignment_selectionAt hp v hpm, hv p hpm]

theorem zeroFree_encode (c : Condition) (m : FeatureModel) : ZeroFree (c.encode m).clauses := by
  intro cl hcl l hl
  rcases List.mem_append.mp hcl with hcl | hcl
  · exact ((m.document.clauses_within cl hcl).2 l hl).1
  · have hw := Encoding.wellNumbered_variableTable c m
    obtain ⟨x, hx, hlx⟩ := Encoding.variable_of_conditionClauses hw
      (Encoding.covers_variableTable c m) hcl hl
    have hpos : 0 < x := by
      rcases List.mem_append.mp hx with hx | hx
      · obtain ⟨p, hp, rfl⟩ := List.mem_map.mp hx
        exact (hw.within p hp).1
      · have := Encoding.le_of_mem_selectorsOf hx
        have := Encoding.firstSelector_pos c m
        omega
    omega

/-- A solver gets through if it takes the clauses, and those that exclude what
satisfies them. -/
theorem encode_configurations_accounts {solver : Solver} {takes : Clause → Prop}
    (hs : solver.SoundOn takes) {c : Condition} {m : FeatureModel}
    (hclauses : ∀ cl ∈ (c.encode m).clauses, takes cl)
    (htakes : ∀ literals, clausesHold (completion literals) (c.encode m).clauses = true →
      takes (blockingClause (c.encode m).projection literals)) (limit : Nat) :
    ∃ r, (c.encode m).configurations solver limit = .ok r ∧
      r.Accounts (c.encode m).projection (solutions c m) 0 limit := by
  obtain ⟨session, hstart⟩ := hs.start _ hclauses
  unfold Encoding.configurations
  rw [hstart, ← reachable_encode]
  exact findConfigurations_accounts hs (properProjection_encode c m) htakes session limit []
    (by simp) List.nodup_nil (by simp)

/-! ## Counting -/

/-- Different members of a finite set are no more than it has. -/
theorem length_le_ncard {S : Set Configuration} (hS : S.Finite) {l : List Configuration}
    (hnodup : l.Nodup) (hsub : ∀ k ∈ l, k ∈ S) : l.length ≤ S.ncard := by
  have hcard := Set.ncard_le_ncard (s := (l.toFinset : Set Configuration)) (t := S)
    (fun k hk => hsub k (by simpa using hk)) hS
  rwa [Set.ncard_coe_finset, List.toFinset_card_of_nodup hnodup] at hcard

theorem ncard_eq_length {S : Set Configuration} {l : List Configuration} (hnodup : l.Nodup)
    (hmem : ∀ k, k ∈ l ↔ k ∈ S) : S.ncard = l.length := by
  have hset : S = (l.toFinset : Set Configuration) := by
    ext k
    simp [hmem]
  rw [hset, Set.ncard_coe_finset, List.toFinset_card_of_nodup hnodup]

/-! ## Spaces -/

/-- What the space of a condition under a model is: at most `limit` different
solutions. Unless the time ran out it has that many, or all that there are, and
it says whether it has proved that there are no more. -/
structure Space.Accounts (s : Space) (c : Condition) (m : FeatureModel) (limit : Nat) : Prop where
  sound : ∀ k ∈ s.configurations, k ∈ solutions c m
  distinct : s.configurations.Pairwise fun j k =>
    ∃ name ∈ projectedNames c m, j.assignment name ≠ k.assignment name
  bounded : s.configurations.length ≤ limit
  one_flag : ¬ (s.exhausted = true ∧ s.timedOut = true)
  counted : s.timedOut = false →
    s.configurations.length = min limit (solutions c m).ncard
  full : s.exhausted = false → s.timedOut = false → s.configurations.length = limit
  exhausted_iff : s.exhausted = true ↔ s.timedOut = false ∧ 0 < limit ∧
    ((solutions c m).ncard < limit ∨ projectedNames c m = [])
  complete : s.exhausted = true → ∀ k ∈ solutions c m, k ∈ s.configurations

theorem finite_solutions (c : Condition) (m : FeatureModel) : (solutions c m).Finite :=
  finite_selections _ _

theorem pairwise_ne_of_solutions {c : Condition} {m : FeatureModel} {l : List Configuration}
    (hnodup : l.Nodup) (hsound : ∀ k ∈ l, k ∈ solutions c m) :
    l.Pairwise fun j k => ∃ name ∈ projectedNames c m, j.assignment name ≠ k.assignment name := by
  rw [List.nodup_iff_pairwise_ne] at hnodup
  refine hnodup.imp_of_mem ?_
  intro j k hj hk hne
  exact Configuration.exists_ne (hsound j hj).1 (hsound k hk).1 hne

/-- A space with what the loop ended with. -/
theorem Space.accounts_of_found {s : Space} {c : Condition} {m : FeatureModel} {limit : Nat}
    {r : Found} (h : r.Accounts (c.encode m).projection (solutions c m) 0 limit)
    (hconfigurations : s.configurations = r.configurations) (hexhausted : s.exhausted = r.exhausted)
    (htimedOut : s.timedOut = r.timedOut) : s.Accounts c m limit := by
  have hatMost := length_le_ncard (finite_solutions c m) h.nodup h.sound
  have hall : r.exhausted = true → (solutions c m).ncard = r.configurations.length := by
    intro he
    exact ncard_eq_length h.nodup fun k => ⟨h.sound k, h.complete he k⟩
  have hnames : projectedNames c m = [] ↔ (c.encode m).projection = [] := List.map_eq_nil_iff
  have hbounded := h.bounded
  refine ⟨?_, ?_, ?_, ?_, ?_, ?_, ?_, ?_⟩
  · rw [hconfigurations]
    exact h.sound
  · rw [hconfigurations]
    exact pairwise_ne_of_solutions h.nodup h.sound
  · rw [hconfigurations]
    omega
  · rw [hexhausted, htimedOut]
    rintro ⟨he, ht⟩
    rw [(h.exhausted he).1] at ht
    simp at ht
  · rw [hconfigurations, htimedOut]
    intro ht
    cases he : r.exhausted with
    | true =>
      rw [hall he]
      omega
    | false =>
      have := (h.full he ht).1
      omega
  · rw [hconfigurations, hexhausted, htimedOut]
    intro he ht
    have := (h.full he ht).1
    omega
  · rw [hexhausted, htimedOut, hnames]
    constructor
    · intro he
      obtain ⟨ht, hpos, hreason⟩ := h.exhausted he
      refine ⟨ht, hpos, hreason.imp_left fun hlt => ?_⟩
      rw [hall he]
      omega
    · rintro ⟨ht, hpos, hreason⟩
      by_contra he
      obtain ⟨hlength, hnone⟩ := h.full (by simpa using he) ht
      rcases hreason with hlt | hempty
      · omega
      · have := hnone hempty
        omega
  · rw [hconfigurations, hexhausted]
    exact h.complete

/-- The space of a false condition is known before a solver is chosen. -/
theorem spaceUnder_of_isFalse {c : Condition} (hfalse : c.isFalse = true) {limit : Nat}
    (hpos : 0 < limit) (choose : SolverChoice) (m : FeatureModel) (shown : String)
    (budget : Option Float) (name : String) :
    c.spaceUnder choose m limit shown budget name =
      (.ok { Space.start c.render limit with exhausted := true }, []) := by
  unfold Condition.spaceUnder
  rw [if_neg (Nat.ne_of_gt hpos), if_pos hfalse]

/-- A limit of zero asks for nothing, a false condition has no solution, and
otherwise the loop finds the configurations. -/
theorem spaceUnder_accounts {choose : SolverChoice} {budget : Option Float} {name : String}
    {solver : Solver} (hchoose : choose name budget = .ok solver) (hs : solver.Sound)
    (c : Condition) (m : FeatureModel) (limit : Nat) (shown : String) :
    ∃ space, (c.spaceUnder choose m limit shown budget name).1 = .ok space ∧
      space.Accounts c m limit := by
  unfold Condition.spaceUnder
  simp only
  split
  · rename_i hzero
    subst hzero
    refine ⟨_, rfl, ?_⟩
    refine ⟨?_, ?_, ?_, ?_, ?_, ?_, ?_, ?_⟩ <;> simp [Space.start]
  · rename_i hpos
    split
    · rename_i hfalse
      have hnone : solutions c m = ∅ := by
        ext k
        simp [solutions, selections, Condition.holds_of_isFalse hfalse]
      have : 0 < limit := by omega
      refine ⟨_, rfl, ?_⟩
      refine ⟨?_, ?_, ?_, ?_, ?_, ?_, ?_, ?_⟩ <;> simp [Space.start, hnone, this]
    · obtain ⟨r, hr, hacc⟩ := encode_configurations_accounts hs.soundOn (zeroFree_encode c m)
        (fun literals _ => blockingClause_ne_zero (properProjection_encode c m) literals) limit
      rw [hchoose]
      simp only [hr]
      exact ⟨_, rfl, Space.accounts_of_found hacc rfl rfl rfl⟩

/-! ## Without a deadline -/

theorem findConfigurations_not_timedOut {solver : Solver} (hn : solver.NeverInterrupted)
    {projection : List (Int × String)} {models : Valuation → Prop}
    (session : solver.Session models) (remaining : Nat) (found : List Configuration) {r : Found}
    (h : findConfigurations solver projection remaining session found = .ok r) :
    r.timedOut = false := by
  induction remaining generalizing models found with
  | zero =>
    cases h
    rfl
  | succ remaining ih =>
    unfold findConfigurations at h
    split at h
    · cases h
    · rename_i next hask
      exact absurd hask (hn session next)
    · cases h
      rfl
    · simp only at h
      split at h
      · cases h
        rfl
      · split at h
        · cases h
        · exact ih _ _ h

theorem configurations_not_timedOut {solver : Solver} (hn : solver.NeverInterrupted)
    {e : Encoding} {limit : Nat} {r : Found} (h : e.configurations solver limit = .ok r) :
    r.timedOut = false := by
  unfold Encoding.configurations at h
  split at h
  · cases h
  · exact findConfigurations_not_timedOut hn _ _ _ h

/-- The time never runs out if no answer is cut off. -/
theorem spaceUnder_not_timedOut {choose : SolverChoice} {c : Condition} {m : FeatureModel}
    {limit : Nat} {shown : String} {budget : Option Float} {name : String} {solver : Solver}
    (hchoose : choose name budget = .ok solver) (hn : solver.NeverInterrupted) {space : Space}
    (h : (c.spaceUnder choose m limit shown budget name).1 = .ok space) :
    space.timedOut = false := by
  unfold Condition.spaceUnder at h
  rw [hchoose] at h
  simp only at h
  split at h
  · cases h
    rfl
  · split at h
    · cases h
      rfl
    · split at h
      · cases h
      · rename_i found hfound
        cases h
        exact configurations_not_timedOut hn hfound

/-! ## Enumerating under a model file -/

/-- A choice of solvers that answer at most `n` questions each. -/
def SolverChoice.upTo (choose : SolverChoice) (n : Nat) : SolverChoice := fun name budget =>
  (choose name budget).map fun solver => solver.upTo n

theorem spaceUnder_upTo (choose : SolverChoice) (c : Condition) (m : FeatureModel) (limit : Nat)
    (shown : String) (budget : Option Float) (name : String) :
    c.spaceUnder (choose.upTo limit) m limit shown budget name =
      c.spaceUnder choose m limit shown budget name := by
  unfold Condition.spaceUnder SolverChoice.upTo
  cases choose name budget with
  | error fault => rfl
  | ok solver => simp only [Except.map, configurations_upTo]

theorem limitError?_count (limit : Nat) : limitError? (.int limit) = none := by
  have h : ¬ (limit : Int) < 0 := by omega
  simp [limitError?, Value.isNegative?, h]

theorem readCount_count (limit : Nat) : (Value.int limit).readCount = .ok limit := by
  have h : ¬ (limit : Int) < 0 := by omega
  simp [Value.readCount, Value.readInt, h]

/-- Under a model that loads, an enumeration does what is done with the
model. -/
theorem enumerate_of_count (choose : SolverChoice) {w : Workspace} {cache : ModelCache}
    (c : Condition) {r : SpaceRequest} {limit : Nat} {budget : Option Float} {m : LoadedModel}
    (hlimit : limitError? r.limit = none) (hcount : r.limit.readCount = .ok limit)
    (hbudget : Budget.ofValue w.depths.values r.budget = .ok budget)
    (hload : (cache.load w r.modelPath).answer = .ok m) :
    let done := c.spaceUnder choose m.model limit r.limit.text budget r.solverName
    c.enumerate choose w cache r =
      ⟨done.1, (cache.load w r.modelPath).state, (cache.load w r.modelPath).events ++ done.2⟩ := by
  unfold Condition.enumerate
  simp only [hlimit, hbudget, hload, hcount, Checked.below, Except.mapError]

theorem enumerate_of_load (choose : SolverChoice) {w : Workspace} {cache : ModelCache}
    (c : Condition) {r : SpaceRequest} {limit : Nat} {budget : Option Float} {m : LoadedModel}
    (hlimit : r.limit = .int limit) (hbudget : Budget.ofValue w.depths.values r.budget = .ok budget)
    (hload : (cache.load w r.modelPath).answer = .ok m) :
    let done := c.spaceUnder choose m.model limit r.limit.text budget r.solverName
    c.enumerate choose w cache r =
      ⟨done.1, (cache.load w r.modelPath).state, (cache.load w r.modelPath).events ++ done.2⟩ :=
  enumerate_of_count choose c (hlimit ▸ limitError?_count limit) (hlimit ▸ readCount_count limit)
    hbudget hload

/-- Whatever a solver picks whose answers are right, and whichever of them are
cut off: an enumeration asks it at most `limit` questions, and its space
accounts for the finitely many solutions. -/
theorem an_enumeration_is_sound_distinct_and_complete {choose : SolverChoice} {w : Workspace}
    {cache : ModelCache} (c : Condition) {r : SpaceRequest} {limit : Nat} {budget : Option Float}
    {m : LoadedModel} {solver : Solver} (hlimit : r.limit = .int limit)
    (hbudget : Budget.ofValue w.depths.values r.budget = .ok budget)
    (hload : (cache.load w r.modelPath).answer = .ok m)
    (hchoose : choose r.solverName budget = .ok solver) (hs : solver.Sound) :
    c.enumerate (choose.upTo limit) w cache r = c.enumerate choose w cache r ∧
      (solutions c m.model).Finite ∧
      ∃ space, (c.enumerate choose w cache r).answer = .ok space ∧
        space.Accounts c m.model limit := by
  refine ⟨?_, finite_solutions c m.model, ?_⟩
  · rw [enumerate_of_load choose c hlimit hbudget hload,
      enumerate_of_load (choose.upTo limit) c hlimit hbudget hload]
    simp only [spaceUnder_upTo]
  · obtain ⟨space, hspace, hacc⟩ := spaceUnder_accounts hchoose hs c m.model limit r.limit.text
    refine ⟨space, ?_, hacc⟩
    rw [enumerate_of_load choose c hlimit hbudget hload]
    exact hspace

/-- The formula of one clause loads from any workspace that has it in the file
`/model`. -/
theorem load_of_oneClause {w : Workspace} {modified : Int}
    (hfile : w.files.find? (Location.root.child "model") =
      some (.file "1 2 0".toUTF8.toList modified)) :
    ∃ m, (ModelCache.empty.load w "/model").answer = .ok m := by
  have htext : Text.utf8Text? "1 2 0".toUTF8.toList = some "1 2 0".toList := by decide +kernel
  have hread : (readDimacs "1 2 0".toList).isOk = true := by decide +kernel
  obtain ⟨document, hdocument⟩ := exists_of_isOk hread
  exact ⟨_, namesEntry_model.load_of_file hfile htext hdocument⟩

/-- A directory with a formula of one clause in the file `/model`. -/
def oneClause : Workspace := .withFile "model" "1 2 0".toUTF8.toList

theorem load_oneClause : ∃ m, (ModelCache.empty.load oneClause "/model").answer = .ok m :=
  load_of_oneClause (Workspace.find?_withFile _ _)

/-- The solver that learns, under any name and budget. -/
def alwaysLearning : SolverChoice := fun _ _ => .ok learning

/-- Two of the three selections in which `A` holds. -/
theorem an_enumeration_under_one_clause :
    let c := Condition.ofTerms .plain [Term.ofList [⟨"A", false, by decide⟩]]
    let r : SpaceRequest := ⟨"/model", .int 2, .null, "glucose4"⟩
    ∃ m space, (ModelCache.empty.load oneClause "/model").answer = .ok m ∧
      (c.enumerate alwaysLearning oneClause .empty r).answer = .ok space ∧
      space.Accounts c m.model 2 := by
  intro c r
  obtain ⟨m, hload⟩ := load_oneClause
  obtain ⟨_, _, space, hspace, hacc⟩ := an_enumeration_is_sound_distinct_and_complete c
    (show r.limit = .int (2 : Nat) from rfl) rfl
    hload (show alwaysLearning r.solverName none = .ok learning from rfl) learning_sound
  exact ⟨m, space, hload, hspace, hacc⟩

end Variability
