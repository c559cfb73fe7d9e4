import Delonix.Ipam.Leases

/-! The exact effect of one reap pass on every lease and on every candidate clock.
The two loops of the pass are folded lease by lease and file by file.
-/

namespace Delonix.Ipam

section Pass

variable (candidates : Std.ExtTreeMap String Nat) (live : List String) (nowSecs : Nat)

/-- The lease is orphaned and its clock has run for the grace window. -/
def expired (key id : String) : Bool :=
  !live.contains id && match candidates[candidateKey key id]? with
    | none => false
    | some firstSeen => refMarkerGrace ≤ nowSecs - firstSeen

/-- The clock an orphaned lease keeps after the pass. -/
def carried (key id : String) : Option Nat :=
  if id ∈ live then none
  else
    match candidates[candidateKey key id]? with
    | none => some nowSecs
    | some firstSeen => if refMarkerGrace ≤ nowSecs - firstSeen then none else some firstSeen

theorem reapLease_map (key id : String) (pass : ReapPass)
    : (reapLease candidates live nowSecs key pass id).map
      = if expired candidates live nowSecs key id then pass.map.erase id else pass.map := by
  unfold reapLease expired
  by_cases alive : id ∈ live
  · simp [alive]
  · cases candidates[candidateKey key id]? with
    | none => simp [alive]
    | some firstSeen =>
        by_cases old : refMarkerGrace ≤ nowSecs - firstSeen <;> simp [alive, old]

theorem reapLease_changed (key id : String) (pass : ReapPass)
    : (reapLease candidates live nowSecs key pass id).changed
      = (expired candidates live nowSecs key id || pass.changed) := by
  unfold reapLease expired
  by_cases alive : id ∈ live
  · simp [alive]
  · cases candidates[candidateKey key id]? with
    | none => simp [alive]
    | some firstSeen =>
        by_cases old : refMarkerGrace ≤ nowSecs - firstSeen <;> simp [alive, old]

theorem reapLease_stillCandidate (key id : String) (pass : ReapPass)
    : (reapLease candidates live nowSecs key pass id).stillCandidate
      = match carried candidates live nowSecs key id with
        | none => pass.stillCandidate
        | some firstSeen => pass.stillCandidate.insert (candidateKey key id) firstSeen := by
  unfold reapLease carried
  by_cases alive : id ∈ live
  · simp [alive]
  · cases candidates[candidateKey key id]? with
    | none => simp [alive]
    | some firstSeen =>
        by_cases old : refMarkerGrace ≤ nowSecs - firstSeen <;> simp [alive, old]

/-- The loop over a file's ids removes exactly the expired ones. -/
theorem foldl_reapLease_map (key id : String) (ids : List String) (pass : ReapPass)
    : (ids.foldl (reapLease candidates live nowSecs key) pass).map[id]?
      = if id ∈ ids ∧ expired candidates live nowSecs key id then none else pass.map[id]? := by
  induction ids generalizing pass with
  | nil => simp
  | cons head rest ih =>
      rw [List.foldl_cons, ih, reapLease_map]
      by_cases same : head = id
      · subst same
        cases expired candidates live nowSecs key head <;> simp
      · cases expired candidates live nowSecs key head <;>
          simp [Std.ExtTreeMap.getElem?_erase, same, Ne.symm same]

/-- A loop that marks no change removed nothing. -/
theorem foldl_reapLease_unchanged {key : String} {ids : List String} {pass : ReapPass}
    (unchanged : (ids.foldl (reapLease candidates live nowSecs key) pass).changed = false)
    : pass.changed = false ∧ ∀ id ∈ ids, expired candidates live nowSecs key id = false := by
  induction ids generalizing pass with
  | nil => simpa using unchanged
  | cons head rest ih =>
      rw [List.foldl_cons] at unchanged
      obtain ⟨first, later⟩ := ih unchanged
      rw [reapLease_changed, Bool.or_eq_false_iff] at first
      exact ⟨first.2, by simpa using ⟨first.1, later⟩⟩

/-- The loop over a file's ids carries the clock of each orphan it leaves. -/
theorem foldl_reapLease_stillCandidate {key other : String} (hk : IsKey key)
    (ho : IsKey other) (id : String) (ids : List String) (pass : ReapPass)
    : (ids.foldl (reapLease candidates live nowSecs key) pass).stillCandidate[
        candidateKey other id]?
      = if key = other ∧ id ∈ ids ∧ (carried candidates live nowSecs key id).isSome then
          carried candidates live nowSecs key id
        else
          pass.stillCandidate[candidateKey other id]? := by
  induction ids generalizing pass with
  | nil => simp
  | cons head rest ih =>
      rw [List.foldl_cons, ih, reapLease_stillCandidate]
      by_cases same : key = other ∧ head = id
      · obtain ⟨rfl, rfl⟩ := same
        cases carried candidates live nowSecs key head <;> simp
      · have keys : candidateKey key head ≠ candidateKey other id :=
          fun equal => same (candidateKey_injective hk ho equal)
        have members : key = other → (id ∈ head :: rest ↔ id ∈ rest) := by
          intro sameKey
          have differs : ¬ id = head := fun sameId => same ⟨sameKey, sameId.symm⟩
          simp [differs]
        by_cases sameKey : key = other
        · simp only [sameKey, true_and, members sameKey]
          split
          · rfl
          · cases carried candidates live nowSecs other head <;>
              simp [Std.ExtTreeMap.getElem?_insert, sameKey ▸ keys]
        · simp only [sameKey, false_and, if_false]
          cases carried candidates live nowSecs key head <;>
            simp [Std.ExtTreeMap.getElem?_insert, keys]

theorem Registry.Keyed.reapFile {state : ReapState} (keyed : state.registry.Keyed)
    {key : String} (isKey : IsKey key)
    : (Ipam.reapFile candidates live nowSecs state key).registry.Keyed := by
  unfold Ipam.reapFile
  split
  · exact keyed
  · dsimp only
    split
    · exact keyed.store isKey _
    · exact keyed

/-- One file of the pass loses exactly its expired leases. -/
theorem leaseOf_reapFile (state : ReapState) {key other : String} (hk : IsKey key)
    (ho : IsKey other) (id : String)
    : leaseOf (reapFile candidates live nowSecs state key).registry other id
      = if key = other ∧ expired candidates live nowSecs key id then none
        else leaseOf state.registry other id := by
  unfold reapFile
  split
  case h_1 absent =>
    split
    case isTrue same => simp [← same.1, leaseOf, absent]
    case isFalse => rfl
  case h_2 map found =>
    dsimp only
    have lease : leaseOf state.registry key id = map[id]? := by simp [leaseOf, found]
    split
    case isTrue =>
      rw [leaseOf_store hk ho, foldl_reapLease_map]
      by_cases same : key = other
      · subst same
        rw [lease]
        by_cases held : id ∈ map
        · simp [held]
        · simp [held]
      · simp [same]
    case isFalse unchanged =>
      have kept := (foldl_reapLease_unchanged candidates live nowSecs
        (by simpa using unchanged)).2
      split
      case isTrue same =>
        obtain ⟨rfl, dead⟩ := same
        have absent : id ∉ map := by
          intro held
          have alive := kept id (Std.ExtTreeMap.mem_keys.mpr held)
          simp [alive] at dead
        rw [lease, Std.ExtTreeMap.getElem?_eq_none absent]
      case isFalse => rfl

theorem stillCandidate_reapFile (state : ReapState) {key other : String} (hk : IsKey key)
    (ho : IsKey other) (id : String)
    : (reapFile candidates live nowSecs state key).stillCandidate[candidateKey other id]?
      = if key = other ∧ (leaseOf state.registry key id).isSome
            ∧ (carried candidates live nowSecs key id).isSome then
          carried candidates live nowSecs key id
        else
          state.stillCandidate[candidateKey other id]? := by
  unfold reapFile
  split
  case h_1 absent => simp [leaseOf, absent]
  case h_2 map found =>
    dsimp only
    rw [foldl_reapLease_stillCandidate candidates live nowSecs hk ho]
    have held : id ∈ map.keys ↔ (leaseOf state.registry key id).isSome := by
      simp [leaseOf, found]
    simp only [held]

/-- The loop over the files, each visited once: exactly the expired leases are gone, and
exactly the orphans left behind have a clock.
-/
theorem foldl_reapFile {keys : List String} (canonical : ∀ key ∈ keys, IsKey key)
    (once : keys.Nodup) {other : String} (ho : IsKey other) (id : String) (state : ReapState)
    : leaseOf (keys.foldl (reapFile candidates live nowSecs) state).registry other id
        = (if other ∈ keys ∧ expired candidates live nowSecs other id then none
          else leaseOf state.registry other id)
      ∧ (keys.foldl (reapFile candidates live nowSecs) state).stillCandidate[
          candidateKey other id]?
        = if other ∈ keys ∧ (leaseOf state.registry other id).isSome
              ∧ (carried candidates live nowSecs other id).isSome then
            carried candidates live nowSecs other id
          else
            state.stillCandidate[candidateKey other id]? := by
  induction keys generalizing state with
  | nil => simp
  | cons key rest ih =>
      have hk := canonical key (by simp)
      obtain ⟨fresh, onceRest⟩ := List.nodup_cons.mp once
      obtain ⟨leases, clocks⟩ := ih (fun key member => canonical key (by simp [member]))
        onceRest (reapFile candidates live nowSecs state key)
      rw [List.foldl_cons, leases, clocks, leaseOf_reapFile candidates live nowSecs state hk ho,
        stillCandidate_reapFile candidates live nowSecs state hk ho]
      by_cases same : key = other
      · subst same
        simp [fresh]
      · simp [same, Ne.symm same]

end Pass

theorem Registry.Keyed.reapOrphanLeases {registry : Registry} (keyed : registry.Keyed)
    (live : List String) (nowSecs : Nat)
    : (Ipam.reapOrphanLeases registry live nowSecs).1.Keyed := by
  rw [Ipam.reapOrphanLeases, keyed.migrateStrayFiles]
  have canonical : ∀ key ∈ registryKeys registry, IsKey key :=
    fun key member => (keyed.mem_registryKeys.mp member).1
  suffices loop : ∀ (keys : List String) (state : ReapState), (∀ key ∈ keys, IsKey key) →
      state.registry.Keyed →
      (keys.foldl (Ipam.reapFile registry.reapCandidates live nowSecs) state).registry.Keyed by
    exact loop (registryKeys registry)
      { registry := registry, freed := 0, stillCandidate := ∅ } canonical keyed
  intro keys
  induction keys with
  | nil => exact fun _ _ before => before
  | cons key rest ih =>
      intro state isKey before
      exact ih _ (fun key member => isKey key (by simp [member]))
        (before.reapFile _ _ _ (isKey key (by simp)))

/-- A pass removes exactly the expired leases, and afterwards exactly the orphans it left
have a clock.
-/
theorem Registry.Keyed.reapOrphanLeases_spec {registry : Registry} (keyed : registry.Keyed)
    (live : List String) (nowSecs : Nat) {key : String} (isKey : IsKey key) (id : String)
    : leaseOf (Ipam.reapOrphanLeases registry live nowSecs).1 key id
        = (if expired registry.reapCandidates live nowSecs key id then none
          else leaseOf registry key id)
      ∧ (Ipam.reapOrphanLeases registry live nowSecs).1.reapCandidates[candidateKey key id]?
        = if (leaseOf registry key id).isSome then
            carried registry.reapCandidates live nowSecs key id
          else
            none := by
  have canonical : ∀ key ∈ registryKeys registry, IsKey key :=
    fun key member => (keyed.mem_registryKeys.mp member).1
  obtain ⟨leases, clocks⟩ := foldl_reapFile registry.reapCandidates live nowSecs canonical
    (nodup_registryKeys registry) isKey id
    { registry := registry, freed := 0, stillCandidate := ∅ }
  have unlisted (absent : key ∉ registryKeys registry) : leaseOf registry key id = none := by
    cases found : load registry key with
    | none => simp [leaseOf, found]
    | some map => exact (absent (keyed.of_load isKey found)).elim
  simp only [Ipam.reapOrphanLeases, keyed.migrateStrayFiles]
  constructor
  · refine Eq.trans leases ?_
    by_cases listed : key ∈ registryKeys registry
    · simp [listed]
    · simp [listed, unlisted listed]
  · rw [clocks]
    by_cases listed : key ∈ registryKeys registry
    · cases carried registry.reapCandidates live nowSecs key id <;> simp [listed]
    · simp [listed, unlisted listed]

end Delonix.Ipam
