import Delonix.Ipam.Keys

/-! What each operation does to one lease.
The registry is read as a partial function of a canonical key and an id; every writer either
keeps a lease, removes it, or grants one new lease.
-/

namespace Delonix.Ipam

open Delonix.Net

/-- The address an id holds under a key. -/
def leaseOf (registry : Registry) (key id : String) : Option String :=
  (load registry key).bind (fun map => map[id]?)

theorem leaseOf_eq_getD (registry : Registry) (key id : String)
    : leaseOf registry key id = ((load registry key).getD ∅)[id]? := by
  cases found : load registry key <;> simp [leaseOf, found]

theorem leaseOf_store_stem (registry : Registry) (key other : String) (map : Leases)
    (id : String)
    : leaseOf (store registry key map) other id
      = if sanitizeKey key = sanitizeKey other then map[id]?
        else leaseOf registry other id := by
  rw [leaseOf, load_store]
  split <;> rfl

theorem leaseOf_store {registry : Registry} {key other : String} (hk : IsKey key)
    (ho : IsKey other) (map : Leases) (id : String)
    : leaseOf (store registry key map) other id
      = if key = other then map[id]? else leaseOf registry other id := by
  simp only [leaseOf_store_stem, sanitizeKey_inj hk ho]

theorem leaseOf_insert {registry : Registry} {key other : String} (hk : IsKey key)
    (ho : IsKey other) (id otherId ip : String)
    : leaseOf (store registry key (((load registry key).getD ∅).insert id ip)) other otherId
      = if key = other ∧ id = otherId then some ip else leaseOf registry other otherId := by
  rw [leaseOf_store hk ho]
  by_cases same : key = other
  · subst same
    by_cases sameId : id = otherId
    · simp [sameId]
    · simp [sameId, Std.ExtTreeMap.getElem?_insert, leaseOf_eq_getD]
  · simp [same]

theorem Registry.Keyed.of_load {registry : Registry} (keyed : registry.Keyed) {key : String}
    {map : Leases} (isKey : IsKey key) (found : load registry key = some map)
    : key ∈ registryKeys registry :=
  keyed.mem_registryKeys.mpr ⟨isKey, Std.ExtTreeMap.mem_iff_isSome_getElem?.mpr (by
    rw [← load, found]
    rfl)⟩

/-- The operation gives the id a lease it does not hold yet, at an address text no other id
of that network holds.
-/
inductive Grants (registry : Registry) : Operation → String → String → String → Prop where
  | allocated {network id ip : String} (isKey : IsKey (registryKey network))
      (missing : leaseOf registry (registryKey network) id = none)
      (picked : pickIp (registryKey network) id
        ((load registry (registryKey network)).getD ∅) = some ip)
      : Grants registry (.allocate network id) (registryKey network) id ip
  | reserved {network id ip : String} (isKey : IsKey (registryKey network))
      (outside : inVmDhcpPool (registryKey network) ip = false)
      (valid : validIpInSubnet (registryKey network) ip = true)
      (free : ∀ other, other ≠ id → leaseOf registry (registryKey network) other ≠ some ip)
      : Grants registry (.reserve network id ip) (registryKey network) id ip
  | reservedVmDhcp {network id ip : String} (isKey : IsKey (registryKey network))
      (inside : inVmDhcpPool (registryKey network) ip = true)
      (valid : validIpInSubnet (registryKey network) ip = true)
      (free : ∀ other, other ≠ id → leaseOf registry (registryKey network) other ≠ some ip)
      : Grants registry (.reserveVmDhcp network id ip) (registryKey network) id ip

/-- A probed address passes the checks of the loop and is written by `fmtU32`. -/
theorem probeLoop_eq_some {key ip : String} {net : Cidr} {inicio k : UInt32}
    {used : List String} {remaining : Nat}
    (found : probeLoop key net inicio used remaining k = some ip)
    : (∃ v, ip = Cidr.fmtU32 v) ∧ validIpInSubnet key ip = true
      ∧ inVmDhcpPool key ip = false ∧ ip ∉ used := by
  induction remaining generalizing k with
  | zero => simp [probeLoop] at found
  | succ remaining ih =>
      simp only [probeLoop] at found
      split at found
      case isTrue free =>
        obtain rfl := Option.some.inj found
        simp only [Bool.and_eq_true, Bool.not_eq_true', List.contains_eq_mem,
          decide_eq_false_iff_not] at free
        exact ⟨⟨_, rfl⟩, free.1.1, free.1.2, free.2⟩
      case isFalse => exact ih found

/-- The address picked for a new id is usable, outside the VM pool and not in use. -/
theorem pickIp_eq_some {key id ip : String} {map : Leases}
    (picked : pickIp key id map = some ip)
    : (ip = deriveIpIn key id ∨ ∃ v, ip = Cidr.fmtU32 v) ∧ validIpInSubnet key ip = true
      ∧ inVmDhcpPool key ip = false ∧ ip ∉ map.toList.map Prod.snd := by
  simp only [pickIp] at picked
  split at picked
  case isTrue free =>
    obtain rfl := Option.some.inj picked
    simp only [Bool.and_eq_true, Bool.not_eq_true', List.contains_eq_mem,
      decide_eq_false_iff_not] at free
    exact ⟨.inl rfl, free.1.1, free.1.2, free.2⟩
  case isFalse =>
    obtain ⟨net, _, found⟩ := Option.bind_eq_some_iff.mp picked
    obtain ⟨spelled, checks⟩ := probeLoop_eq_some found
    exact ⟨.inr spelled, checks⟩

theorem isKey_of_validIpInSubnet {network ip : String}
    (valid : validIpInSubnet (registryKey network) ip = true)
    : IsKey (registryKey network) := by
  cases parsed : Cidr.parse network with
  | some net => exact isKey_registryKey parsed
  | none => simp [registryKey, parsed, validIpInSubnet] at valid

/-- What an allocation can do: answer from the registry, refuse, or grant one lease. -/
theorem allocate_cases {registry : Registry} (keyed : registry.Keyed) (network id : String)
    : (allocate registry network id).1 = registry
      ∨ ∃ ip, Grants registry (.allocate network id) (registryKey network) id ip
        ∧ (allocate registry network id).1
          = store registry (registryKey network)
              (((load registry (registryKey network)).getD ∅).insert id ip) := by
  simp only [allocate, keyed.migrateStrayFiles]
  split
  case h_1 => exact .inl rfl
  case h_2 missing =>
    split
    case h_1 => exact .inl rfl
    case h_2 ip picked =>
      have isKey := isKey_of_validIpInSubnet (pickIp_eq_some picked).2.1
      exact .inr ⟨ip, .allocated isKey (by rw [leaseOf_eq_getD, missing]) picked, rfl⟩

/-- What a pinned lease can do, apart from the pool check of its two callers. -/
theorem reserveIn_cases {registry : Registry} (keyed : registry.Keyed)
    (network id ip remedy : String)
    : (reserveIn registry (registryKey network) id ip remedy).1 = registry
      ∨ (IsKey (registryKey network) ∧ validIpInSubnet (registryKey network) ip = true
        ∧ (∀ other, other ≠ id → leaseOf registry (registryKey network) other ≠ some ip)
        ∧ (reserveIn registry (registryKey network) id ip remedy).1
          = store registry (registryKey network)
              (((load registry (registryKey network)).getD ∅).insert id ip)) := by
  simp only [reserveIn, keyed.migrateStrayFiles]
  split
  case isTrue => exact .inl rfl
  case isFalse accepted =>
    have valid : validIpInSubnet (registryKey network) ip = true := by simpa using accepted
    split
    case isTrue => exact .inl rfl
    case isFalse =>
      split
      case h_1 => exact .inl rfl
      case h_2 noHolder =>
        refine .inr ⟨isKey_of_validIpInSubnet valid, valid, ?_, rfl⟩
        intro other differs held
        rw [leaseOf_eq_getD] at held
        have absent := List.find?_eq_none.mp noHolder (other, ip)
          (Std.ExtTreeMap.mem_toList_iff_getElem?_eq_some.mpr held)
        simp [differs] at absent

/-- A usable address that no other id holds as text is registered, and no other lease of the
network moves.
-/
theorem leaseOf_reserveIn {registry : Registry} (keyed : registry.Keyed)
    {network ip : String} (id remedy : String)
    (valid : validIpInSubnet (registryKey network) ip = true)
    (free : ∀ other, other ≠ id → leaseOf registry (registryKey network) other ≠ some ip)
    (other : String)
    : leaseOf (reserveIn registry (registryKey network) id ip remedy).1 (registryKey network)
        other
      = if id = other then some ip else leaseOf registry (registryKey network) other := by
  have isKey := isKey_of_validIpInSubnet valid
  simp only [reserveIn, valid, keyed.migrateStrayFiles, Bool.not_true, Bool.false_eq_true,
    if_false]
  split
  case isTrue held =>
    rw [← leaseOf_eq_getD] at held
    by_cases same : id = other
    · subst same
      simpa using held
    · simp [same]
  case isFalse =>
    split
    case h_1 holder text found =>
      have member := List.mem_of_find?_eq_some found
      have held := Std.ExtTreeMap.mem_toList_iff_getElem?_eq_some.mp member
      rw [← leaseOf_eq_getD] at held
      have clashes := List.find?_some found
      simp only [Bool.and_eq_true, beq_iff_eq, bne_iff_ne] at clashes
      obtain ⟨rfl, differs⟩ := clashes
      exact absurd held (free holder differs)
    case h_2 => simp only [leaseOf_insert isKey isKey, true_and]

theorem Registry.Keyed.releaseKey {registry : Registry} (keyed : registry.Keyed)
    (key id : String)
    : (Ipam.releaseKey registry key id).Keyed := by
  unfold Ipam.releaseKey
  split
  · exact keyed
  · rename_i map found
    split
    · intro stem member
      simp only [Ipam.store, Std.ExtTreeMap.mem_insert, Std.LawfulEqOrd.compare_eq_iff_eq]
        at member
      rcases member with rfl | member
      · exact keyed _ (Std.ExtTreeMap.mem_iff_isSome_getElem?.mpr (by
          rw [← load, found]
          rfl))
      · exact keyed stem member
    · exact keyed

/-- Releasing an id from a file removes that one lease and nothing else. The file is found by
its stem, which a text that is no network can share with a network's key.
-/
theorem leaseOf_releaseKey (registry : Registry) (key other id otherId : String)
    : leaseOf (releaseKey registry key id) other otherId
      = if sanitizeKey key = sanitizeKey other ∧ id = otherId then none
        else leaseOf registry other otherId := by
  have sameFile (same : sanitizeKey key = sanitizeKey other)
      : load registry key = load registry other := by
    rw [load, same, load]
  unfold releaseKey
  split
  case h_1 absent =>
    split
    case isTrue same => simp [leaseOf, ← sameFile same.1, absent]
    case isFalse => rfl
  case h_2 map found =>
    split
    case isTrue =>
      rw [leaseOf_store_stem]
      by_cases same : sanitizeKey key = sanitizeKey other
      · by_cases sameId : id = otherId
        · simp [same, sameId]
        · simp [same, sameId, leaseOf, ← sameFile same, found, Std.ExtTreeMap.getElem?_erase]
      · simp [same]
    case isFalse absent =>
      split
      case isTrue same =>
        obtain ⟨stems, rfl⟩ := same
        simp [leaseOf, ← sameFile stems, found, Std.ExtTreeMap.getElem?_eq_none absent]
      case isFalse => rfl

/-- A loop of releases over canonical keys, by induction over the keys. -/
theorem leaseOf_foldl_releaseKey {keys : List String} (canonical : ∀ key ∈ keys, IsKey key)
    {other : String} (ho : IsKey other) (id otherId : String) (registry : Registry)
    : leaseOf (keys.foldl (fun registry key => releaseKey registry key id) registry) other
        otherId
      = if other ∈ keys ∧ id = otherId then none else leaseOf registry other otherId := by
  induction keys generalizing registry with
  | nil => simp
  | cons key rest ih =>
      rw [List.foldl_cons, ih (fun key member => canonical key (by simp [member])),
        leaseOf_releaseKey]
      simp only [sanitizeKey_inj (canonical key (by simp)) ho]
      by_cases sameId : id = otherId
      · by_cases same : key = other
        · simp [same, sameId]
        · simp [same, Ne.symm same, sameId]
      · simp [sameId]

/-- Freeing an id everywhere removes its lease under every key and no other lease. -/
theorem Registry.Keyed.leaseOf_releaseEverywhere {registry : Registry}
    (keyed : registry.Keyed) {key : String} (isKey : IsKey key) (id otherId : String)
    : leaseOf (Ipam.releaseEverywhere registry id) key otherId
      = if id = otherId then none else leaseOf registry key otherId := by
  rw [Ipam.releaseEverywhere, keyed.migrateStrayFiles,
    leaseOf_foldl_releaseKey (fun key member => (keyed.mem_registryKeys.mp member).1) isKey]
  by_cases listed : key ∈ registryKeys registry
  · simp [listed]
  · have absent : load registry key = none := by
      cases found : load registry key with
      | none => rfl
      | some map => exact (listed (keyed.of_load isKey found)).elim
    simp [leaseOf, absent]

theorem Registry.Keyed.releaseEverywhere {registry : Registry} (keyed : registry.Keyed)
    (id : String)
    : (Ipam.releaseEverywhere registry id).Keyed := by
  rw [Ipam.releaseEverywhere, keyed.migrateStrayFiles]
  generalize registryKeys registry = keys
  induction keys generalizing registry with
  | nil => exact keyed
  | cons key rest ih => exact ih (keyed.releaseKey key id)

end Delonix.Ipam
