import Delonix.Ipam.Preferred
import Mathlib.Data.List.Rotate

/-! The linear probe goes once around the prefix, so an allocation fails only where no address is
left to give.
-/

namespace Delonix.Ipam

open Delonix.Net

/-- The addresses that the loop tries while none is free. -/
def probes (net : Cidr) (inicio : UInt32) : Nat → UInt32 → List UInt32
  | 0, _ => []
  | remaining + 1, k =>
      (net.base + (inicio - net.base + k) % net.size) :: probes net inicio remaining (k + 1)

/-- What a probed address has to be. -/
def admits (key : String) (used : List String) (cand : String) : Bool :=
  validIpInSubnet key cand && !inVmDhcpPool key cand && !used.contains cand

/-- The loop returns the first address it tries that is free, by induction on the remaining ones. -/
theorem probeLoop_eq_find (key : String) (net : Cidr) (inicio : UInt32) (used : List String)
    (remaining : Nat) (k : UInt32)
    : probeLoop key net inicio used remaining k
      = ((probes net inicio remaining k).map Cidr.fmtU32).find? (admits key used) := by
  induction remaining generalizing k with
  | zero => rfl
  | succ remaining ih =>
    rw [probeLoop, probes, List.map_cons, List.find?_cons, admits]
    split
    case isTrue free => rw [free]
    case isFalse taken =>
      rw [Bool.not_eq_true] at taken
      rw [taken, ih]

theorem probes_eq_map (net : Cidr) (inicio : UInt32) (remaining : Nat) (k : UInt32)
    : probes net inicio remaining k
      = (List.range remaining).map fun i =>
          net.base + (inicio - net.base + k + UInt32.ofNat i) % net.size := by
  induction remaining generalizing k with
  | zero => rfl
  | succ remaining ih =>
    rw [probes, ih, List.range_succ_eq_map, List.map_cons, List.map_map]
    congr 1
    · rw [show UInt32.ofNat 0 = 0 from rfl, UInt32.add_zero]
    · refine List.map_congr_left fun i _ => ?_
      rw [Function.comp_apply, Nat.succ_eq_add_one, UInt32.ofNat_add, UInt32.add_comm _ (.ofNat 1),
        ← UInt32.add_assoc, ← UInt32.add_assoc]
      rfl

/-- A walk around a circle, from any point. -/
theorem map_mod_range (n start : Nat)
    : (List.range n).map (fun i => (start + i) % n) = (List.range n).rotate start := by
  apply List.ext_getElem
  · simp
  · intro i _ _
    simp [List.getElem_rotate, Nat.add_comm]

variable {net : Cidr}

theorem toNat_probe (wellFormed : net.WellFormed) (positive : 0 < net.len) (offset : UInt32) (i : Nat)
    : (net.base + (offset + UInt32.ofNat i) % net.size).toNat
      = net.base.toNat + (offset.toNat + i) % net.span := by
  have room := wellFormed.base_add_span_le
  have whole : net.span ∣ 2 ^ 32 := Nat.pow_dvd_pow 2 (Nat.sub_le 32 net.len)
  have inside : (offset.toNat + i) % net.span < net.span := Nat.mod_lt _ (Nat.two_pow_pos _)
  have wraps : (offset + UInt32.ofNat i).toNat % net.span = (offset.toNat + i) % net.span := by
    rw [UInt32.toNat_add, UInt32.toNat_ofNat', Nat.mod_mod_of_dvd _ whole, Nat.add_mod,
      Nat.mod_mod_of_dvd _ whole, ← Nat.add_mod]
  rw [UInt32.toNat_add, UInt32.toNat_mod, Cidr.toNat_size positive wellFormed.short, wraps,
    Nat.mod_eq_of_lt (by omega)]

/-- The numbers of the addresses tried are the interval of the prefix, from the start around. -/
theorem toNat_probes (wellFormed : net.WellFormed) (positive : 0 < net.len) (inicio : UInt32)
    : (probes net inicio net.size.toNat 0).map UInt32.toNat
      = ((List.range net.span).rotate (inicio - net.base).toNat).map (net.base.toNat + ·) := by
  rw [probes_eq_map, List.map_map, Cidr.toNat_size positive wellFormed.short, ← map_mod_range,
    List.map_map, UInt32.add_zero]
  exact List.map_congr_left fun i _ => toNat_probe wellFormed positive _ i

/-- Every address of the prefix is tried once, whatever the start. -/
theorem probes_once (wellFormed : net.WellFormed) (positive : 0 < net.len) (inicio : UInt32)
    : (probes net inicio net.size.toNat 0).Nodup
      ∧ ∀ addr, addr ∈ probes net inicio net.size.toNat 0 ↔ net.contains addr = true := by
  have numbers := toNat_probes wellFormed positive inicio
  constructor
  · refine List.Nodup.of_map UInt32.toNat ?_
    rw [numbers]
    exact (List.nodup_rotate.mpr List.nodup_range).map (add_right_injective net.base.toNat)
  · intro addr
    rw [← List.mem_map_of_injective (fun _ _ => UInt32.toNat_inj.mp), numbers,
      wellFormed.contains_iff]
    simp only [List.mem_map, List.mem_rotate, List.mem_range]
    constructor
    · rintro ⟨i, below, number⟩
      omega
    · rintro ⟨low, high⟩
      exact ⟨addr.toNat - net.base.toNat, by omega, by omega⟩

/-- The address may be given: usable and outside of the pool. -/
structure Allocatable (network : String) (addr : UInt32) : Prop where
  usable : validIpInSubnet network (Cidr.fmtU32 addr) = true
  outside : inVmDhcpPool network (Cidr.fmtU32 addr) = false

theorem allocatable_congr {left right : String} (same : Cidr.parse left = Cidr.parse right)
    (addr : UInt32)
    : Allocatable left addr ↔ Allocatable right addr := by
  have apart {network : String}
      : Allocatable network addr
        ↔ validIpInSubnet network (Cidr.fmtU32 addr) = true
          ∧ inVmDhcpPool network (Cidr.fmtU32 addr) = false :=
    ⟨fun ⟨usable, outside⟩ => ⟨usable, outside⟩, fun ⟨usable, outside⟩ => ⟨usable, outside⟩⟩
  rw [apart, apart, validIpInSubnet_congr same, inVmDhcpPool_of_parse same]

theorem mem_leased_iff {map : Leases} {ip : String}
    : ip ∈ map.toList.map Prod.snd ↔ ∃ holder : String, map[holder]? = some ip := by
  constructor
  · intro member
    obtain ⟨⟨holder, ip⟩, entry, rfl⟩ := List.mem_map.mp member
    exact ⟨holder, Std.ExtTreeMap.mem_toList_iff_getElem?_eq_some.mp entry⟩
  · rintro ⟨holder, entry⟩
    exact List.mem_map.mpr
      ⟨(holder, ip), Std.ExtTreeMap.mem_toList_iff_getElem?_eq_some.mpr entry, rfl⟩

theorem Allocatable.contains {network : String} {addr : UInt32}
    (parsed : Cidr.parse network = some net) (allocatable : Allocatable network addr)
    : net.contains addr = true := by
  rw [(Cidr.parse_wellFormed parsed).contains_iff]
  have inside := (validIpInSubnet_iff parsed (Cidr.parseAddr_fmtU32 addr)).mp allocatable.usable
  omega

/-- No address is picked exactly where all of those that may be given are in use. -/
theorem pickIp_eq_none_iff {key : String} (isKey : IsKey key) (parsed : Cidr.parse key = some net)
    (positive : 0 < net.len) (id : String) (map : Leases)
    : pickIp key id map = none
      ↔ ∀ addr, Allocatable key addr → Cidr.fmtU32 addr ∈ map.toList.map Prod.snd := by
  constructor
  · intro none addr allocatable
    simp only [pickIp] at none
    split at none
    case isTrue => contradiction
    case isFalse =>
      rw [probeFree, parsed, Option.bind_some, probeLoop_eq_find, List.find?_eq_none] at none
      have refused := none (Cidr.fmtU32 addr) (List.mem_map_of_mem
        (((probes_once (Cidr.parse_wellFormed parsed) positive _).2 addr).mpr
          (allocatable.contains parsed)))
      simpa [admits, allocatable.usable, allocatable.outside] using refused
  · intro full
    cases picked : pickIp key id map with
    | none => rfl
    | some ip =>
      obtain ⟨-, usable, outside, free⟩ := pickIp_eq_some picked
      obtain ⟨addr, rfl⟩ := spelled_pickIp isKey picked
      exact absurd (full addr ⟨usable, outside⟩) free

/-- The address that an allocation gives is nobody's, and it gives one unless all are leased; the
probe tries every address of the prefix once, from any start.
-/
theorem allocate_complete {network id : String} {registry : Registry}
    (parsed : Cidr.parse network = some net) (positive : 0 < net.len)
    (spelled : ∀ holder ip,
      leaseOf (migrateStrayFiles registry) (registryKey network) holder = some ip → Spelled ip)
    (missing : leaseOf (migrateStrayFiles registry) (registryKey network) id = none)
    : (∀ ip, (allocate registry network id).2 = .ok ip →
        ∃ addr, ip = Cidr.fmtU32 addr ∧ Allocatable network addr
          ∧ ∀ holder text,
            leaseOf (migrateStrayFiles registry) (registryKey network) holder = some text →
              Cidr.parseAddr text ≠ some addr)
      ∧ ((∃ error, (allocate registry network id).2 = .error error)
        ↔ ∀ addr, Allocatable network addr → ∃ holder,
          leaseOf (migrateStrayFiles registry) (registryKey network) holder
            = some (Cidr.fmtU32 addr))
      ∧ ∀ inicio,
        (∀ key used, probeLoop key net inicio used net.size.toNat 0
          = ((probes net inicio net.size.toNat 0).map Cidr.fmtU32).find? (admits key used))
        ∧ (probes net inicio net.size.toNat 0).Nodup
        ∧ ∀ addr, addr ∈ probes net inicio net.size.toNat 0 ↔ net.contains addr = true := by
  have keyed := parse_registryKey parsed
  have isKey := isKey_registryKey parsed
  have same (addr : UInt32) := allocatable_congr (keyed.trans parsed.symm) addr
  generalize migrated : migrateStrayFiles registry = start at spelled missing ⊢
  rw [leaseOf_eq_getD] at missing
  generalize found : (load start (registryKey network)).getD ∅ = map at missing
  have held (holder : String) : leaseOf start (registryKey network) holder = map[holder]? := by
    rw [leaseOf_eq_getD, found]
  have result : (allocate registry network id).2
      = (pickIp (registryKey network) id map).elim
          (.error (.command "ipam"
            ("no free IP in the " ++ registryKey network ++ " /16 (registry full)"))) .ok := by
    simp only [allocate, migrated, found, missing]
    cases pickIp (registryKey network) id map <;> rfl
  refine ⟨?_, ?_, fun inicio => ⟨fun key used => probeLoop_eq_find .., ?_⟩⟩
  · intro ip given
    rw [result] at given
    cases picked : pickIp (registryKey network) id map with
    | none =>
      rw [picked] at given
      cases given
    | some ip =>
      rw [picked] at given
      obtain rfl := Except.ok.inj given
      obtain ⟨-, usable, outside, free⟩ := pickIp_eq_some picked
      obtain ⟨addr, rfl⟩ := spelled_pickIp isKey picked
      refine ⟨addr, rfl, (same addr).mp ⟨usable, outside⟩, ?_⟩
      intro holder text entry denotes
      obtain ⟨other, rfl⟩ := spelled holder text entry
      rw [Cidr.parseAddr_fmtU32] at denotes
      obtain rfl := Option.some.inj denotes
      rw [held] at entry
      exact free (mem_leased_iff.mpr ⟨holder, entry⟩)
  · simp only [held, ← mem_leased_iff, ← same]
    rw [← pickIp_eq_none_iff isKey keyed positive id map, result]
    cases pickIp (registryKey network) id map with
    | none => exact ⟨fun _ => rfl, fun _ => ⟨_, rfl⟩⟩
    | some ip =>
      constructor
      · rintro ⟨_, refused⟩
        cases refused
      · intro refused
        cases refused
  · exact probes_once (Cidr.parse_wellFormed parsed) positive inicio

def officeKey : String := "192.168.1.0/29"

/-- A small network, with the holders of its addresses. -/
def officeRegistry (held : List (String × UInt32)) : Registry :=
  store Registry.empty officeKey
    (held.foldr (fun lease map => map.insert lease.1 (Cidr.fmtU32 lease.2)) ∅)

theorem parse_officeKey : Cidr.parse officeKey = some ⟨0xC0A80100, 29⟩ := by decide +kernel

theorem leaseOf_officeRegistry (held : List (String × UInt32)) (holder : String)
    : leaseOf (migrateStrayFiles (officeRegistry held)) (registryKey officeKey) holder
      = (held.lookup holder).map Cidr.fmtU32 := by
  have isKey := isKey_registryKey parse_officeKey
  have same : registryKey officeKey = officeKey := by decide +kernel
  rw [same] at isKey ⊢
  have keyed : (officeRegistry held).Keyed := Registry.keyed_empty.store isKey _
  rw [keyed.migrateStrayFiles, officeRegistry, leaseOf_store isKey isKey, if_pos rfl]
  clear keyed
  induction held with
  | nil => rfl
  | cons lease rest ih =>
    rw [List.foldr_cons, Std.ExtTreeMap.getElem?_insert, List.lookup_cons, ih]
    by_cases mine : lease.1 = holder
    · simp [mine]
    · have other : (holder == lease.1) = false := beq_eq_false_iff_ne.mpr (Ne.symm mine)
      simp [mine, other]

/-- Three of the addresses from .2 to .6 are leased, so another one is given; where all five are
leased there is none to give.
-/
theorem allocate_complete_office
    : (∃ ip, (allocate (officeRegistry
            [("web", 0xC0A80102), ("db", 0xC0A80103), ("cache", 0xC0A80105)])
          officeKey "0badcafe").2 = .ok ip)
      ∧ ∃ error, (allocate (officeRegistry
            [("web", 0xC0A80102), ("db", 0xC0A80103), ("dns", 0xC0A80104),
              ("cache", 0xC0A80105), ("log", 0xC0A80106)])
          officeKey "0badcafe").2 = .error error := by
  have spelled (held : List (String × UInt32)) (holder ip : String)
      (lease : leaseOf (migrateStrayFiles (officeRegistry held)) (registryKey officeKey) holder
        = some ip)
      : Spelled ip := by
    rw [leaseOf_officeRegistry, Option.map_eq_some_iff] at lease
    obtain ⟨addr, -, rfl⟩ := lease
    exact ⟨addr, rfl⟩
  have missing {held : List (String × UInt32)} (none : held.lookup "0badcafe" = none)
      : leaseOf (migrateStrayFiles (officeRegistry held)) (registryKey officeKey) "0badcafe"
        = .none := by
    rw [leaseOf_officeRegistry, none]
    rfl
  constructor
  · have complete := allocate_complete parse_officeKey (by decide) (spelled
      [("web", 0xC0A80102), ("db", 0xC0A80103), ("cache", 0xC0A80105)]) (missing (by decide))
    cases given : (allocate (officeRegistry
        [("web", 0xC0A80102), ("db", 0xC0A80103), ("cache", 0xC0A80105)])
      officeKey "0badcafe").2 with
    | ok ip => exact ⟨ip, rfl⟩
    | error error =>
      obtain ⟨holder, lease⟩ := complete.2.1.mp ⟨error, given⟩ 0xC0A80104
        ⟨by decide +kernel, by decide +kernel⟩
      rw [leaseOf_officeRegistry, Option.map_eq_some_iff] at lease
      obtain ⟨addr, found, same⟩ := lease
      have is := congrArg Cidr.parseAddr same
      rw [Cidr.parseAddr_fmtU32, Cidr.parseAddr_fmtU32, Option.some.injEq] at is
      obtain ⟨before, after, shape, -⟩ := List.lookup_eq_some_iff.mp found
      have member := congrArg ((holder, addr) ∈ ·) shape
      simp [is] at member
  · have complete := allocate_complete parse_officeKey (by decide) (spelled
      [("web", 0xC0A80102), ("db", 0xC0A80103), ("dns", 0xC0A80104),
        ("cache", 0xC0A80105), ("log", 0xC0A80106)]) (missing (by decide))
    refine complete.2.1.mpr fun addr allocatable => ?_
    have probed : probes ⟨0xC0A80100, 29⟩ 0xC0A80100 (Cidr.size ⟨0xC0A80100, 29⟩).toNat 0
        = [0xC0A80100, 0xC0A80101, 0xC0A80102, 0xC0A80103, 0xC0A80104, 0xC0A80105, 0xC0A80106,
          0xC0A80107] := by decide
    have member := ((complete.2.2 0xC0A80100).2.2 addr).mpr (allocatable.contains parse_officeKey)
    rw [probed] at member
    simp only [List.mem_cons, List.not_mem_nil, or_false] at member
    simp only [leaseOf_officeRegistry]
    rcases member with rfl | rfl | rfl | rfl | rfl | rfl | rfl | rfl
    · exact absurd allocatable.usable (by decide +kernel)
    · exact absurd allocatable.usable (by decide +kernel)
    · exact ⟨"web", rfl⟩
    · exact ⟨"db", rfl⟩
    · exact ⟨"dns", rfl⟩
    · exact ⟨"cache", rfl⟩
    · exact ⟨"log", rfl⟩
    · exact absurd allocatable.usable (by decide +kernel)

end Delonix.Ipam
