import Delonix.Ipam.Operations
import Delonix.Ipam.Preferred
import Delonix.Library.Runs

/-! One address, one owner, over whole runs of the registry.
Occupancy is compared as text, so the invariant has two halves: distinct ids hold distinct
texts, and every text is the spelling `fmtU32` writes.
-/

namespace Delonix.Ipam

open Delonix.Net
open Delonix.Library.Text
open Delonix.Library.Runs

/-- No map of the registry holds two ids whose leases denote one address. -/
def Registry.UniqueAddresses (registry : Registry) : Prop :=
  ∀ (stem : String) (map : Leases), registry.files[stem]? = some map →
    ∀ (i j ip jp : String) (address : UInt32), map[i]? = some ip →
      map[j]? = some jp → Cidr.parseAddr ip = some address → Cidr.parseAddr jp = some address → i = j

/-- A pinned address that passes the admission checks is given in its canonical spelling. -/
def Operation.SpelledIp : Operation → Prop
  | .reserve network _ ip =>
      inVmDhcpPool (registryKey network) ip = false →
        validIpInSubnet (registryKey network) ip = true → Spelled ip
  | .reserveVmDhcp network _ ip =>
      inVmDhcpPool (registryKey network) ip = true →
        validIpInSubnet (registryKey network) ip = true → Spelled ip
  | _ => True

/-- The invariant of runs whose pinned addresses are canonically spelled. -/
structure Registry.OneOwner (registry : Registry) : Prop where
  keyed : registry.Keyed
  spelled : ∀ key id ip, IsKey key → leaseOf registry key id = some ip → Spelled ip
  distinct : ∀ key i j ip, IsKey key → leaseOf registry key i = some ip →
    leaseOf registry key j = some ip → i = j

theorem Registry.oneOwner_empty : Registry.empty.OneOwner where
  keyed := Registry.keyed_empty
  spelled := by simp [leaseOf, load, Registry.empty]
  distinct := by simp [leaseOf, load, Registry.empty]

/-- A granted text is held by no other id of that network. -/
theorem Grants.unshared {registry : Registry} {operation : Operation} {key id ip : String}
    (grant : Grants registry operation key id ip) {other : String} (differs : other ≠ id)
    : leaseOf registry key other ≠ some ip := by
  cases grant with
  | allocated _ _ picked =>
      intro held
      rw [leaseOf_eq_getD] at held
      have unused := (pickIp_eq_some picked).2.2.2
      exact unused (List.mem_map.mpr
        ⟨(other, ip), Std.ExtTreeMap.mem_toList_iff_getElem?_eq_some.mpr held, rfl⟩)
  | reserved _ _ _ free => exact free other differs
  | reservedVmDhcp _ _ _ free => exact free other differs

theorem Grants.id_eq {registry : Registry} {operation : Operation}
    {key key' i j ip jp : String} (left : Grants registry operation key i ip)
    (right : Grants registry operation key' j jp)
    : i = j := by
  cases left <;> cases right <;> rfl

theorem Grants.spelled {registry : Registry} {operation : Operation} {key id ip : String}
    (grant : Grants registry operation key id ip) (given : operation.SpelledIp)
    : Spelled ip := by
  cases grant with
  | allocated isKey _ picked => exact spelled_pickIp isKey picked
  | reserved _ outside valid _ => exact given outside valid
  | reservedVmDhcp _ inside valid _ => exact given inside valid

/-- One operation keeps the invariant: an old lease was covered before, and a granted one is
canonical and shares its text with nobody.
-/
theorem Registry.OneOwner.perform {registry : Registry} (owned : registry.OneOwner)
    {operation : Operation} (given : operation.SpelledIp)
    : (Operation.perform registry operation).OneOwner where
  keyed := owned.keyed.perform operation
  spelled key id ip isKey held := by
    rcases leaseOf_perform owned.keyed isKey held with old | grant
    · exact owned.spelled key id ip isKey old
    · exact grant.spelled given
  distinct key i j ip isKey heldI heldJ := by
    rcases leaseOf_perform owned.keyed isKey heldI with oldI | grantI <;>
      rcases leaseOf_perform owned.keyed isKey heldJ with oldJ | grantJ
    · exact owned.distinct key i j ip isKey oldI oldJ
    · by_contra differs
      exact grantJ.unshared differs oldI
    · by_contra differs
      exact grantI.unshared (Ne.symm differs) oldJ
    · exact grantI.id_eq grantJ

/-- Canonical texts are equal when they denote one address, so distinct texts are distinct
addresses.
-/
theorem Registry.OneOwner.uniqueAddresses {registry : Registry} (owned : registry.OneOwner)
    : registry.UniqueAddresses := by
  intro stem map found i j ip jp address heldI heldJ parsedI parsedJ
  obtain ⟨key, isKey, rfl⟩ := owned.keyed stem (Std.ExtTreeMap.mem_iff_isSome_getElem?.mpr
    (by simp [found]))
  have leaseI : leaseOf registry key i = some ip := by simp [leaseOf, load, found, heldI]
  have leaseJ : leaseOf registry key j = some jp := by simp [leaseOf, load, found, heldJ]
  obtain ⟨a, rfl⟩ := owned.spelled key i ip isKey leaseI
  obtain ⟨b, rfl⟩ := owned.spelled key j jp isKey leaseJ
  rw [Cidr.parseAddr_fmtU32] at parsedI parsedJ
  obtain rfl := Option.some.inj parsedI
  obtain rfl := Option.some.inj parsedJ
  exact owned.distinct key i j _ isKey leaseI leaseJ

theorem validIpInSubnet_congr {key ip jp : String}
    (same : Cidr.parseAddr ip = Cidr.parseAddr jp)
    : validIpInSubnet key ip = validIpInSubnet key jp := by
  simp only [validIpInSubnet, same]

theorem inVmDhcpPool_congr {key ip jp : String}
    (same : Cidr.parseAddr ip = Cidr.parseAddr jp)
    : inVmDhcpPool key ip = inVmDhcpPool key jp := by
  simp only [inVmDhcpPool, same]

theorem not_uniqueAddresses {registry : Registry} {key i j ip jp : String} {address : UInt32}
    (heldI : leaseOf registry key i = some ip) (heldJ : leaseOf registry key j = some jp)
    (parsedI : Cidr.parseAddr ip = some address) (parsedJ : Cidr.parseAddr jp = some address)
    (differs : i ≠ j)
    : ¬ registry.UniqueAddresses := by
  intro unique
  obtain ⟨map, found, inI⟩ := Option.bind_eq_some_iff.mp heldI
  have inJ : map[j]? = some jp := by simpa [leaseOf, found] using heldJ
  exact differs (unique _ map found i j ip jp address inI inJ parsedI parsedJ)

/-- Any other spelling of an address is admitted beside the canonical one, for another id. -/
theorem not_uniqueAddresses_reserveIn {network id other ip remedy remedy' : String}
    {address : UInt32} (valid : validIpInSubnet (registryKey network) ip = true)
    (parsed : Cidr.parseAddr ip = some address) (odd : ip ≠ Cidr.fmtU32 address)
    (differs : other ≠ id)
    : ¬ (reserveIn (reserveIn Registry.empty (registryKey network) other
          (Cidr.fmtU32 address) remedy).1
        (registryKey network) id ip remedy').1.UniqueAddresses := by
  have same : Cidr.parseAddr ip = Cidr.parseAddr (Cidr.fmtU32 address) := by
    rw [parsed, Cidr.parseAddr_fmtU32]
  have first := leaseOf_reserveIn Registry.keyed_empty other remedy
    (validIpInSubnet_congr same ▸ valid) (by simp [leaseOf, load, Registry.empty])
  have keyed := Registry.keyed_empty.reserveIn network other (Cidr.fmtU32 address) remedy
  have second := leaseOf_reserveIn keyed id remedy' valid (by
    intro holder _
    rw [first]
    split
    · simpa using Ne.symm odd
    · simp [leaseOf, load, Registry.empty])
  refine not_uniqueAddresses (i := id) (j := other) (by rw [second, if_pos rfl])
    (by rw [second, if_neg (Ne.symm differs), first, if_pos rfl]) parsed
    (Cidr.parseAddr_fmtU32 address) (Ne.symm differs)

theorem exists_parseAddr_of_validIpInSubnet {key ip : String}
    (valid : validIpInSubnet key ip = true)
    : ∃ address, Cidr.parseAddr ip = some address := by
  unfold validIpInSubnet at valid
  split at valid
  case h_1 address _ parsed => exact ⟨address, parsed⟩
  case h_2 => contradiction

private theorem append_zero_ne (id : String) : id ++ "0" ≠ id := by
  intro same
  have lengths := congrArg String.length same
  simp at lengths

/-- One registration of an admitted address under another spelling can follow a canonical
registration of the same address.
-/
theorem exists_shared_of_not_spelledIp {operation : Operation}
    (odd : ¬ operation.SpelledIp)
    : ∃ earlier : Operation, earlier.SpelledIp
      ∧ ¬ (Operation.perform (Operation.perform Registry.empty earlier)
        operation).UniqueAddresses := by
  cases operation with
  | reserve network id ip =>
      simp only [Operation.SpelledIp, Classical.not_imp] at odd
      obtain ⟨outside, valid, unspelled⟩ := odd
      obtain ⟨address, parsed⟩ := exists_parseAddr_of_validIpInSubnet valid
      have canonical : Cidr.parseAddr ip = Cidr.parseAddr (Cidr.fmtU32 address) := by
        rw [parsed, Cidr.parseAddr_fmtU32]
      have first : inVmDhcpPool (registryKey network) (Cidr.fmtU32 address) = false :=
        inVmDhcpPool_congr canonical ▸ outside
      refine ⟨.reserve network (id ++ "0") (Cidr.fmtU32 address), fun _ _ => ⟨_, rfl⟩, ?_⟩
      simpa only [Operation.perform, Ipam.reserve, first, outside, Bool.false_eq_true,
        if_false] using not_uniqueAddresses_reserveIn valid parsed
          (fun equal => unspelled ⟨_, equal⟩) (append_zero_ne id)
  | reserveVmDhcp network id ip =>
      simp only [Operation.SpelledIp, Classical.not_imp] at odd
      obtain ⟨inside, valid, unspelled⟩ := odd
      obtain ⟨address, parsed⟩ := exists_parseAddr_of_validIpInSubnet valid
      have canonical : Cidr.parseAddr ip = Cidr.parseAddr (Cidr.fmtU32 address) := by
        rw [parsed, Cidr.parseAddr_fmtU32]
      have first : inVmDhcpPool (registryKey network) (Cidr.fmtU32 address) = true :=
        inVmDhcpPool_congr canonical ▸ inside
      refine ⟨.reserveVmDhcp network (id ++ "0") (Cidr.fmtU32 address),
        fun _ _ => ⟨_, rfl⟩, ?_⟩
      simpa only [Operation.perform, Ipam.reserveVmDhcp, first, inside, Bool.not_true,
        Bool.false_eq_true, if_false] using not_uniqueAddresses_reserveIn valid parsed
          (fun equal => unspelled ⟨_, equal⟩) (append_zero_ne id)
  | allocate | release | releaseEverywhere | reapOrphanLeases => exact (odd trivial).elim

/-- In every run whose admitted pinned addresses are canonically spelled, no two ids of one
network denote one address.
-/
theorem leases_uniqueAddresses {history : List (Event Registry Operation)}
    {registry : Registry}
    (run : Run (StepOf Operation.perform) Registry.empty history registry)
    (spelled : Meets (fun _ operation => operation.SpelledIp) history)
    : registry.UniqueAddresses := by
  suffices owned : registry.OneOwner from owned.uniqueAddresses
  refine run.invariant (fun _ => Registry.OneOwner) Registry.oneOwner_empty ?_ spelled
  intro _ before operation after owned taken given
  obtain rfl : after = Operation.perform before operation := taken
  exact owned.perform given

/-- An allocation and a pinned lease on one network, under two spellings of it. -/
def spelledRun : List Operation :=
  [.allocate "10.77.0.0/16" "deadbeef", .reserve "10.77" "web" "10.77.0.9"]

theorem leases_uniqueAddresses_spelledRun
    : (spelledRun.foldl Operation.perform Registry.empty).UniqueAddresses := by
  refine leases_uniqueAddresses (Run.start.trace spelledRun) ?_
  simp only [spelledRun, trace, meets_cons, Operation.SpelledIp]
  exact ⟨fun _ _ => ⟨fromBeBytes [10, 77, 0, 9], by decide⟩, trivial, by simp [Meets]⟩

/-- One address pinned twice, the second time with a leading zero. -/
def leadingZeroRun : List Operation :=
  [.reserve "10.88" "a" "10.88.0.5", .reserve "10.88" "b" "10.88.0.05"]

theorem leadingZeroRun_not_uniqueAddresses
    : ∃ history registry, Run (StepOf Operation.perform) Registry.empty history registry
      ∧ registry = leadingZeroRun.foldl Operation.perform Registry.empty
      ∧ ¬ registry.UniqueAddresses := by
  refine ⟨_, _, Run.start.trace leadingZeroRun, rfl, ?_⟩
  have first : leaseOf (leadingZeroRun.foldl Operation.perform Registry.empty) "10.88" "a"
      = some "10.88.0.5" := by decide +kernel
  have second : leaseOf (leadingZeroRun.foldl Operation.perform Registry.empty) "10.88" "b"
      = some "10.88.0.05" := by decide +kernel
  have address : Cidr.parseAddr "10.88.0.05" = Cidr.parseAddr "10.88.0.5" := by decide
  exact not_uniqueAddresses first second rfl address (by decide)

end Delonix.Ipam
