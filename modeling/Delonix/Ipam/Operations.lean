import Delonix.Ipam.ReapPass
import Delonix.Library.Runs
import Delonix.Net.DhcpPool

/-! What one operation of the registry can change, whichever writer it is.
Files stay canonical, a lease found afterwards is an old one or the one just granted, and only
a reap pass writes the candidate clocks.
-/

namespace Delonix.Ipam

open Delonix.Library.Runs
open Delonix.Net

/-- A pinned lease keeps the files canonical. -/
theorem Registry.Keyed.reserveIn {registry : Registry} (keyed : registry.Keyed)
    (network id ip remedy : String)
    : (Ipam.reserveIn registry (registryKey network) id ip remedy).1.Keyed := by
  rcases reserveIn_cases keyed network id ip remedy with same | ⟨isKey, _, _, stored⟩
  · rw [same]
    exact keyed
  · rw [stored]
    exact keyed.store isKey _

/-- Every operation keeps the files canonical. -/
theorem Registry.Keyed.perform {registry : Registry} (keyed : registry.Keyed)
    (operation : Operation)
    : (Operation.perform registry operation).Keyed := by
  cases operation with
  | allocate network id =>
      simp only [Operation.perform]
      rcases allocate_cases keyed network id with same | ⟨ip, grant, stored⟩
      · rw [same]
        exact keyed
      · rw [stored]
        cases grant with
        | allocated isKey => exact keyed.store isKey _
  | reserve network id ip =>
      simp only [Operation.perform, Ipam.reserve]
      split
      · exact keyed
      · exact keyed.reserveIn network id ip _
  | reserveVmDhcp network id ip =>
      simp only [Operation.perform, Ipam.reserveVmDhcp]
      split
      · exact keyed
      · exact keyed.reserveIn network id ip _
  | release network id =>
      simp only [Operation.perform, Ipam.release, keyed.migrateStrayFiles]
      exact keyed.releaseKey _ id
  | releaseEverywhere id => exact keyed.releaseEverywhere id
  | reapOrphanLeases live nowSecs => exact keyed.reapOrphanLeases live nowSecs

/-- After a step, a lease is an old one or the one the operation granted. -/
theorem leaseOf_perform {registry : Registry} (keyed : registry.Keyed)
    {operation : Operation} {key id ip : String} (isKey : IsKey key)
    (held : leaseOf (Operation.perform registry operation) key id = some ip)
    : leaseOf registry key id = some ip ∨ Grants registry operation key id ip := by
  cases operation with
  | allocate network newId =>
      rcases allocate_cases keyed network newId with same | ⟨newIp, grant, stored⟩
      · exact .inl (by simpa only [Operation.perform, same] using held)
      · have target : IsKey (registryKey network) := by
          cases grant
          assumption
        simp only [Operation.perform, stored, leaseOf_insert target isKey] at held
        split at held
        case isTrue same =>
          obtain ⟨rfl, rfl⟩ := same
          obtain rfl := Option.some.inj held
          exact .inr grant
        case isFalse => exact .inl held
  | reserve network newId newIp =>
      simp only [Operation.perform, Ipam.reserve] at held
      split at held
      case isTrue => exact .inl held
      case isFalse outside =>
        rcases reserveIn_cases keyed network newId newIp "pick another address" with
          same | ⟨target, valid, free, stored⟩
        · exact .inl (by simpa only [same] using held)
        · rw [stored, leaseOf_insert target isKey] at held
          split at held
          case isTrue same =>
            obtain ⟨rfl, rfl⟩ := same
            obtain rfl := Option.some.inj held
            exact .inr (.reserved target (by simpa using outside) valid free)
          case isFalse => exact .inl held
  | reserveVmDhcp network newId newIp =>
      simp only [Operation.perform, Ipam.reserveVmDhcp] at held
      split at held
      case isTrue => exact .inl held
      case isFalse inside =>
        rcases reserveIn_cases keyed network newId newIp _ with
          same | ⟨target, valid, free, stored⟩
        · exact .inl (by rw [same] at held; exact held)
        · rw [stored, leaseOf_insert target isKey] at held
          split at held
          case isTrue same =>
            obtain ⟨rfl, rfl⟩ := same
            obtain rfl := Option.some.inj held
            exact .inr (.reservedVmDhcp target (by simpa using inside) valid free)
          case isFalse => exact .inl held
  | release network oldId =>
      simp only [Operation.perform, Ipam.release, keyed.migrateStrayFiles,
        leaseOf_releaseKey] at held
      split at held
      · contradiction
      · exact .inl held
  | releaseEverywhere oldId =>
      simp only [Operation.perform, keyed.leaseOf_releaseEverywhere isKey] at held
      split at held
      · contradiction
      · exact .inl held
  | reapOrphanLeases live nowSecs =>
      simp only [Operation.perform, (keyed.reapOrphanLeases_spec live nowSecs isKey id).1]
        at held
      split at held
      · contradiction
      · exact .inl held

theorem reapCandidates_releaseKey (registry : Registry) (key id : String)
    : (releaseKey registry key id).reapCandidates = registry.reapCandidates := by
  unfold releaseKey
  split
  · rfl
  · split <;> rfl

theorem reapCandidates_foldl_releaseKey (registry : Registry) (keys : List String)
    (id : String)
    : (keys.foldl (fun registry key => releaseKey registry key id) registry).reapCandidates
      = registry.reapCandidates := by
  induction keys generalizing registry with
  | nil => rfl
  | cons key rest ih => rw [List.foldl_cons, ih, reapCandidates_releaseKey]

/-- The writers other than the reaper leave every clock where it is. -/
theorem Registry.Keyed.reapCandidates_perform {registry : Registry} (keyed : registry.Keyed)
    {operation : Operation} (other : ∀ live nowSecs, operation ≠ .reapOrphanLeases live nowSecs)
    : (Operation.perform registry operation).reapCandidates = registry.reapCandidates := by
  cases operation with
  | allocate network id =>
      rcases allocate_cases keyed network id with same | ⟨ip, _, stored⟩
      · rw [Operation.perform, same]
      · rw [Operation.perform, stored, Ipam.store]
  | reserve network id ip =>
      simp only [Operation.perform, Ipam.reserve]
      split
      · rfl
      · rcases reserveIn_cases keyed network id ip "pick another address" with
          same | ⟨_, _, _, stored⟩
        · rw [same]
        · rw [stored, Ipam.store]
  | reserveVmDhcp network id ip =>
      simp only [Operation.perform, Ipam.reserveVmDhcp]
      split
      · rfl
      · rcases reserveIn_cases keyed network id ip _ with same | ⟨_, _, _, stored⟩
        · rw [same]
        · rw [stored, Ipam.store]
  | release network id =>
      rw [Operation.perform, Ipam.release, keyed.migrateStrayFiles, reapCandidates_releaseKey]
  | releaseEverywhere id =>
      rw [Operation.perform, Ipam.releaseEverywhere, keyed.migrateStrayFiles]
      exact reapCandidates_foldl_releaseKey _ _ _
  | reapOrphanLeases live nowSecs => exact (other live nowSecs rfl).elim

/-- The operation asks for a container's address. -/
def Operation.OfContainer : Operation → Prop
  | .allocate _ _ => True
  | .reserve _ _ _ => True
  | _ => False

/-- A granted container lease is outside the pool of its network. -/
theorem Grants.outside_pool {registry : Registry} {operation : Operation}
    {key id ip : String} (grant : Grants registry operation key id ip)
    (ofContainer : operation.OfContainer)
    : inVmDhcpPool key ip = false := by
  cases grant with
  | allocated _ _ picked => exact (pickIp_eq_some picked).2.2.1
  | reserved _ outside _ _ => exact outside
  | reservedVmDhcp => exact ofContainer.elim

theorem keyed_of_run {history : List (Event Registry Operation)} {registry : Registry}
    (run : Run (StepOf Operation.perform) Registry.empty history registry)
    : registry.Keyed := by
  induction run with
  | start => exact Registry.keyed_empty
  | step earlier taken keyed =>
      subst taken
      exact keyed.perform _

/-- Whatever the MAC, its address lies in the pool and is usable, in every spelling of the
network.
-/
def VmAddressesPooled (lowercase : String → String) (network : String) : Prop :=
  ∀ mac, ∃ ip, vmDhcpLeaseIp lowercase network mac = some ip
    ∧ ∀ spelling, Cidr.parse spelling = Cidr.parse network
      → inVmDhcpPool spelling ip = true ∧ validIpInSubnet spelling ip = true

/-- In every run, a lease that an allocation or a pinned lease creates in the network's
registry is outside the pool, and denotes the address of no MAC.
-/
def ContainerLeasesApart (lowercase : String → String) (network : String) : Prop :=
  ∀ history registry, Run (StepOf Operation.perform) Registry.empty history registry
    → ∀ event ∈ history, event.action.OfContainer
    → ∀ id ip, leaseOf event.after (registryKey network) id = some ip
      → leaseOf event.before (registryKey network) id ≠ some ip
      → inVmDhcpPool network ip = false
        ∧ ∀ mac vmIp, vmDhcpLeaseIp lowercase network mac = some vmIp
          → Cidr.parseAddr ip ≠ Cidr.parseAddr vmIp

/-- The DHCP server and the registry never give out one address twice. -/
theorem authorities_apart (lowercase : String → String) {network : String}
    (pooled : (vmDhcpPool network).isSome = true)
    : VmAddressesPooled lowercase network ∧ ContainerLeasesApart lowercase network := by
  obtain ⟨⟨first, size⟩, pool⟩ := Option.isSome_iff_exists.mp pooled
  obtain ⟨net, parsed, _⟩ := Option.bind_eq_some_iff.mp pool
  have pooledVms : VmAddressesPooled lowercase network := by
    intro mac
    obtain ⟨addr, lease, low, high⟩ := vmDhcpLeaseIp_eq_some lowercase parsed pool mac
    refine ⟨_, lease, ?_⟩
    intro spelling same
    exact validIpInSubnet_of_pool (same.trans parsed) ((vmDhcpPool_congr same).trans pool)
      low high
  refine ⟨pooledVms, ?_⟩
  intro history registry run event member ofContainer id ip held fresh
  obtain ⟨newer, older, rfl⟩ := List.append_of_mem member
  obtain ⟨earlier, taken⟩ := run.split
  rw [taken] at held
  have isKey := isKey_registryKey parsed
  rcases leaseOf_perform (keyed_of_run earlier) isKey held with old | grant
  · exact absurd old fresh
  · have outside : inVmDhcpPool network ip = false := by
      rw [← grant.outside_pool ofContainer]
      exact inVmDhcpPool_of_parse (parsed.trans (parse_registryKey parsed).symm) ip
    refine ⟨outside, ?_⟩
    intro mac vmIp lease same
    obtain ⟨vmIp', lease', pooledIn⟩ := pooledVms mac
    obtain rfl := Option.some.inj (lease.symm.trans lease')
    have inside := (pooledIn network rfl).1
    simp only [inVmDhcpPool, ← same] at inside
    rw [inVmDhcpPool, inside] at outside
    contradiction

theorem authorities_apart_sixteen
    : VmAddressesPooled id "10.77.0.0/16" ∧ ContainerLeasesApart id "10.77.0.0/16" :=
  authorities_apart id (by decide +kernel)

example : Cidr.parse "10.77" = Cidr.parse "10.77.0.0/16" := by decide +kernel

end Delonix.Ipam
