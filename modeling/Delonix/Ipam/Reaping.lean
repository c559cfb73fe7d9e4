import Delonix.Ipam.Operations
import Delonix.Library.Runs

/-! The grace window of the reaper, over whole runs.
A clock in the side file stands for an earlier pass that saw the lease orphaned, as long as no
lease is created under a clock that an earlier lease of the same id left behind.
-/

namespace Delonix.Ipam

open Delonix.Library.Runs

/-- The event is the allocation that created the lease of an id under a key. -/
def CreatesLease (event : Event Registry Operation) (key id : String) : Prop :=
  (∃ network, event.action = .allocate network id ∧ registryKey network = key)
    ∧ leaseOf event.before key id = none ∧ leaseOf event.after key id ≠ none

/-- An earlier pass at `firstSeen` saw this lease orphaned, after the allocation that created
it, and every pass since saw it orphaned too.
-/
structure SeenOrphaned (history : List (Event Registry Operation)) (key id ip : String)
    (firstSeen : Nat) : Prop where
  sighting : ∃ newer first older live, history = newer ++ first :: older
    ∧ first.action = .reapOrphanLeases live firstSeen ∧ id ∉ live
    ∧ leaseOf first.before key id = some ip
    ∧ (∀ event ∈ newer, ¬ CreatesLease event key id)
    ∧ ∀ event ∈ newer, ∀ live nowSecs, event.action = .reapOrphanLeases live nowSecs →
      id ∉ live ∧ leaseOf event.before key id = some ip

/-- Every reap of the history removes only leases that are not alive and that were seen
orphaned the grace window before.
-/
def ReapsAfterGrace (history : List (Event Registry Operation)) : Prop :=
  ∀ newer before live nowSecs after older,
    history = newer ++ ⟨before, .reapOrphanLeases live nowSecs, after⟩ :: older →
    ∀ key id ip, IsKey key → leaseOf before key id = some ip → leaseOf after key id = none →
      id ∉ live ∧ ∃ firstSeen, firstSeen + refMarkerGrace ≤ nowSecs
        ∧ SeenOrphaned older key id ip firstSeen

/-- The operation is one of the four without a pinned address, and an allocation that will
create a lease finds no clock left from an earlier lease of the same id.
-/
def NoStaleClock (registry : Registry) : Operation → Prop
  | .allocate network id =>
      leaseOf registry (registryKey network) id = none →
      (pickIp (registryKey network) id
        ((load registry (registryKey network)).getD ∅)).isSome →
      registry.reapCandidates[candidateKey (registryKey network) id]? = none
  | .reserve .. | .reserveVmDhcp .. => False
  | _ => True

/-- Every clock of a held lease stands for a sighting in the history. -/
structure ClocksSighted (history : List (Event Registry Operation)) (registry : Registry)
    : Prop where
  keyed : registry.Keyed
  sighted : ∀ key id ip firstSeen, IsKey key → leaseOf registry key id = some ip →
    registry.reapCandidates[candidateKey key id]? = some firstSeen →
    SeenOrphaned history key id ip firstSeen

theorem clocksSighted_empty : ClocksSighted [] Registry.empty where
  keyed := Registry.keyed_empty
  sighted := by simp [leaseOf, load, Registry.empty]

/-- A sighting stays one after an event that found the lease held, and orphaned if it was a
pass.
-/
theorem SeenOrphaned.cons {history : List (Event Registry Operation)}
    {key id ip : String} {firstSeen : Nat}
    (seen : SeenOrphaned history key id ip firstSeen) {event : Event Registry Operation}
    (held : leaseOf event.before key id = some ip)
    (orphaned : ∀ live nowSecs, event.action = .reapOrphanLeases live nowSecs → id ∉ live)
    : SeenOrphaned (event :: history) key id ip firstSeen where
  sighting := by
    obtain ⟨newer, first, older, live, rfl, action, dead, lease, created, passes⟩ :=
      seen.sighting
    refine ⟨event :: newer, first, older, live, rfl, action, dead, lease, ?_, ?_⟩
    · intro other member
      rcases List.mem_cons.mp member with rfl | member
      · rintro ⟨_, missing, _⟩
        rw [held] at missing
        contradiction
      · exact created other member
    · intro other member otherLive nowSecs pass
      rcases List.mem_cons.mp member with rfl | member
      · exact ⟨orphaned otherLive nowSecs pass, held⟩
      · exact passes other member otherLive nowSecs pass

/-- A pass starts a clock for each orphan it sees first, and keeps the others running. -/
theorem ClocksSighted.reap {history : List (Event Registry Operation)} {registry : Registry}
    (clocks : ClocksSighted history registry) (live : List String) (nowSecs : Nat)
    {next : Registry} (result : next = (reapOrphanLeases registry live nowSecs).1)
    : ClocksSighted (⟨registry, .reapOrphanLeases live nowSecs, next⟩ :: history) next where
  keyed := result ▸ clocks.keyed.reapOrphanLeases live nowSecs
  sighted key id ip firstSeen isKey held clock := by
    subst result
    obtain ⟨leases, candidates⟩ := clocks.keyed.reapOrphanLeases_spec live nowSecs isKey id
    rw [leases] at held
    rw [candidates] at clock
    split at held
    case isTrue => contradiction
    case isFalse =>
      simp only [held, Option.isSome_some, if_true, carried] at clock
      split at clock
      case isTrue => contradiction
      case isFalse dead =>
        split at clock
        case h_1 =>
          obtain rfl := Option.some.inj clock
          exact ⟨[], _, history, live, rfl, rfl, dead, held, by simp, by simp⟩
        case h_2 earlier found =>
          split at clock
          case isTrue => contradiction
          case isFalse =>
            obtain rfl := Option.some.inj clock
            refine (clocks.sighted key id ip earlier isKey held found).cons held ?_
            rintro _ _ same
            obtain ⟨rfl, rfl⟩ := Operation.reapOrphanLeases.inj same
            exact dead

/-- The other operations keep the clocks, and an allocation that creates a lease finds none
for it.
-/
theorem ClocksSighted.perform {history : List (Event Registry Operation)}
    {registry next : Registry} (clocks : ClocksSighted history registry)
    {operation : Operation} (fresh : NoStaleClock registry operation)
    (result : next = Operation.perform registry operation)
    : ClocksSighted (⟨registry, operation, next⟩ :: history) next := by
  by_cases reap : ∃ live nowSecs, operation = .reapOrphanLeases live nowSecs
  · obtain ⟨live, nowSecs, rfl⟩ := reap
    exact clocks.reap live nowSecs result
  · have other : ∀ live nowSecs, operation ≠ .reapOrphanLeases live nowSecs :=
      fun live nowSecs same => reap ⟨live, nowSecs, same⟩
    refine { keyed := result ▸ clocks.keyed.perform operation, sighted := ?_ }
    intro key id ip firstSeen isKey held clock
    subst result
    rw [clocks.keyed.reapCandidates_perform other] at clock
    rcases leaseOf_perform clocks.keyed isKey held with old | grant
    · exact (clocks.sighted key id ip firstSeen isKey old clock).cons old
        (fun live nowSecs same => (other live nowSecs same).elim)
    · cases grant with
      | allocated _ missing picked =>
          have cleared := fresh missing (by simp [picked])
          rw [clock] at cleared
          exact (Option.some_ne_none _ cleared).elim
      | reserved => exact fresh.elim
      | reservedVmDhcp => exact fresh.elim

/-- A pass removes a held lease only under a clock that has run for the grace window. -/
theorem clock_of_removed {registry : Registry} (keyed : registry.Keyed) {live : List String}
    {nowSecs : Nat} {key id ip : String} (isKey : IsKey key)
    (held : leaseOf registry key id = some ip)
    (gone : leaseOf (reapOrphanLeases registry live nowSecs).1 key id = none)
    : id ∉ live ∧ ∃ firstSeen, firstSeen + refMarkerGrace ≤ nowSecs
      ∧ registry.reapCandidates[candidateKey key id]? = some firstSeen := by
  rw [(keyed.reapOrphanLeases_spec live nowSecs isKey id).1] at gone
  split at gone
  case isFalse =>
    rw [held] at gone
    contradiction
  case isTrue dead =>
    simp only [expired, List.contains_eq_mem, Bool.and_eq_true, Bool.not_eq_true',
      decide_eq_false_iff_not] at dead
    obtain ⟨orphan, aged⟩ := dead
    split at aged
    case h_1 => contradiction
    case h_2 firstSeen found =>
      have age : refMarkerGrace ≤ nowSecs - firstSeen := by simpa using aged
      exact ⟨orphan, firstSeen, by simp only [refMarkerGrace] at age ⊢; omega, found⟩

/-- In every run where no lease is created under a stale clock, every reap respects the grace
window of the lease it frees.
-/
theorem reapsAfterGrace {history : List (Event Registry Operation)} {registry : Registry}
    (run : Run (StepOf Operation.perform) Registry.empty history registry)
    (fresh : Meets NoStaleClock history)
    : ReapsAfterGrace history := by
  intro newer before live nowSecs after older same key id ip isKey held gone
  subst same
  obtain ⟨earlier, taken⟩ := run.split
  have clocks : ClocksSighted older before := by
    refine earlier.invariant ClocksSighted clocksSighted_empty ?_
      (fun event member => fresh event (by simp [member]))
    intro history before operation after clocks taken fresh
    exact clocks.perform fresh taken
  obtain rfl : after = (reapOrphanLeases before live nowSecs).1 := taken
  obtain ⟨orphan, firstSeen, aged, found⟩ := clock_of_removed clocks.keyed isKey held gone
  exact ⟨orphan, firstSeen, aged, clocks.sighted key id ip firstSeen isKey held found⟩

/-- A lease created under a stale clock is freed by the next pass past that clock's window,
though no pass has seen the lease before.
-/
theorem removed_under_stale_clock {registry : Registry} (keyed : registry.Keyed)
    {network id ip : String} {firstSeen nowSecs : Nat}
    (missing : leaseOf registry (registryKey network) id = none)
    (picked : pickIp (registryKey network) id
      ((load registry (registryKey network)).getD ∅) = some ip)
    (stale : registry.reapCandidates[candidateKey (registryKey network) id]?
      = some firstSeen)
    (aged : firstSeen + refMarkerGrace ≤ nowSecs)
    : leaseOf (allocate registry network id).1 (registryKey network) id = some ip
      ∧ leaseOf (reapOrphanLeases (allocate registry network id).1 [] nowSecs).1
        (registryKey network) id = none := by
  have isKey := isKey_of_validIpInSubnet (pickIp_eq_some picked).2.1
  have granted : leaseOf (allocate registry network id).1 (registryKey network) id
      = some ip := by
    rw [leaseOf_eq_getD] at missing
    simp [allocate, keyed.migrateStrayFiles, missing, picked, leaseOf_insert isKey isKey]
  have clock : (allocate registry network id).1.reapCandidates[
      candidateKey (registryKey network) id]? = some firstSeen := by
    rw [← stale]
    have kept : (Operation.perform registry (.allocate network id)).reapCandidates
        = registry.reapCandidates := keyed.reapCandidates_perform (by simp)
    exact congrArg (fun candidates => candidates[candidateKey (registryKey network) id]?) kept
  have window : refMarkerGrace ≤ nowSecs - firstSeen := by
    simp only [refMarkerGrace] at aged ⊢
    omega
  have keyedAfter : (allocate registry network id).1.Keyed :=
    keyed.perform (.allocate network id)
  refine ⟨granted, ?_⟩
  rw [(keyedAfter.reapOrphanLeases_spec [] nowSecs isKey id).1]
  simp [expired, clock, window]

/-- One id on one network: seen orphaned, and reclaimed by a pass after the grace window. -/
def orphanRun : List Operation :=
  [.allocate "10.88" "c1", .reapOrphanLeases [] 100, .reapOrphanLeases [] 115]

theorem reapsAfterGrace_orphanRun
    : ReapsAfterGrace (trace Operation.perform Registry.empty [] orphanRun) := by
  refine reapsAfterGrace (Run.start.trace orphanRun) ?_
  simp only [orphanRun, trace, meets_cons, NoStaleClock]
  exact ⟨trivial, trivial, fun _ _ => by decide +kernel, by simp [Meets]⟩

/-- The id is released and allocated again between the two passes. -/
def staleClockRun : List Operation :=
  [.allocate "10.88" "c1", .reapOrphanLeases [] 100, .release "10.88" "c1",
    .allocate "10.88" "c1", .reapOrphanLeases [] 115]

theorem staleClockRun_not_reapsAfterGrace
    : ∃ history registry, Run (StepOf Operation.perform) Registry.empty history registry
      ∧ history = trace Operation.perform Registry.empty [] staleClockRun
      ∧ ¬ ReapsAfterGrace history := by
  refine ⟨_, _, Run.start.trace staleClockRun, rfl, ?_⟩
  intro respected
  have isKey : IsKey "10.88" := {
    network := ⟨{ base := 0x0A580000, len := 16 }, by decide +kernel⟩
    canonical := by decide +kernel
  }
  obtain ⟨_, firstSeen, _, seen⟩ := respected [] _ _ _ _ _ rfl "10.88" "c1" "10.88.0.193" isKey
    (by decide +kernel) (by decide +kernel)
  obtain ⟨newer, first, older, live, same, action, _, _, created, _⟩ := seen.sighting
  -- The event before the last pass is the second allocation: it is no pass itself, and
  -- nothing older than it counts.
  cases newer with
  | nil =>
      obtain ⟨rfl, _⟩ := List.cons.inj same
      exact Operation.noConfusion action
  | cons last rest =>
      obtain ⟨rfl, _⟩ := List.cons.inj same
      exact created _ List.mem_cons_self ⟨⟨"10.88", rfl, by decide +kernel⟩, by decide +kernel,
        by decide +kernel⟩

end Delonix.Ipam
