import Delonix.IpPool.Ledger

/-! One address, one holder: what the ledger keeps over any run of calls. A claim looks for a free
address in the file of its own pool only, so what keeps two pools apart is the state it starts
from; a lease that is given back late is held twice until it is.
-/

namespace Delonix.IpPool

open Delonix.Library.Checks Delonix.Library.Faults Delonix.Library.KeyedFiles Delonix.Library.Runs
  Delonix.Library.Sorting Delonix.Net

-----------------------------------------------------------------------------------------
-- The law of the ledger
-----------------------------------------------------------------------------------------

def Leased (ledger : Ledger) (a : UInt32) (claimant : String) : Prop :=
  ∃ p ∈ ledger.all, ∃ lease ∈ p.leases.all, lease.1 = claimant
    ∧ parseIpv4 lease.2.toList = some a

/-- The claimant holds an address in some pool. -/
def Holds (claimant : String) (ledger : Ledger) : Prop :=
  ∃ p ∈ ledger.all, (p.leases.read claimant).isSome = true

structure OneHolder (ledger : Ledger) : Prop where
  exclusive : ∀ a first second, Leased ledger a first → Leased ledger a second → first = second
  inside : ∀ p ∈ ledger.all, ∀ lease ∈ p.leases.all, ∃ addresses a, expand p.addresses
    = .ok addresses ∧ parseIpv4 lease.2.toList = some a ∧ a ∈ addresses
  single : ∀ claimant a b, Leased ledger a claimant → Leased ledger b claimant → a = b
  hosts : ∀ p ∈ ledger.all, ∀ addresses, expand p.addresses = .ok addresses
    → ∀ a ∈ addresses, isReserved a = false

/-- A look tells what the claim takes, and a claim that fails takes nothing away. -/
structure FairClaims (ledger : Ledger) : Prop where
  told : ∀ pool claimant, (claimIn noFaults pool claimant .peek ledger).1
    = (claimIn noFaults pool claimant .move ledger).1
  kept : ∀ faults pool claimant mode stop,
    (claimIn faults pool claimant mode ledger).1 = .error stop
    → Holds claimant ledger → Holds claimant (claimIn faults pool claimant mode ledger).2

/-- A pool has a plain file name. A claim that is about to write a lease finds its address leased to
nobody else in any pool, and what a move gives back can be written.
-/
def Careful (ledger : Ledger) (action : Action) : Prop :=
  match action.op with
  | .apply name _ => isListed name = true
  | .claim pool claimant mode =>
      ∀ p free, ledger.read pool = some p → heldElsewhere ledger pool claimant mode = none
        → held p claimant = none → firstFree p [] = .ok free → mode ≠ .peek
        → action.faults pool = none
        → (∀ q ∈ ledger.all, ∀ lease ∈ q.leases.all, lease.2 = Cidr.fmtU32 free
            → lease.1 = claimant)
          ∧ (mode = .move → ∀ q ∈ ledger.all, q.name ≠ pool
            → (q.leases.read claimant).isSome = true → action.faults q.name = none)
  | .release _ _ | .stamp _ _ _ | .remove _ => True

-----------------------------------------------------------------------------------------
-- The invariant
-----------------------------------------------------------------------------------------

def Inside (p : PoolFile) : Prop :=
  ∃ addresses, expand p.addresses = .ok addresses
    ∧ ∀ lease ∈ p.leases.all, ∃ a ∈ addresses, lease.2 = Cidr.fmtU32 a

/-- The claimant that is moving, if any, may hold an address in two pools. -/
structure Sound (moving : Option String) (ledger : Ledger) : Prop where
  listed : ∀ p ∈ ledger.all, isListed p.name = true
  inside : ∀ p ∈ ledger.all, Inside p
  exclusive : ∀ p ∈ ledger.all, ∀ q ∈ ledger.all, ∀ lease ∈ p.leases.all, ∀ other ∈ q.leases.all,
    lease.2 = other.2 → lease.1 = other.1
  single : ∀ p ∈ ledger.all, ∀ q ∈ ledger.all, ∀ lease ∈ p.leases.all, ∀ other ∈ q.leases.all,
    lease.1 = other.1 → some lease.1 ≠ moving → p.name = q.name

theorem sound_noPools : Sound none noPools := by
  constructor <;> simp [noPools]

theorem Sound.oneHolder {ledger : Ledger} (sound : Sound none ledger) : OneHolder ledger := by
  constructor
  case exclusive =>
    rintro a first second ⟨p, p_in, lease, lease_in, rfl, is⟩ ⟨q, q_in, other, other_in, rfl, its⟩
    obtain ⟨_, -, p_inside⟩ := sound.inside p p_in
    obtain ⟨_, -, q_inside⟩ := sound.inside q q_in
    obtain ⟨b, -, spelled⟩ := p_inside lease lease_in
    obtain ⟨c, -, other_spelled⟩ := q_inside other other_in
    rw [spelled, parseIpv4_fmtU32, Option.some.injEq] at is
    rw [other_spelled, parseIpv4_fmtU32, Option.some.injEq] at its
    exact sound.exclusive p p_in q q_in lease lease_in other other_in
      (by rw [spelled, other_spelled, is, its])
  case inside =>
    intro p p_in lease lease_in
    obtain ⟨addresses, expanded, all⟩ := sound.inside p p_in
    obtain ⟨a, mem, spelled⟩ := all lease lease_in
    exact ⟨addresses, a, expanded, by rw [spelled, parseIpv4_fmtU32], mem⟩
  case single =>
    rintro claimant a b ⟨p, p_in, lease, lease_in, is, mine⟩
      ⟨q, q_in, other, other_in, its, yours⟩
    have same_name := sound.single p p_in q q_in lease lease_in other other_in
      (is.trans its.symm) (by simp)
    obtain rfl := ledger.ext_key p_in q_in same_name
    obtain rfl := p.leases.ext_key lease_in other_in (is.trans its.symm)
    exact Option.some.inj (mine.symm.trans yours)
  case hosts =>
    exact fun p _ addresses expanded => expand_hosts expanded

/-- Every lease of the second ledger is one of the first, in the pool of the same name. -/
theorem Sound.fewer {moving : Option String} {ledger ledger' : Ledger}
    (sound : Sound moving ledger)
    (sorts : ∀ p ∈ ledger'.all, isListed p.name = true ∧ Inside p)
    (origin : ∀ p ∈ ledger'.all, ∀ lease ∈ p.leases.all, ∃ old ∈ ledger.all,
      old.name = p.name ∧ lease ∈ old.leases.all)
    : Sound moving ledger' where
  listed p p_in := (sorts p p_in).1
  inside p p_in := (sorts p p_in).2
  exclusive := by
    intro p p_in q q_in lease lease_in other other_in same
    obtain ⟨p, p_in, -, lease_in⟩ := origin p p_in lease lease_in
    obtain ⟨q, q_in, -, other_in⟩ := origin q q_in other other_in
    exact sound.exclusive p p_in q q_in lease lease_in other other_in same
  single := by
    intro p p_in q q_in lease lease_in other other_in same still
    obtain ⟨p, p_in, p_name, lease_in⟩ := origin p p_in lease lease_in
    obtain ⟨q, q_in, q_name, other_in⟩ := origin q q_in other other_in
    rw [← p_name, ← q_name]
    exact sound.single p p_in q q_in lease lease_in other other_in same still

theorem Sound.erase {ledger : Ledger} (sound : Sound none ledger) (name : String)
    : Sound none (ledger.erase name) := by
  refine sound.fewer ?_ ?_
  · intro p p_in
    obtain ⟨was_in, -⟩ := Keyed.mem_erase.mp p_in
    exact ⟨sound.listed p was_in, sound.inside p was_in⟩
  · intro p p_in lease lease_in
    exact ⟨p, (Keyed.mem_erase.mp p_in).1, rfl, lease_in⟩

/-- A pool written anew with no new lease. -/
theorem Sound.resized {moving : Option String} {ledger : Ledger} (sound : Sound moving ledger)
    {p' : PoolFile} (listed : isListed p'.name = true) (inside : Inside p')
    (origin : ∀ lease ∈ p'.leases.all, ∃ p ∈ ledger.all, p.name = p'.name ∧ lease ∈ p.leases.all)
    : Sound moving (ledger.save p') := by
  refine sound.fewer ?_ ?_
  · intro q q_in
    obtain rfl | ⟨was_in, -⟩ := Keyed.mem_save.mp q_in
    · exact ⟨listed, inside⟩
    · exact ⟨sound.listed q was_in, sound.inside q was_in⟩
  · intro q q_in lease lease_in
    obtain rfl | ⟨was_in, -⟩ := Keyed.mem_save.mp q_in
    · exact origin lease lease_in
    · exact ⟨q, was_in, rfl, lease_in⟩

theorem Sound.rewritten {moving : Option String} {ledger : Ledger} (sound : Sound moving ledger)
    {p p' : PoolFile} (p_in : p ∈ ledger.all) (same_name : p'.name = p.name)
    (same_addresses : p'.addresses = p.addresses) (fewer : p'.leases.all ⊆ p.leases.all)
    : Sound moving (ledger.save p') := by
  refine sound.resized ?_ ?_ fun lease lease_in => ⟨p, p_in, same_name.symm, fewer lease_in⟩
  · rw [same_name]
    exact sound.listed p p_in
  · obtain ⟨addresses, expanded, all⟩ := sound.inside p p_in
    exact ⟨addresses, by rw [same_addresses, expanded], fun lease lease_in =>
      all lease (fewer lease_in)⟩

/-- The pool with one more lease. -/
def withLease (p : PoolFile) (claimant : String) (free : UInt32) : PoolFile :=
  { p with leases := p.leases.save (claimant, Cidr.fmtU32 free) }

theorem mem_withLease {p : PoolFile} {claimant : String} {free : UInt32}
    {lease : String × String} (mem : lease ∈ (withLease p claimant free).leases.all)
    : lease = (claimant, Cidr.fmtU32 free) ∨ lease ∈ p.leases.all :=
  (Keyed.mem_save.mp mem).imp_right And.left

/-- A lease on an address that nobody else has keeps the addresses apart; the claimant may have
another one.
-/
theorem Sound.taken {ledger : Ledger} (sound : Sound none ledger) {p : PoolFile}
    (p_in : p ∈ ledger.all) {claimant : String} {addresses : List UInt32} {free : UInt32}
    (expanded : expand p.addresses = .ok addresses) (mem : free ∈ addresses)
    (nobody : ∀ q ∈ ledger.all, ∀ lease ∈ q.leases.all, lease.2 = Cidr.fmtU32 free
      → lease.1 = claimant)
    : Sound (some claimant) (ledger.save (withLease p claimant free)) := by
  -- a lease of the new ledger is the new one or an old one, of the pool of that name
  have origin : ∀ q ∈ (ledger.save (withLease p claimant free)).all, ∀ lease ∈ q.leases.all,
      lease = (claimant, Cidr.fmtU32 free)
        ∨ ∃ old ∈ ledger.all, old.name = q.name ∧ lease ∈ old.leases.all := by
    intro q q_in lease lease_in
    obtain rfl | ⟨was_in, -⟩ := Keyed.mem_save.mp q_in
    · exact (mem_withLease lease_in).imp_right fun old => ⟨p, p_in, rfl, old⟩
    · exact .inr ⟨q, was_in, rfl, lease_in⟩
  constructor
  case listed =>
    intro q q_in
    obtain rfl | ⟨was_in, -⟩ := Keyed.mem_save.mp q_in
    · exact sound.listed p p_in
    · exact sound.listed q was_in
  case inside =>
    intro q q_in
    obtain rfl | ⟨was_in, -⟩ := Keyed.mem_save.mp q_in
    · refine ⟨addresses, expanded, fun lease lease_in => ?_⟩
      obtain rfl | old := mem_withLease lease_in
      · exact ⟨free, mem, rfl⟩
      · obtain ⟨_, same, all⟩ := sound.inside p p_in
        cases expanded.symm.trans same
        exact all lease old
    · exact sound.inside q was_in
  case exclusive =>
    intro q q_in r r_in lease lease_in other other_in same
    obtain rfl | ⟨q, q_in, -, lease_in⟩ := origin q q_in lease lease_in
    · obtain rfl | ⟨r, r_in, -, other_in⟩ := origin r r_in other other_in
      · rfl
      · exact (nobody r r_in other other_in same.symm).symm
    · obtain rfl | ⟨r, r_in, -, other_in⟩ := origin r r_in other other_in
      · exact nobody q q_in lease lease_in same
      · exact sound.exclusive q q_in r r_in lease lease_in other other_in same
  case single =>
    intro q q_in r r_in lease lease_in other other_in same still
    obtain rfl | ⟨q, q_in, q_name, lease_in⟩ := origin q q_in lease lease_in
    · exact absurd rfl still
    · obtain rfl | ⟨r, r_in, r_name, other_in⟩ := origin r r_in other other_in
      · exact absurd (congrArg some same) still
      · rw [← q_name, ← r_name]
        exact sound.single q q_in r r_in lease lease_in other other_in same (by simp)

/-- The move is over once the claimant holds addresses in one pool only. -/
theorem Sound.settled {ledger : Ledger} {claimant : String}
    (sound : Sound (some claimant) ledger) (pool : String)
    (settled : ∀ p ∈ ledger.all, p.name ≠ pool → p.leases.read claimant = none)
    : Sound none ledger where
  listed := sound.listed
  inside := sound.inside
  exclusive := sound.exclusive
  single := by
    intro p p_in q q_in lease lease_in other other_in same _
    by_cases moving : lease.1 = claimant
    · have home : ∀ q ∈ ledger.all, ∀ other ∈ q.leases.all, other.1 = claimant
          → q.name = pool := by
        intro q q_in other other_in its
        by_contra away
        exact Keyed.read_eq_none.mp (settled q q_in away) other other_in its
      rw [home p p_in lease lease_in moving, home q q_in other other_in (same ▸ moving)]
    · refine sound.single p p_in q q_in lease lease_in other other_in same ?_
      simpa using moving

-----------------------------------------------------------------------------------------
-- Giving back
-----------------------------------------------------------------------------------------

theorem withoutLease_eq_some {claimant : String} {p p' : PoolFile}
    (changed : withoutLease claimant p = some p')
    : (p.leases.read claimant).isSome = true
      ∧ p' = { p with leases := p.leases.erase claimant } := by
  rw [withoutLease] at changed
  split at changed <;> cases changed
  case isTrue holds => exact ⟨holds, rfl⟩

theorem withoutLease_getD (claimant : String) (p : PoolFile)
    : ((withoutLease claimant p).getD p).leases.read claimant = none := by
  rw [withoutLease]
  split
  · exact (Keyed.read_erase claimant claimant).trans (if_pos rfl)
  case isFalse absent => simpa using absent

theorem leaves_look {α : Type} {pre cut : Ledger → Prop} {post : α → Ledger → Prop}
    {next : Ledger → Call α}
    (each : ∀ ledger, pre ledger → Leaves (fun w => w = ledger) (next ledger) post cut)
    : Leaves pre (look >>= next) post cut :=
  fun w holds => each w holds w rfl

theorem leaves_giveBackElsewhere {faults : FaultPlan String} {pool claimant : String}
    {ledger : Ledger} (inv cut : Ledger → Prop) (start : inv ledger)
    (keeps : ∀ w, inv w → ∀ p ∈ w.all, p.name ≠ pool
      → inv (w.save { p with leases := p.leases.erase claimant }))
    (stopped : ∀ p ∈ ledger.all, p.name ≠ pool → (p.leases.read claimant).isSome = true
      → faults p.name ≠ none → ∀ w, inv w → cut w)
    : Leaves (fun w => w = ledger) (giveBackElsewhere faults pool claimant .move)
      (fun _ w => inv w ∧ ∀ p ∈ othersIn ledger pool, (withoutLease claimant p).getD p ∈ w.all)
      cut := by
  rw [giveBackElsewhere, if_pos rfl]
  refine leaves_look fun now same => ?_
  cases same
  rw [giveBack_eq]
  refine (leaves_rewrite withoutLease_name (nodup_othersIn _ _) inv ?_ ?_).weaken ?_
    (fun _ _ made => made) (fun _ made => made)
  · rintro w p mem p' holds there changed
    obtain ⟨-, rfl⟩ := withoutLease_eq_some changed
    exact keeps w holds p there (mem_othersIn.mp mem).2.2
  · rintro p mem p' changed fault w holds
    obtain ⟨was_in, -, away⟩ := mem_othersIn.mp mem
    exact stopped p was_in away (withoutLease_eq_some changed).1 fault w holds
  · rintro w rfl
    exact ⟨start, fun p mem => (mem_othersIn.mp mem).1⟩

/-- A pool keeps its leases while leases in other pools are given back. -/
theorem leaves_giveBackElsewhere_own {faults : FaultPlan String} {claimant : String} {mode : Mode}
    {p : PoolFile}
    : Leaves (fun ledger => p ∈ ledger.all) (giveBackElsewhere faults p.name claimant mode)
      (fun _ ledger => p ∈ ledger.all) (fun ledger => p ∈ ledger.all) := by
  by_cases moving : mode = .move
  · rw [moving]
    intro ledger there
    refine (leaves_giveBackElsewhere (fun w => p ∈ w.all) (fun w => p ∈ w.all) there ?_ ?_).weaken
      (fun _ is => is) (fun _ _ made => made.1) (fun _ made => made) ledger rfl
    · exact fun w holds q _ away =>
        Keyed.mem_save.mpr (.inr ⟨holds, fun same => away same.symm⟩)
    · exact fun _ _ _ _ _ _ holds => holds
  · rw [giveBackElsewhere, if_neg moving]
    exact Leaves.pure fun _ there => there

theorem giveBackElsewhere_noFaults (pool claimant : String) (mode : Mode) (ledger : Ledger)
    : ∃ w, giveBackElsewhere noFaults pool claimant mode ledger = (.ok (), w) := by
  have total : Leaves (fun w => w = ledger) (giveBackElsewhere noFaults pool claimant mode)
      (fun _ _ => True) (fun _ => False) := by
    by_cases moving : mode = .move
    · rw [moving]
      refine (leaves_giveBackElsewhere (fun _ => True) _ trivial ?_ ?_).weaken
        (fun _ is => is) (fun _ _ _ => trivial) fun _ made => made
      · exact fun _ _ _ _ _ => trivial
      · exact fun p _ _ _ fault => absurd rfl fault
    · rw [giveBackElsewhere, if_neg moving]
      exact Leaves.pure fun _ _ => trivial
  obtain ⟨⟨⟩, ended⟩ := total.total rfl
  exact ⟨_, Prod.ext ended rfl⟩

/-- The claimant of a move holds an address in this pool only, once all was given back. -/
theorem leaves_giveBackElsewhere_settled {faults : FaultPlan String} {pool claimant : String}
    {ledger : Ledger} (sound : Sound (some claimant) ledger)
    (quiet : ∀ q ∈ ledger.all, q.name ≠ pool → (q.leases.read claimant).isSome = true
      → faults q.name = none)
    : Leaves (fun w => w = ledger) (giveBackElsewhere faults pool claimant .move)
      (fun _ w => Sound none w) (fun _ => False) := by
  refine (leaves_giveBackElsewhere
    (fun w => Sound (some claimant) w
      ∧ ∀ q ∈ w.all, q.name ≠ pool → ∃ p ∈ othersIn ledger pool, p.name = q.name)
    _ ⟨sound, ?_⟩ ?_ ?_).weaken (fun _ is => is) ?_ fun _ made => made
  · intro q q_in away
    exact ⟨q, mem_othersIn.mpr ⟨q_in, sound.listed q q_in, away⟩, rfl⟩
  · rintro w ⟨sound, known⟩ p p_in away
    refine ⟨sound.rewritten p_in rfl rfl ?_, ?_⟩
    · exact fun lease mem => (Keyed.mem_erase.mp mem).1
    · intro q q_in
      obtain rfl | ⟨was_in, -⟩ := Keyed.mem_save.mp q_in
      · exact known p p_in
      · exact known q was_in
  · exact fun p p_in away holds fault => absurd (quiet p p_in away holds) fault
  · rintro ⟨⟩ w ⟨⟨sound, known⟩, done⟩
    refine sound.settled pool fun q q_in away => ?_
    obtain ⟨p, mem, same⟩ := known q q_in away
    have left := done p mem
    have name_left : ((withoutLease claimant p).getD p).name = p.name := by
      cases changed : withoutLease claimant p with
      | none => rfl
      | some p' => exact withoutLease_name p p' changed
    rw [w.ext_key q_in left (same.symm.trans name_left.symm)]
    exact withoutLease_getD claimant p

-----------------------------------------------------------------------------------------
-- Claims
-----------------------------------------------------------------------------------------

theorem firstFree_eq_ok {p : PoolFile} {free : UInt32} (found : firstFree p [] = .ok free)
    : ∃ addresses, expand p.addresses = .ok addresses ∧ free ∈ addresses := by
  simp only [firstFree, bind_eq_ok] at found
  obtain ⟨addresses, expanded, found⟩ := found
  split at found
  case h_1 a first =>
    cases found
    exact ⟨addresses, expanded, List.mem_of_find?_eq_some first⟩
  case h_2 => cases found

/-- A claimant that holds an address already has nothing elsewhere to give back. -/
theorem Sound.giveBackElsewhere {faults : FaultPlan String} {ledger : Ledger}
    (sound : Sound none ledger) {p : PoolFile} (p_in : p ∈ ledger.all) {claimant : String}
    {a : UInt32} (holds : held p claimant = some a) (mode : Mode)
    : Leaves (fun w => w = ledger) (giveBackElsewhere faults p.name claimant mode)
      (fun _ w => Sound none w) (Sound none) := by
  by_cases moving : mode = .move
  · rw [moving]
    have weaker : Sound (some claimant) ledger :=
      ⟨sound.listed, sound.inside, sound.exclusive, fun q q_in r r_in lease lease_in other
        other_in same _ => sound.single q q_in r r_in lease lease_in other other_in same (by simp)⟩
    refine (leaves_giveBackElsewhere_settled weaker ?_).weaken (fun _ is => is)
      (fun _ _ made => made) fun _ made => made.elim
    intro q q_in away its
    obtain ⟨other, found⟩ := Option.isSome_iff_exists.mp its
    obtain ⟨other_in, yours⟩ := Keyed.read_eq_some.mp found
    rw [held, Option.bind_eq_some_iff] at holds
    obtain ⟨lease, mine, -⟩ := holds
    obtain ⟨lease_in, mine⟩ := Keyed.read_eq_some.mp mine
    have same := sound.single q q_in p p_in other other_in lease lease_in
      (yours.trans mine.symm) (by simp)
    exact absurd same away
  · rw [Delonix.IpPool.giveBackElsewhere, if_neg moving]
    exact Leaves.pure fun w is => is ▸ sound

theorem Sound.takeFree {faults : FaultPlan String} {ledger : Ledger} (sound : Sound none ledger)
    {p : PoolFile} (p_in : p ∈ ledger.all) {claimant : String} {mode : Mode} {free : UInt32}
    (elsewhere : heldElsewhere ledger p.name claimant mode = none)
    (found : firstFree p [] = .ok free)
    (careful : mode ≠ .peek → faults p.name = none
        → (∀ q ∈ ledger.all, ∀ lease ∈ q.leases.all, lease.2 = Cidr.fmtU32 free
            → lease.1 = claimant)
          ∧ (mode = .move → ∀ q ∈ ledger.all, q.name ≠ p.name
            → (q.leases.read claimant).isSome = true → faults q.name = none))
    : Leaves (fun w => w = ledger) (takeFree faults p p.name claimant mode free)
      (fun _ w => Sound none w) (Sound none) := by
  obtain ⟨addresses, expanded, mem⟩ := firstFree_eq_ok found
  by_cases looking : mode = .peek
  · rw [IpPool.takeFree, looking, if_pos rfl]
    exact Leaves.pure fun w is => is ▸ sound
  · rw [IpPool.takeFree, if_neg looking]
    refine Leaves.bind
      (fun _ w => faults p.name = none ∧ w = ledger.save (withLease p claimant free)) ?_ fun _ => ?_
    · refine leaves_writeIn (fun quiet w is => ⟨quiet, is ▸ rfl⟩) ?_
      exact fun _ w is => is ▸ sound
    refine Leaves.bind (fun _ w => Sound none w) ?_ fun _ => Leaves.pure fun _ holds => holds
    refine Leaves.assume (fun _ holds => holds.1) fun quiet => ?_
    obtain ⟨nobody, back⟩ := careful looking quiet
    have taken := sound.taken p_in expanded mem nobody
    -- beside the pool written there is what was there before
    have others : ∀ q ∈ (ledger.save (withLease p claimant free)).all, q.name ≠ p.name
        → q ∈ ledger.all := by
      intro q q_in away
      obtain rfl | ⟨was_in, -⟩ := Keyed.mem_save.mp q_in
      · exact absurd rfl away
      · exact was_in
    cases mode with
    | peek => exact absurd rfl looking
    | take =>
        rw [IpPool.giveBackElsewhere, if_neg (by decide)]
        refine Leaves.pure fun w is => is.2 ▸ taken.settled p.name fun q q_in away => ?_
        have was_in := others q q_in away
        rw [heldElsewhere, if_pos rfl, List.findSome?_eq_none_iff] at elsewhere
        simpa using elsewhere q (mem_othersIn.mpr ⟨was_in, sound.listed q was_in, away⟩)
    | move =>
        refine (leaves_giveBackElsewhere_settled taken ?_).weaken (fun _ is => is.2)
          (fun _ _ made => made) fun _ made => made.elim
        exact fun q q_in away => back rfl q (others q q_in away) away

theorem Sound.claim {faults : FaultPlan String} {ledger : Ledger} (sound : Sound none ledger)
    {pool claimant : String} {mode : Mode}
    (careful : Careful ledger ⟨.claim pool claimant mode, faults⟩)
    : Leaves (fun w => w = ledger) (claimIn faults pool claimant mode)
      (fun _ w => Sound none w) (Sound none) := by
  rw [claimIn, claimInExcluding]
  refine leaves_look fun now is => ?_
  cases is
  have unchanged : ∀ w, w = ledger → Sound none w := fun w is => is ▸ sound
  cases known : ledger.read pool with
  | none => exact Leaves.refuse unchanged
  | some p =>
      obtain ⟨p_in, rfl⟩ := Keyed.read_eq_some.mp known
      dsimp only
      cases elsewhere : heldElsewhere ledger p.name claimant mode with
      | some other => exact Leaves.refuse unchanged
      | none =>
          dsimp only
          cases holds : held p claimant with
          | some a =>
              exact Leaves.bind (fun _ w => Sound none w)
                (sound.giveBackElsewhere p_in holds mode) fun _ => Leaves.pure fun _ made => made
          | none =>
              cases found : firstFree p [] with
              | error why => exact Leaves.refuse unchanged
              | ok free =>
                  exact sound.takeFree p_in elsewhere found
                    (careful p free known elsewhere holds found)

-----------------------------------------------------------------------------------------
-- The other calls
-----------------------------------------------------------------------------------------

theorem erased_subset (stale : List String) (leases : TextMap)
    : (stale.foldl (fun m c => m.erase c) leases).all ⊆ leases.all := by
  induction stale generalizing leases with
  | nil => exact List.Subset.refl _
  | cons c rest ih =>
      exact fun lease mem => (Keyed.mem_erase.mp (ih (leases.erase c) mem)).1

theorem Sound.release {faults : FaultPlan String} {ledger : Ledger} (sound : Sound none ledger)
    (start : String) (keep : List String)
    : Leaves (fun w => w = ledger) (releaseUnlistedIn faults start keep)
      (fun _ w => Sound none w) (Sound none) := by
  rw [releaseUnlistedIn]
  refine leaves_look fun now is => ?_
  cases is
  rw [releasePools_eq]
  refine (leaves_rewrite withoutStale_name (nodup_listIn _) (Sound none) ?_ ?_).weaken ?_
    (fun _ _ made => made.1) fun _ made => made
  · rintro w p - p' sound p_in changed
    rw [withoutStale] at changed
    split at changed <;> cases changed
    exact sound.rewritten p_in rfl rfl (erased_subset _ _)
  · exact fun _ _ _ _ _ _ holds => holds
  · rintro w rfl
    exact ⟨sound, fun p mem => (mem_listIn.mp mem).1⟩

theorem Sound.stamp {faults : FaultPlan String} {ledger : Ledger} (sound : Sound none ledger)
    (name stack fields : String)
    : Leaves (fun w => w = ledger) (stamp faults name stack fields)
      (fun _ w => Sound none w) (Sound none) := by
  rw [IpPool.stamp]
  refine leaves_look fun now is => ?_
  cases is
  cases known : ledger.read name with
  | none => exact Leaves.refuse fun w is => is ▸ sound
  | some p =>
      refine leaves_writeIn (fun _ w is => ?_) fun _ w is => is ▸ sound
      cases is
      exact sound.rewritten (Keyed.read_eq_some.mp known).1 rfl rfl (List.Subset.refl _)

theorem Sound.remove {faults : FaultPlan String} {ledger : Ledger} (sound : Sound none ledger)
    (name : String)
    : Leaves (fun w => w = ledger) (removeForReplace faults name)
      (fun _ w => Sound none w) (Sound none) := by
  rw [removeForReplace]
  refine leaves_look fun now is => ?_
  cases is
  have unchanged : ∀ w, w = ledger → Sound none w := fun w is => is ▸ sound
  cases known : ledger.read name with
  | none => exact Leaves.pure unchanged
  | some p =>
      by_cases unused : p.leases.all.isEmpty = true
      · simp only [unused, if_true]
        refine Leaves.bind (fun _ w => Sound none w) ?_ fun _ => Leaves.pure fun _ made => made
        refine Leaves.attempt ?_ ?_ ?_ ?_
        · rintro w ⟨⟩ w' is - made
          cases made
          exact is ▸ sound.erase name
        · exact fun w is _ _ => unchanged w is
        · exact fun w is _ => unchanged w is
        · exact fun w is _ => unchanged w is
      · simp only [unused]
        exact Leaves.refuse unchanged

theorem leaseOutside_eq_none {new : List UInt32} {p : PoolFile}
    (outside : leaseOutside new p = none) {lease : String × String} (mem : lease ∈ p.leases.all)
    : ∃ a ∈ new, parseIpv4 lease.2.toList = some a := by
  have kept := List.find?_eq_none.mp outside lease ((perm_sortByKey _).mem_iff.mpr mem)
  cases parsed : parseIpv4 lease.2.toList with
  | none => simp [parsed] at kept
  | some a => exact ⟨a, by simpa [parsed] using kept, rfl⟩

/-- A pool that is declared for the first time has no leases. -/
theorem lease_known {ledger : Ledger} {name : String} {lease : String × String}
    (mem : lease ∈ ((ledger.read name).getD (emptyPool name)).leases.all)
    : ∃ p ∈ ledger.all, p.name = name ∧ lease ∈ p.leases.all := by
  cases known : ledger.read name with
  | none => simp [known, emptyPool, TextMap.empty] at mem
  | some p =>
      obtain ⟨p_in, named⟩ := Keyed.read_eq_some.mp known
      exact ⟨p, p_in, named, by simpa [known] using mem⟩

theorem Sound.apply {faults : FaultPlan String} {ledger : Ledger} (sound : Sound none ledger)
    {name : String} (spec : IpPoolSpec) (listed : isListed name = true)
    : Leaves (fun w => w = ledger) (applyOne faults name spec)
      (fun _ w => Sound none w) (Sound none) := by
  rw [applyOne]
  have unchanged : ∀ w, w = ledger → Sound none w := fun w is => is ▸ sound
  cases valid : validate spec with
  | error why => exact Leaves.refuse unchanged
  | ok done =>
      refine leaves_look fun now is => ?_
      cases is
      cases expanded : expand spec.addresses with
      | error why => exact Leaves.refuse unchanged
      | ok new =>
          dsimp only
          cases outside : leaseOutside new ((ledger.read name).getD (emptyPool name)) with
          | some lease => exact Leaves.refuse unchanged
          | none =>
              refine leaves_writeIn (fun _ w is => ?_) fun _ => unchanged
              cases is
              refine sound.resized listed ⟨new, expanded, ?_⟩ ?_
              · intro lease lease_in
                obtain ⟨a, mem, parsed⟩ := leaseOutside_eq_none outside lease_in
                obtain ⟨p, p_in, -, was_in⟩ := lease_known lease_in
                obtain ⟨_, -, all⟩ := sound.inside p p_in
                obtain ⟨b, -, spelled⟩ := all lease was_in
                rw [spelled, parseIpv4_fmtU32, Option.some.injEq] at parsed
                exact ⟨a, mem, parsed ▸ spelled⟩
              · exact fun lease lease_in => lease_known lease_in

-----------------------------------------------------------------------------------------
-- Looking and failing
-----------------------------------------------------------------------------------------

theorem takeFree_noFaults (p : PoolFile) (claimant : String) (mode : Mode) (free : UInt32)
    (ledger : Ledger)
    : (takeFree noFaults p p.name claimant mode free ledger).1 = .ok free := by
  have written : ∃ w, (if mode = .peek then pure ()
      else writeIn noFaults (withLease p claimant free) : Call Unit) ledger = (.ok (), w) := by
    split
    · exact ⟨ledger, rfl⟩
    · exact ⟨_, rfl⟩
  obtain ⟨w, written⟩ := written
  obtain ⟨w', given⟩ := giveBackElsewhere_noFaults p.name claimant mode w
  rw [withLease] at written
  rw [takeFree, Prog.bind_apply, written]
  dsimp only
  rw [Prog.bind_apply, given]
  rfl

theorem leaves_claimIn_holding {faults : FaultPlan String} {pool claimant : String} {mode : Mode}
    {ledger : Ledger} (holding : Holds claimant ledger)
    : Leaves (fun w => w = ledger) (claimIn faults pool claimant mode) (fun _ _ => True)
      (Holds claimant) := by
  have unchanged : ∀ w, w = ledger → Holds claimant w := fun w is => is ▸ holding
  rw [claimIn, claimInExcluding]
  refine leaves_look fun now is => ?_
  cases is
  cases known : ledger.read pool with
  | none => exact Leaves.refuse unchanged
  | some p =>
      obtain ⟨p_in, rfl⟩ := Keyed.read_eq_some.mp known
      dsimp only
      cases elsewhere : heldElsewhere ledger p.name claimant mode with
      | some other => exact Leaves.refuse unchanged
      | none =>
          dsimp only
          cases holds : held p claimant with
          | some a =>
              have leased : (p.leases.read claimant).isSome = true := by
                obtain ⟨lease, found, -⟩ := Option.bind_eq_some_iff.mp holds
                rw [found, Option.isSome_some]
              refine Leaves.bind (fun _ _ => True) ?_ fun _ => Leaves.pure fun _ _ => trivial
              exact leaves_giveBackElsewhere_own.weaken (fun w is => is ▸ p_in)
                (fun _ _ _ => trivial) fun w p_in => ⟨p, p_in, leased⟩
          | none =>
              dsimp only
              cases found : firstFree p [] with
              | error why => exact Leaves.refuse unchanged
              | ok free =>
                  dsimp only
                  have leased : ((withLease p claimant free).leases.read claimant).isSome
                      = true := by
                    rw [withLease, Keyed.read_save, if_pos rfl, Option.isSome_some]
                  by_cases looking : mode = .peek
                  · rw [takeFree, looking, if_pos rfl]
                    exact Leaves.pure fun _ _ => trivial
                  · rw [takeFree, if_neg looking]
                    refine Leaves.bind (fun _ w => withLease p claimant free ∈ w.all) ?_ fun _ => ?_
                    · refine leaves_writeIn (fun _ w _ => ?_) fun _ => unchanged
                      exact Keyed.mem_save.mpr (.inl rfl)
                    · refine Leaves.bind (fun _ _ => True) ?_ fun _ =>
                        Leaves.pure fun _ _ => trivial
                      exact (leaves_giveBackElsewhere_own (p := withLease p claimant free)).weaken
                        (fun _ there => there)
                        (fun _ _ _ => trivial) fun w there => ⟨_, there, leased⟩

theorem fairClaims (ledger : Ledger) : FairClaims ledger where
  told := by
    intro pool claimant
    simp only [claimIn, claimInExcluding, look, Prog.bind_apply]
    cases known : ledger.read pool with
    | none => rfl
    | some p =>
        obtain ⟨-, rfl⟩ := Keyed.read_eq_some.mp known
        have looks : heldElsewhere ledger p.name claimant .peek = none := rfl
        have moves : heldElsewhere ledger p.name claimant .move = none := rfl
        simp only [looks, moves]
        cases holds : held p claimant with
        | some a =>
            obtain ⟨w, looked⟩ := giveBackElsewhere_noFaults p.name claimant .peek ledger
            obtain ⟨w', moved⟩ := giveBackElsewhere_noFaults p.name claimant .move ledger
            simp only [Prog.bind_apply, looked, moved]
            rfl
        | none =>
            cases found : firstFree p [] with
            | error why => rfl
            | ok free => simp only [takeFree_noFaults]
  kept := by
    intro faults pool claimant mode stop failed holding
    have stopped : claimIn faults pool claimant mode ledger
        = (.error stop, (claimIn faults pool claimant mode ledger).2) := Prod.ext failed rfl
    exact (leaves_claimIn_holding holding).of_error rfl stopped

-----------------------------------------------------------------------------------------
-- Every run
-----------------------------------------------------------------------------------------

theorem Sound.of_leaves {α : Type} {call : Call α} {ledger : Ledger}
    (leaves : Leaves (fun w => w = ledger) call (fun _ w => Sound none w) (Sound none))
    : Sound none (call ledger).2 := by
  have made := leaves ledger rfl
  split at made <;> simp_all

theorem sound_perform {ledger : Ledger} {action : Action} (sound : Sound none ledger)
    (careful : Careful ledger action)
    : Sound none (perform ledger action) := by
  obtain ⟨op, faults⟩ := action
  cases op with
  | apply name spec => exact .of_leaves (sound.apply spec careful)
  | claim pool claimant mode => exact .of_leaves (sound.claim careful)
  | release start keep => exact .of_leaves (sound.release start keep)
  | stamp name stack fields => exact .of_leaves (sound.stamp name stack fields)
  | remove name => exact .of_leaves (sound.remove name)

/-- In every run of careful calls from no pools at all the ledger's law holds. -/
theorem ledger_oneHolder {history : List (Event Ledger Action)} {ledger : Ledger}
    (run : Run (StepOf perform) noPools history ledger) (careful : Meets Careful history)
    : OneHolder ledger ∧ FairClaims ledger := by
  have sound : Sound none ledger := by
    refine run.invariant (fun _ ledger => Sound none ledger) sound_noPools ?_ careful
    intro _ state action next sound taken careful
    rw [taken]
    exact sound_perform sound careful
  exact ⟨sound.oneHolder, fairClaims ledger⟩

def declare (name address : String) : Action :=
  { op := .apply name { addresses := [address], announce := none, interface := none }
    faults := noFaults }

def ask (pool claimant : String) (mode : Mode) : Action :=
  { op := .claim pool claimant mode, faults := noFaults }

/-- One route moves from one pool to the other. -/
def oneMove : List Action :=
  [declare "a" "192.168.1.10", declare "b" "192.168.1.11", ask "a" "route/web" .take,
    ask "b" "route/web" .move]

theorem oneMove_careful : Meets Careful (trace perform noPools [] oneMove) := by
  -- whatever is leased on the way is leased to the one route
  have mine : ∀ ledger : Ledger,
      (ledger.all.all fun q => q.leases.all.all fun lease => lease.1 = "route/web") = true
      → ∀ q ∈ ledger.all, ∀ lease ∈ q.leases.all, lease.1 = "route/web" := by
    intro ledger all
    simpa only [List.all_eq_true, decide_eq_true_eq] using all
  intro event member
  simp only [oneMove, trace, List.mem_cons, List.not_mem_nil, or_false] at member
  obtain rfl | rfl | rfl | rfl := member
  · exact fun p free _ _ _ _ _ _ =>
      ⟨fun q q_in lease lease_in _ => mine _ (by decide +kernel) q q_in lease lease_in,
        fun _ _ _ _ _ => rfl⟩
  · exact fun p free _ _ _ _ _ _ =>
      ⟨fun q q_in lease lease_in _ => mine _ (by decide +kernel) q q_in lease lease_in,
        fun _ _ _ _ _ => rfl⟩
  · show isListed "b" = true
    decide +kernel
  · show isListed "a" = true
    decide +kernel

theorem oneMove_oneHolder
    : OneHolder (oneMove.foldl perform noPools) ∧ FairClaims (oneMove.foldl perform noPools) :=
  ledger_oneHolder (Run.start.trace oneMove) oneMove_careful

/-- Two pools that were declared with the same address. -/
def sharedAddress : List Action :=
  [declare "a" "192.168.1.10", declare "b" "192.168.1.10", ask "a" "route/web" .take,
    ask "b" "route/api" .take]

/-- Each pool leases the address to the claimant that asked it. -/
theorem sharedAddress_two_holders : ¬ OneHolder (sharedAddress.foldl perform noPools) := by
  intro law
  have leased : ∀ pool claimant, (((sharedAddress.foldl perform noPools).read pool).bind
        fun p => p.leases.read claimant) = some (claimant, "192.168.1.10")
      → Leased (sharedAddress.foldl perform noPools) 3232235786 claimant := by
    intro pool claimant found
    obtain ⟨p, known, found⟩ := Option.bind_eq_some_iff.mp found
    have parsed : parseIpv4 "192.168.1.10".toList = some 3232235786 := by decide +kernel
    exact ⟨p, (Keyed.read_eq_some.mp known).1, _, (Keyed.read_eq_some.mp found).1, rfl, parsed⟩
  have same := law.exclusive 3232235786 "route/web" "route/api"
    (leased "a" "route/web" (by decide +kernel)) (leased "b" "route/api" (by decide +kernel))
  revert same
  decide

end Delonix.IpPool
