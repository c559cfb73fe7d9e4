import Delonix.Library.Checks
import Delonix.Vip.Lease

/-! What a refused request for a virtual address leaves behind. Every refusal leaves the registry as it
was, but for that of a move, which comes after the old lease was released.
-/

namespace Delonix.Vip

open Delonix.Ipam (Registry leaseOf registryKey IsKey)
open Delonix.IpPool (parseIpv4)
open Delonix.Library.Checks
open Delonix.Net

variable {unprintable : Char → Bool} {registry : Registry} {pools : List Cidr} {id : String}

theorem wellFormed_of_validatePool {s : List Char} {c : Cidr}
    (valid : validatePool unprintable s = .ok c)
    : c.WellFormed := by
  simp only [validatePool] at valid
  split at valid
  · cases valid
  split at valid
  · cases valid
  split at valid
  · cases valid
  split at valid
  · cases valid
  case h_2 cidr parsed =>
    split at valid
    · cases valid
    split at valid
    · cases valid
    split at valid
    · cases valid
    · cases valid
      exact Cidr.parse_wellFormed parsed

theorem wellFormed_of_foldlM {items : List (List Char)} {out : List Cidr}
    (before : ∀ p ∈ out, p.WellFormed)
    (accepted : items.foldlM (addPool unprintable) out = .ok pools)
    : ∀ p ∈ pools, p.WellFormed := by
  induction items generalizing out with
  | nil =>
    cases accepted
    exact before
  | cons item rest ih =>
    rw [List.foldlM_cons] at accepted
    obtain ⟨more, added, accepted⟩ := bind_eq_ok.mp accepted
    refine ih ?_ accepted
    obtain ⟨c, valid, added⟩ := bind_eq_ok.mp added
    split at added
    · cases added
    · cases added
      intro p member
      obtain member | member := List.mem_append.mp member
      · exact before p member
      · rw [List.mem_singleton.mp member]
        exact wellFormed_of_validatePool valid

theorem wellFormed_of_parsePoolList {s : List Char}
    (accepted : parsePoolList unprintable s = .ok pools)
    : ∀ p ∈ pools, p.WellFormed :=
  wellFormed_of_foldlM (List.forall_mem_nil _) accepted

/-- A refused lease leaves the registry as it is. -/
theorem registry_of_reserve_error (keyed : registry.Keyed) {network ip : String} {e : Ipam.Error}
    (refused : (Ipam.reserve registry network id ip).2 = .error e)
    : (Ipam.reserve registry network id ip).1 = registry := by
  simp only [Ipam.reserve, Ipam.reserveIn, keyed.migrateStrayFiles] at refused ⊢
  split at refused
  case isTrue inside => rw [if_pos inside]
  case isFalse outside =>
    rw [if_neg outside]
    split at refused
    case isTrue invalid => rw [if_pos invalid]
    case isFalse valid =>
      rw [if_neg valid]
      split at refused
      case isTrue => cases refused
      case isFalse moves =>
        rw [if_neg moves]
        split at refused
        case h_1 => rfl
        case h_2 => cases refused

theorem registry_of_allocate_error (keyed : registry.Keyed) {network : String} {e : Ipam.Error}
    (refused : (Ipam.allocate registry network id).2 = .error e)
    : (Ipam.allocate registry network id).1 = registry := by
  simp only [Ipam.allocate, keyed.migrateStrayFiles] at refused ⊢
  split at refused
  case h_1 => cases refused
  case h_2 =>
    split at refused
    case h_1 => rfl
    case h_2 => cases refused

/-- The address is the DHCP server's to give, or somebody else has it. -/
def Taken (registry : Registry) (network id ip : String) : Prop :=
  inVmDhcpPool network ip = true
    ∨ leaseOf registry (registryKey network) id ≠ some ip
      ∧ ∃ other, other ≠ id ∧ leaseOf registry (registryKey network) other = some ip

theorem find?_holder (map : Ipam.Leases) (id ip : String)
    : (map.toList.find? fun (other, v) => v == ip && other != id) = none
      ↔ ¬ ∃ other : String, other ≠ id ∧ map[other]? = some ip := by
  rw [List.find?_eq_none]
  constructor
  · rintro none ⟨other, different, held⟩
    have mem : (other, ip) ∈ map.toList := Std.ExtTreeMap.mem_toList_iff_getElem?_eq_some.mpr held
    simpa [different] using none _ mem
  · rintro free ⟨other, v⟩ mem
    have held : map[other]? = some v := Std.ExtTreeMap.mem_toList_iff_getElem?_eq_some.mp mem
    simp only [Bool.and_eq_true, beq_iff_eq, bne_iff_ne, ne_eq]
    rintro ⟨rfl, different⟩
    exact free ⟨other, different, held⟩

/-- A usable address is refused exactly where it is taken. -/
theorem reserve_error_iff (keyed : registry.Keyed) {network ip : String} {net : Cidr}
    (parsed : Cidr.parse network = some net) (valid : validIpInSubnet network ip = true)
    : (∃ e, (Ipam.reserve registry network id ip).2 = .error e) ↔ Taken registry network id ip := by
  have same := (Ipam.parse_registryKey parsed).trans parsed.symm
  rw [← validIpInSubnet_congr same] at valid
  rw [Taken, ← inVmDhcpPool_of_parse same]
  simp only [Ipam.leaseOf_eq_getD, Ipam.reserve, Ipam.reserveIn, keyed.migrateStrayFiles]
  by_cases inside : inVmDhcpPool (registryKey network) ip = true
  · rw [if_pos inside]
    exact ⟨fun _ => .inl inside, fun _ => ⟨_, rfl⟩⟩
  · rw [if_neg inside, if_neg (by simpa using valid), or_iff_right inside]
    by_cases own : ((Ipam.load registry (registryKey network)).getD ∅)[id]? = some ip
    · rw [if_pos own]
      constructor
      · rintro ⟨_, refused⟩
        cases refused
      · rintro ⟨other, -⟩
        exact absurd own other
    rw [if_neg own, and_iff_right own]
    cases holder : ((Ipam.load registry (registryKey network)).getD ∅).toList.find?
        fun (other, v) => v == ip && other != id with
    | none =>
      constructor
      · rintro ⟨_, refused⟩
        cases refused
      · intro held
        exact absurd held ((find?_holder _ id ip).mp holder)
    | some found =>
      refine ⟨fun _ => ?_, fun _ => ⟨_, rfl⟩⟩
      by_contra free
      rw [(find?_holder _ id ip).mpr free] at holder
      cases holder

theorem parse_pool {p : Cidr} (wellFormed : p.WellFormed) : Cidr.parse p.toStringCidr = some p :=
  Cidr.parse_toStringCidr wellFormed

/-- With every file under its canonical key, no other file of a pool is there to be read. -/
theorem lookup_eq (keyed : registry.Keyed) (p : Cidr)
    : lookup registry p.toStringCidr id = leaseOf registry (registryKey p.toStringCidr) id := by
  simp only [lookup]
  cases found : leaseOf registry (registryKey p.toStringCidr) id with
  | some ip => rfl
  | none =>
    by_cases other : Ipam.sanitizeKey p.toStringCidr
        = Ipam.sanitizeKey (registryKey p.toStringCidr)
    · simp only [other, ne_eq, not_true_eq_false, if_false]
    · simp only [ne_eq, other, not_false_eq_true, if_true]
      have absent : registry.files[Ipam.sanitizeKey p.toStringCidr]? = .none := by
        by_contra present
        have member : Ipam.sanitizeKey p.toStringCidr ∈ registry.files :=
          Std.ExtTreeMap.mem_iff_isSome_getElem?.mpr (Option.isSome_iff_ne_none.mpr present)
        obtain ⟨key, isKey, stem⟩ := keyed _ member
        have restored := Ipam.keyOfStem_sanitizeKey isKey
        rw [stem, Ipam.keyOfStem_of_chars fun c member => Ipam.isCidrChar_of_toStringCidr member]
          at restored
        rw [restored] at other
        exact other stem.symm
      rw [absent]
      rfl

theorem registry_of_allocateFirst_error (keyed : registry.Keyed) {last : Option Ipam.Error}
    {e : Error} (refused : (allocateFirst id registry last pools).2 = .error e)
    : (allocateFirst id registry last pools).1 = registry := by
  induction pools generalizing last with
  | nil =>
    cases last <;> rfl
  | cons p rest ih =>
    rw [allocateFirst] at refused ⊢
    cases result : Ipam.allocate registry p.toStringCidr id with
    | mk after answer =>
      rw [result] at refused
      cases answer with
      | ok ip => cases refused
      | error e =>
        have same : after = registry := by
          have kept := registry_of_allocate_error keyed (by rw [result])
          rwa [result] at kept
        subst same
        exact ih refused

/-- The Service moves from the address it holds to one of a pool that is taken. -/
def MovesToTaken (registry : Registry) (id : String) (requested : Option String)
    (pools : List Cidr) : Prop :=
  ∃ want addr pool p ip, requested = some want ∧ parseIpv4 want.toList = some addr
    ∧ (pools.find? fun p => p.contains addr) = some pool
    ∧ validIpInSubnet pool.toStringCidr (Cidr.fmtU32 addr) = true
    ∧ currentLease registry id pools = some (p, ip) ∧ ip ≠ Cidr.fmtU32 addr
    ∧ Taken registry pool.toStringCidr id (Cidr.fmtU32 addr)

theorem currentLease_eq_some (keyed : registry.Keyed) {p : Cidr} {ip : String}
    (current : currentLease registry id pools = some (p, ip))
    : p ∈ pools ∧ leaseOf registry (registryKey p.toStringCidr) id = some ip := by
  obtain ⟨q, member, held⟩ := List.exists_of_findSome?_eq_some current
  rw [lookup_eq keyed, Option.map_eq_some_iff] at held
  obtain ⟨ip', held, same⟩ := held
  cases same
  exact ⟨member, held⟩

/-- Releasing another lease of its own does not make an address free. -/
theorem taken_release_iff (keyed : registry.Keyed) {p pool : Cidr} {ip want : String}
    (first : p.WellFormed) (second : pool.WellFormed)
    (held : leaseOf registry (registryKey p.toStringCidr) id = some ip) (other : ip ≠ want)
    : Taken (Ipam.release registry p.toStringCidr id) pool.toStringCidr id want
      ↔ Taken registry pool.toStringCidr id want := by
  have released (holder : String)
      : leaseOf (Ipam.release registry p.toStringCidr id) (registryKey pool.toStringCidr) holder
        = if registryKey p.toStringCidr = registryKey pool.toStringCidr ∧ id = holder then none
          else leaseOf registry (registryKey pool.toStringCidr) holder := by
    rw [Ipam.release, keyed.migrateStrayFiles, Ipam.leaseOf_releaseKey]
    simp only [Ipam.sanitizeKey_inj (Ipam.isKey_registryKey (parse_pool first))
      (Ipam.isKey_registryKey (parse_pool second))]
  have own : leaseOf (Ipam.release registry p.toStringCidr id) (registryKey pool.toStringCidr) id
        ≠ some want
      ↔ leaseOf registry (registryKey pool.toStringCidr) id ≠ some want := by
    rw [released]
    by_cases same : registryKey p.toStringCidr = registryKey pool.toStringCidr
    · rw [if_pos ⟨same, rfl⟩, ← same, held]
      exact ⟨fun _ given => other (Option.some.inj given),
        fun _ given => (Option.some_ne_none _ given.symm).elim⟩
    · rw [if_neg fun both => same both.1]
  have others : (∃ holder, holder ≠ id ∧ leaseOf (Ipam.release registry p.toStringCidr id)
        (registryKey pool.toStringCidr) holder = some want)
      ↔ ∃ holder, holder ≠ id
        ∧ leaseOf registry (registryKey pool.toStringCidr) holder = some want := by
    refine exists_congr fun holder => and_congr_right fun different => ?_
    rw [released, if_neg fun both => different both.2.symm]
  rw [Taken, Taken, own, others]

theorem registry_of_reserveVip (registry : Registry) (id : String) (pool : Cidr) (want : String)
    : (reserveVip registry id pool want).1
      = (Ipam.reserve registry pool.toStringCidr id want).1 := by
  unfold reserveVip
  generalize Ipam.reserve registry pool.toStringCidr id want = result
  obtain ⟨after, _ | _⟩ := result <;> rfl

theorem reserveVip_error_iff {pool : Cidr} {want : String}
    : (∃ e, (reserveVip registry id pool want).2 = .error e)
      ↔ ∃ e, (Ipam.reserve registry pool.toStringCidr id want).2 = .error e := by
  unfold reserveVip
  generalize Ipam.reserve registry pool.toStringCidr id want = result
  obtain ⟨after, e | _⟩ := result
  · exact ⟨fun _ => ⟨e, rfl⟩, fun _ => ⟨_, rfl⟩⟩
  · constructor
    · rintro ⟨_, refused⟩
      cases refused
    · rintro ⟨_, refused⟩
      cases refused

/-- A refused lease leaves the registry as it is. -/
theorem registry_of_reserveVip_error (keyed : registry.Keyed) {pool : Cidr} {want : String}
    (refused : ∃ e, (reserveVip registry id pool want).2 = .error e)
    : (reserveVip registry id pool want).1 = registry := by
  obtain ⟨_, refused⟩ := reserveVip_error_iff.mp refused
  rw [registry_of_reserveVip]
  exact registry_of_reserve_error keyed refused

theorem keyed_release (keyed : registry.Keyed) (network id : String)
    : (Ipam.release registry network id).Keyed := by
  rw [Ipam.release, keyed.migrateStrayFiles]
  exact keyed.releaseKey _ id

/-- A refused move has released the lease that the Service held. -/
theorem release_ne (keyed : registry.Keyed) {p : Cidr} {ip : String}
    (held : leaseOf registry (registryKey p.toStringCidr) id = some ip)
    : Ipam.release registry p.toStringCidr id ≠ registry := by
  intro same
  have gone := Ipam.leaseOf_releaseKey registry (registryKey p.toStringCidr)
    (registryKey p.toStringCidr) id id
  rw [if_pos ⟨rfl, rfl⟩] at gone
  rw [← same, Ipam.release, keyed.migrateStrayFiles, gone] at held
  cases held

/-- A move is refused exactly where the address is taken. -/
theorem move_error_iff (keyed : registry.Keyed) {p pool : Cidr} {ip want : String}
    (first : p.WellFormed) (second : pool.WellFormed)
    (held : leaseOf registry (registryKey p.toStringCidr) id = some ip) (other : ip ≠ want)
    (valid : validIpInSubnet pool.toStringCidr want = true)
    : (∃ e, (reserveVip (Ipam.release registry p.toStringCidr id) id pool want).2 = .error e)
      ↔ Taken registry pool.toStringCidr id want := by
  rw [reserveVip_error_iff, reserve_error_iff (keyed_release keyed _ _) (parse_pool second) valid,
    taken_release_iff keyed first second held other]

/-- What the move depends on: the lease held, and whether the address is taken. -/
theorem moveTo_kept_iff (keyed : registry.Keyed) (wellFormed : ∀ p ∈ pools, p.WellFormed)
    {pool : Cidr} {want : String} (member : pool ∈ pools)
    (valid : validIpInSubnet pool.toStringCidr want = true)
    : ((∃ e, (moveTo registry id (currentLease registry id pools) pool want).2 = .error e) →
        (moveTo registry id (currentLease registry id pools) pool want).1 = registry)
      ↔ ¬ ∃ p ip, currentLease registry id pools = some (p, ip) ∧ ip ≠ want
          ∧ Taken registry pool.toStringCidr id want := by
  cases current : currentLease registry id pools with
  | none =>
    simp only [moveTo]
    refine iff_of_true (registry_of_reserveVip_error keyed) ?_
    rintro ⟨_, _, held, -⟩
    cases held
  | some lease =>
    obtain ⟨p, ip⟩ := lease
    obtain ⟨member', held⟩ := currentLease_eq_some keyed current
    simp only [moveTo]
    by_cases other : ip = want
    · rw [if_pos other]
      refine iff_of_true (fun _ => rfl) ?_
      rintro ⟨_, _, held, different, -⟩
      cases held
      exact different other
    · rw [if_neg other]
      have refused_iff :=
        move_error_iff keyed (wellFormed p member') (wellFormed pool member) held other valid
      constructor
      · rintro kept ⟨_, _, _, _, taken⟩
        have refused := refused_iff.mpr taken
        have released := registry_of_reserveVip_error (keyed_release keyed _ _) refused
        exact release_ne keyed held (released.symm.trans (kept refused))
      · intro still refused
        exact absurd ⟨p, ip, rfl, other, refused_iff.mp refused⟩ still

/-- A refused request leaves the registry as it was, exactly where it is no move to an address that
is taken.
-/
theorem allocateVip_atomic {text : List Char} (accepted : parsePoolList unprintable text = .ok pools)
    (keyed : registry.Keyed) (namespace_ name : String) (requested : Option String)
    : ((∃ e, (allocateVip unprintable registry namespace_ name requested pools).2 = .error e) →
        (allocateVip unprintable registry namespace_ name requested pools).1 = registry)
      ↔ ¬ MovesToTaken registry (leaseId namespace_ name) requested pools := by
  have wellFormed := wellFormed_of_parsePoolList accepted
  cases requested with
  | none =>
    refine iff_of_true ?_ fun ⟨_, _, _, _, _, requested, _⟩ => nomatch requested
    simp only [allocateVip]
    cases currentLease registry (leaseId namespace_ name) pools with
    | some lease => exact fun _ => rfl
    | none =>
      rintro ⟨e, refused⟩
      exact registry_of_allocateFirst_error keyed refused
  | some want =>
    simp only [allocateVip]
    cases parsed : parseIpv4 want.toList with
    | none =>
      refine iff_of_true (fun _ => rfl) ?_
      rintro ⟨_, _, _, _, _, asked, read, -⟩
      cases asked
      cases parsed.symm.trans read
    | some addr =>
      dsimp only
      cases found : pools.find? fun p => p.contains addr with
      | none =>
        refine iff_of_true (fun _ => rfl) ?_
        rintro ⟨_, _, _, _, _, asked, read, inside, -⟩
        cases asked
        cases parsed.symm.trans read
        cases found.symm.trans inside
      | some pool =>
        dsimp only
        by_cases valid : validIpInSubnet pool.toStringCidr (Cidr.fmtU32 addr) = true
        · rw [if_neg (by simpa using valid),
            moveTo_kept_iff keyed wellFormed (List.mem_of_find?_eq_some found) valid]
          refine not_congr ⟨?_, ?_⟩
          · rintro ⟨p, ip, held, other, taken⟩
            exact ⟨want, addr, pool, p, ip, rfl, parsed, found, valid, held, other, taken⟩
          · rintro ⟨_, _, _, p, ip, asked, read, inside, _, held, other, taken⟩
            cases asked
            cases parsed.symm.trans read
            cases found.symm.trans inside
            exact ⟨p, ip, held, other, taken⟩
        · rw [if_pos (by simpa using valid)]
          refine iff_of_true (fun _ => rfl) ?_
          rintro ⟨_, _, _, _, _, asked, read, inside, usable, -⟩
          cases asked
          cases parsed.symm.trans read
          cases found.symm.trans inside
          exact valid usable

/-- One Service with the first address of a small pool. -/
def oneService : Registry :=
  (Ipam.reserve Registry.empty "192.168.1.0/28" "svc:default/a" "192.168.1.2").1

theorem allocateVip_atomic_outside
    : (allocateVip (fun _ => false) oneService "default" "a" (some "10.0.0.7")
        [⟨0xC0A80100, 28⟩]).2
        = .error (.vipOutsidePool "spec.vip 10.0.0.7 is outside the VIP pool (192.168.1.0/28)")
      ∧ (allocateVip (fun _ => false) oneService "default" "a" (some "10.0.0.7")
        [⟨0xC0A80100, 28⟩]).1 = oneService := by
  have accepted : parsePoolList (fun _ => false) "192.168.1.0/28".toList
      = .ok [⟨0xC0A80100, 28⟩] := by
    decide +kernel
  have refused : (allocateVip (fun _ => false) oneService "default" "a" (some "10.0.0.7")
      [⟨0xC0A80100, 28⟩]).2
      = .error (.vipOutsidePool "spec.vip 10.0.0.7 is outside the VIP pool (192.168.1.0/28)") := by
    decide +kernel
  have outside : parseIpv4 "10.0.0.7".toList = some 0x0A000007
      ∧ ([⟨0xC0A80100, 28⟩] : List Cidr).find? (fun p => p.contains 0x0A000007) = none := by
    decide +kernel
  have keyed : oneService.Keyed := Ipam.Registry.keyed_empty.perform
    (.reserve "192.168.1.0/28" "svc:default/a" "192.168.1.2")
  refine ⟨refused,
    (allocateVip_atomic accepted keyed "default" "a" (some "10.0.0.7")).mpr ?_ ⟨_, refused⟩⟩
  rintro ⟨_, _, _, _, _, asked, read, inside, -⟩
  cases asked
  cases outside.1.symm.trans read
  cases outside.2.symm.trans inside

/-- Asking for an address of the DHCP server, the Service loses the one it holds. -/
theorem move_to_dhcp_address_loses_lease
    : leaseOf oneService "192.168.1.0/28" "svc:default/a" = some "192.168.1.2"
      ∧ (allocateVip (fun _ => false) oneService "default" "a" (some "192.168.1.13")
        [⟨0xC0A80100, 28⟩]).2.toOption = none
      ∧ leaseOf (allocateVip (fun _ => false) oneService "default" "a" (some "192.168.1.13")
        [⟨0xC0A80100, 28⟩]).1 "192.168.1.0/28" "svc:default/a" = none := by
  decide +kernel

end Delonix.Vip
