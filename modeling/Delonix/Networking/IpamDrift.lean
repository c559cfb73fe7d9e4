import Delonix.Library.FirstFound
import Delonix.Networking.Fingerprint

/-! What an IPAM provider holds against what a record declared: the reservations that are held, which
a converge asks for, and the drift, which a plan reports. One asks whether any entry is the
declared one, the other looks at the first entry of the address.
-/

namespace Delonix.Networking

open Delonix.Library.FirstFound
open Delonix.Library.Sorting

/-- An address reserved for one MAC inside a vnet. -/
structure IpamReservation where
  vnet : String
  ip : String
  mac : String
  deriving DecidableEq

/-- The other addresses the MAC holds in the vnet, besides the reserved one. -/
def otherAddressesOf (r : IpamReservation) (observed : IpamObserved) : List IpamEntry :=
  observed.entries.filter fun e => e.vnet = r.vnet && e.ip ≠ r.ip && e.mac = some r.mac

/-- The reservations the provider holds as declared. -/
def heldReservations (wanted : List IpamReservation) (observed : IpamObserved)
    : List IpamReservation :=
  wanted.filter fun w =>
    (observed.entries.any fun e => e.vnet = w.vnet && e.ip = w.ip && e.mac = some w.mac)
      && (otherAddressesOf w observed).isEmpty

def rangesText (ranges : List DhcpRange) : String :=
  ",".intercalate (sortByKey id (ranges.map rangeText))

/-- The differences of the gateway and of the DHCP ranges. -/
def subnetSettingsDrift (have_ want : IpamSubnet) : List String :=
  (if have_.gateway ≠ want.gateway then
      ["subnet " ++ want.cidr ++ " gateway is '" ++ have_.gateway.getD "" ++ "', declared '"
        ++ want.gateway.getD "" ++ "'"]
    else [])
    ++ if rangesText have_.dhcpRanges ≠ rangesText want.dhcpRanges then
        ["subnet " ++ want.cidr ++ " dhcp ranges are '" ++ rangesText have_.dhcpRanges
          ++ "', declared '" ++ rangesText want.dhcpRanges ++ "'"]
      else []

def sameSubnet (a b : IpamSubnet) : Bool := a.vnet = b.vnet && a.cidr = b.cidr

/-- How the zone's options and the set of subnets differ. -/
def ipamLayoutDrift (subnets : List IpamSubnet) (dhcp : Bool) (observed : IpamObserved)
    : List String :=
  sortByKey id
    ((if !subnets.isEmpty && !observed.zoneIpam then ["the zone allocates from no IPAM"] else [])
      ++ (if dhcp && !observed.zoneDhcp then ["the zone does not serve DHCP"] else [])
      ++ ((subnets.filter fun want => !observed.subnets.any fun s => sameSubnet s want).map
        fun want => "subnet " ++ want.cidr ++ " in vnet '" ++ want.vnet ++ "' is missing")
      ++ (observed.subnets.filter fun have_ => !subnets.any fun s => sameSubnet s have_).map
        fun have_ => "subnet " ++ have_.cidr ++ " in vnet '" ++ have_.vnet
          ++ "' is in this engine's vnet and is not declared")

/-- What is said of a declared subnet that is there. -/
def settingsLines (observed : IpamObserved) (want : IpamSubnet) : List String :=
  match observed.subnets.find? fun s => sameSubnet s want with
  | some have_ => subnetSettingsDrift have_ want
  | none => []

def reservationMissing (want : IpamReservation) : List String :=
  ["reservation " ++ want.ip ++ " in vnet '" ++ want.vnet ++ "' is missing"]

/-- What is said of the entry that holds a reserved address. -/
def holderLines (want : IpamReservation) (e : IpamEntry) : List String :=
  if e.mac ≠ some want.mac then
    ["address " ++ want.ip ++ " in vnet '" ++ want.vnet ++ "' is held by '"
      ++ e.mac.getD "no MAC" ++ "', declared '" ++ want.mac ++ "'"]
  else []

def IpamReservation.address (r : IpamReservation) : String × String := (r.vnet, r.ip)

def IpamEntry.address (e : IpamEntry) : String × String := (e.vnet, e.ip)

/-- What is said of a declared reservation. -/
def reservationLines (observed : IpamObserved) (want : IpamReservation) : List String :=
  report IpamReservation.address IpamEntry.address reservationMissing holderLines observed.entries want
    ++ (otherAddressesOf want observed).map fun e =>
      "MAC " ++ want.mac ++ " also holds " ++ e.ip ++ " in vnet '" ++ want.vnet
        ++ "', and the guest is served that one"

/-- How what a provider holds differs from what a record declared, one line for each difference,
sorted.
-/
def ipamDrift (subnets : List IpamSubnet) (reservations : List IpamReservation) (dhcp : Bool)
    (observed : IpamObserved) : List String :=
  sortByKey id
    (ipamLayoutDrift subnets dhcp observed ++ subnets.flatMap (settingsLines observed)
      ++ reservations.flatMap (reservationLines observed))

/-- The settings of a declared subnet and of an observed one. DHCP ranges have no order. -/
structure SettingsAgree (want have_ : IpamSubnet) : Prop where
  gateway : have_.gateway = want.gateway
  dhcpRanges : have_.dhcpRanges.Perm want.dhcpRanges

def SettingsAgreeAll (subnets : List IpamSubnet) (observed : IpamObserved) : Prop :=
  ∀ want ∈ subnets, ∀ have_ ∈ observed.subnets, sameSubnet have_ want → SettingsAgree want have_

/-- The address is held for the MAC in the vnet. -/
def HoldsAddress (observed : IpamObserved) (r : IpamReservation) : Prop :=
  ∃ e ∈ observed.entries, e.address = r.address ∧ e.mac = some r.mac

/-- The MAC holds no other address in the vnet. -/
def NoOtherAddress (observed : IpamObserved) (r : IpamReservation) : Prop :=
  ∀ e ∈ observed.entries, e.vnet = r.vnet → e.mac = some r.mac → e.ip = r.ip

/-- No entry of the address is of another MAC, or of none. -/
def OneHolder (observed : IpamObserved) (r : IpamReservation) : Prop :=
  ∀ e ∈ observed.entries, e.address = r.address → e.mac = some r.mac

theorem otherAddressesOf_eq_nil_iff {r : IpamReservation} {observed : IpamObserved}
    : otherAddressesOf r observed = [] ↔ NoOtherAddress observed r := by
  simp only [otherAddressesOf, List.filter_eq_nil_iff, NoOtherAddress, Bool.and_eq_true,
    decide_eq_true_eq, not_and, and_imp]
  refine forall₂_congr fun e member => ⟨fun all vnet mac => ?_, fun all vnet ip mac => ?_⟩
  · by_contra ip
    exact all vnet ip mac
  · exact ip (all vnet mac)

theorem mem_heldReservations {wanted : List IpamReservation} {observed : IpamObserved}
    {w : IpamReservation}
    : w ∈ heldReservations wanted observed
      ↔ w ∈ wanted ∧ HoldsAddress observed w ∧ NoOtherAddress observed w := by
  simp [heldReservations, otherAddressesOf_eq_nil_iff, HoldsAddress, and_assoc,
    IpamEntry.address, IpamReservation.address]

theorem holderLines_eq_nil_iff {want : IpamReservation} {e : IpamEntry}
    : holderLines want e = [] ↔ e.mac = some want.mac := by
  simp [holderLines]

variable {observed : IpamObserved}

/-- The provider's observation with its entries listed as given. -/
def IpamObserved.withEntries (observed : IpamObserved) (entries : List IpamEntry) : IpamObserved :=
  { observed with entries := entries }

theorem holdsAddress_perm {entries : List IpamEntry} (perm : observed.entries.Perm entries)
    {r : IpamReservation}
    : HoldsAddress (observed.withEntries entries) r ↔ HoldsAddress observed r := by
  simp only [HoldsAddress, IpamObserved.withEntries, perm.mem_iff]

theorem noOtherAddress_perm {entries : List IpamEntry} (perm : observed.entries.Perm entries)
    {r : IpamReservation}
    : NoOtherAddress (observed.withEntries entries) r ↔ NoOtherAddress observed r := by
  simp only [NoOtherAddress, IpamObserved.withEntries, perm.mem_iff]

theorem oneHolder_perm {entries : List IpamEntry} (perm : observed.entries.Perm entries)
    {r : IpamReservation}
    : OneHolder (observed.withEntries entries) r ↔ OneHolder observed r := by
  simp only [OneHolder, IpamObserved.withEntries, perm.mem_iff]

/-- A reservation nothing is said of is held. -/
theorem held_of_quiet {w : IpamReservation} (quiet : reservationLines observed w = [])
    : HoldsAddress observed w ∧ NoOtherAddress observed w := by
  rw [reservationLines, List.append_eq_nil_iff, List.map_eq_nil_iff,
    otherAddressesOf_eq_nil_iff] at quiet
  refine ⟨?_, quiet.2⟩
  rcases report_cases IpamReservation.address IpamEntry.address reservationMissing holderLines
    observed.entries w with ⟨-, is⟩ | ⟨e, member, own, is⟩
  · simp [is, reservationMissing] at quiet
  · exact ⟨e, member, own, holderLines_eq_nil_iff.mp (is ▸ quiet.1)⟩

/-- Nothing is said of a reservation that is held, when its address has one holder. -/
theorem quiet_of_held {w : IpamReservation} (holds : HoldsAddress observed w)
    (noOther : NoOtherAddress observed w) (one : OneHolder observed w)
    : reservationLines observed w = [] := by
  rw [reservationLines, otherAddressesOf_eq_nil_iff.mpr noOther, List.map_nil, List.append_nil]
  rcases report_cases IpamReservation.address IpamEntry.address reservationMissing holderLines
    observed.entries w with ⟨none, -⟩ | ⟨e, member, own, is⟩
  · obtain ⟨e, member, own, -⟩ := holds
    exact absurd own (none e member)
  · rw [is]
    exact holderLines_eq_nil_iff.mpr (one e member own)

/-- In every order of the entries nothing is said of a held reservation, only if its address has
one holder: any entry of the address can be the first.
-/
theorem oneHolder_of_quiet {w : IpamReservation}
    (quiet : ∀ entries, observed.entries.Perm entries →
      reservationLines (observed.withEntries entries) w = [])
    : OneHolder observed w := by
  intro e member own
  obtain ⟨front, back, split⟩ := List.append_of_mem member
  have first := quiet (e :: (front ++ back)) (by rw [split]; exact List.perm_middle)
  rw [reservationLines, List.append_eq_nil_iff] at first
  have lines := first.1
  rw [IpamObserved.withEntries, report_cons own] at lines
  exact holderLines_eq_nil_iff.mp lines

/-- Reading back and drift agree on the reservations, in every order of the entries. -/
theorem readBack_agrees_iff {reservations : List IpamReservation}
    : (∀ entries, observed.entries.Perm entries → ∀ w ∈ reservations,
        (w ∈ heldReservations reservations (observed.withEntries entries)
          ↔ reservationLines (observed.withEntries entries) w = []))
      ↔ ∀ w ∈ reservations, HoldsAddress observed w → NoOtherAddress observed w →
        OneHolder observed w := by
  constructor
  · intro agrees w member holds noOther
    refine oneHolder_of_quiet fun entries perm => (agrees entries perm w member).mp ?_
    exact mem_heldReservations.mpr ⟨member, (holdsAddress_perm perm).mpr holds,
      (noOtherAddress_perm perm).mpr noOther⟩
  · intro one entries perm w member
    constructor
    · intro held
      obtain ⟨-, holds, noOther⟩ := mem_heldReservations.mp held
      refine quiet_of_held holds noOther ((oneHolder_perm perm).mpr ?_)
      exact one w member ((holdsAddress_perm perm).mp holds) ((noOtherAddress_perm perm).mp noOther)
    · intro quiet
      exact mem_heldReservations.mpr ⟨member, held_of_quiet quiet⟩

/-- The zone's options and the set of subnets are as declared. -/
structure LayoutAgrees (subnets : List IpamSubnet) (dhcp : Bool) (observed : IpamObserved) : Prop
    where
  allocates : subnets ≠ [] → observed.zoneIpam
  serves : dhcp → observed.zoneDhcp
  present : ∀ want ∈ subnets, ∃ have_ ∈ observed.subnets, sameSubnet have_ want
  declared : ∀ have_ ∈ observed.subnets, ∃ want ∈ subnets, sameSubnet want have_

/-- The first observed subnet of each declared one is as declared, with the ranges as a text. -/
def FirstSettingsAgree (subnets : List IpamSubnet) (observed : IpamObserved) : Prop :=
  ∀ want ∈ subnets, ∀ have_, (observed.subnets.find? fun s => sameSubnet s want) = some have_ →
    have_.gateway = want.gateway ∧ rangesText have_.dhcpRanges = rangesText want.dhcpRanges

theorem sorted_eq_nil_iff {lines : List String} : sortByKey id lines = [] ↔ lines = [] := by
  rw [← List.length_eq_zero_iff, (perm_sortByKey lines).length_eq, List.length_eq_zero_iff]

theorem ipamLayoutDrift_eq_nil_iff {subnets : List IpamSubnet} {dhcp : Bool}
    : ipamLayoutDrift subnets dhcp observed = [] ↔ LayoutAgrees subnets dhcp observed := by
  simp only [ipamLayoutDrift, sorted_eq_nil_iff, List.append_eq_nil_iff, List.map_eq_nil_iff,
    List.filter_eq_nil_iff, Bool.not_eq_true', Bool.not_eq_false, List.any_eq_true]
  constructor
  · rintro ⟨⟨⟨allocates, serves⟩, present⟩, declared⟩
    exact ⟨by simpa using allocates, by simpa using serves, by simpa using present,
      by simpa using declared⟩
  · rintro ⟨allocates, serves, present, declared⟩
    exact ⟨⟨⟨by simpa using allocates, by simpa using serves⟩, by simpa using present⟩,
      by simpa using declared⟩

theorem settingsLines_eq_nil_iff {subnets : List IpamSubnet}
    : subnets.flatMap (settingsLines observed) = [] ↔ FirstSettingsAgree subnets observed := by
  rw [List.flatMap_eq_nil_iff]
  refine forall₂_congr fun want member => ?_
  rw [settingsLines]
  cases observed.subnets.find? fun s => sameSubnet s want with
  | none => simp
  | some have_ => simp [subnetSettingsDrift]

theorem rangesText_perm {ranges ranges' : List DhcpRange} (perm : ranges.Perm ranges')
    : rangesText ranges = rangesText ranges' := by
  rw [rangesText, rangesText, sortByKey_id_eq_iff.mpr (perm.map rangeText)]

theorem firstSettingsAgree_of_all {subnets : List IpamSubnet}
    (all : SettingsAgreeAll subnets observed)
    : FirstSettingsAgree subnets observed := by
  intro want member have_ found
  have agree := all want member have_ (List.mem_of_find?_eq_some found) (by
    simpa using List.find?_some found)
  exact ⟨agree.gateway, rangesText_perm agree.dhcpRanges⟩

theorem ipamDrift_eq_nil_iff {subnets : List IpamSubnet} {reservations : List IpamReservation}
    {dhcp : Bool}
    : ipamDrift subnets reservations dhcp observed = []
      ↔ ipamLayoutDrift subnets dhcp observed = [] ∧ FirstSettingsAgree subnets observed
        ∧ ∀ w ∈ reservations, reservationLines observed w = [] := by
  rw [ipamDrift, sorted_eq_nil_iff, List.append_eq_nil_iff, List.append_eq_nil_iff,
    settingsLines_eq_nil_iff, List.flatMap_eq_nil_iff, and_assoc]

/-- Reading back and drift agree, whatever the order of the entries, exactly when an address held
for the MAC it is reserved for, which holds no other, has no entry of another MAC, and where all
the rest is as declared not only the first observed subnet of a declared one is.
-/
theorem ipamDrift_agrees_iff {subnets : List IpamSubnet} {reservations : List IpamReservation}
    {dhcp : Bool}
    : (∀ entries, observed.entries.Perm entries →
        (∀ w ∈ reservations, (w ∈ heldReservations reservations (observed.withEntries entries)
          ↔ reservationLines (observed.withEntries entries) w = []))
        ∧ (ipamDrift subnets reservations dhcp (observed.withEntries entries) = []
          ↔ ipamLayoutDrift subnets dhcp (observed.withEntries entries) = []
            ∧ SettingsAgreeAll subnets (observed.withEntries entries)
            ∧ ∀ w ∈ reservations,
              w ∈ heldReservations reservations (observed.withEntries entries)))
      ↔ (∀ w ∈ reservations, HoldsAddress observed w → NoOtherAddress observed w →
          OneHolder observed w)
        ∧ (LayoutAgrees subnets dhcp observed →
          (∀ w ∈ reservations, HoldsAddress observed w ∧ NoOtherAddress observed w) →
          FirstSettingsAgree subnets observed → SettingsAgreeAll subnets observed) := by
  constructor
  · intro agrees
    have one := readBack_agrees_iff.mp fun entries perm => (agrees entries perm).1
    refine ⟨one, fun layout held first => ?_⟩
    refine ((agrees observed.entries (.refl _)).2.mp (ipamDrift_eq_nil_iff.mpr ?_)).2.1
    refine ⟨ipamLayoutDrift_eq_nil_iff.mpr layout, first, fun w member => ?_⟩
    obtain ⟨holds, noOther⟩ := held w member
    exact quiet_of_held holds noOther (one w member holds noOther)
  · rintro ⟨one, rest⟩ entries perm
    have readBack := readBack_agrees_iff.mpr one entries perm
    refine ⟨readBack, ?_⟩
    rw [ipamDrift_eq_nil_iff]
    constructor
    · rintro ⟨layout, first, quiet⟩
      refine ⟨layout, ?_, fun w member => (readBack w member).mpr (quiet w member)⟩
      refine rest (ipamLayoutDrift_eq_nil_iff.mp layout) (fun w member => ?_) first
      obtain ⟨holds, noOther⟩ := held_of_quiet (quiet w member)
      exact ⟨(holdsAddress_perm perm).mp holds, (noOtherAddress_perm perm).mp noOther⟩
    · rintro ⟨layout, settings, held⟩
      exact ⟨layout, firstSettingsAgree_of_all settings,
        fun w member => (readBack w member).mp (held w member)⟩

/-- An address with two entries, the second one for the MAC it is reserved for. -/
def twiceHeld : IpamObserved :=
  { subnets := [],
    entries := [⟨"net", "10.0.0.5", some "AA:AA:AA:AA:AA:AA", none⟩,
      ⟨"net", "10.0.0.5", some "BB:BB:BB:BB:BB:BB", none⟩],
    gatewayEntries := [], zoneIpam := true, zoneDhcp := true, controller := none }

/-- A reservation is read back as held while the drift says who else holds its address. -/
theorem held_reservation_reported
    : ¬ ∀ (subnets : List IpamSubnet) (reservations : List IpamReservation) (dhcp : Bool)
      (observed : IpamObserved), ∀ entries, observed.entries.Perm entries →
      (∀ w ∈ reservations, (w ∈ heldReservations reservations (observed.withEntries entries)
        ↔ reservationLines (observed.withEntries entries) w = []))
      ∧ (ipamDrift subnets reservations dhcp (observed.withEntries entries) = []
        ↔ ipamLayoutDrift subnets dhcp (observed.withEntries entries) = []
          ∧ SettingsAgreeAll subnets (observed.withEntries entries)
          ∧ ∀ w ∈ reservations,
            w ∈ heldReservations reservations (observed.withEntries entries)) := by
  intro all
  have agrees := (all [] [⟨"net", "10.0.0.5", "BB:BB:BB:BB:BB:BB"⟩] true twiceHeld _ (.refl _)).1
    _ (List.mem_singleton_self _)
  have quiet := agrees.mp (by decide)
  exact absurd quiet (by decide)

end Delonix.Networking
