import Delonix.Library.Collections
import Delonix.Library.Greedy
import Delonix.Library.Sorting
import Delonix.Net.Cidr
import Mathlib.Data.List.Pairwise
import Mathlib.Data.String.Basic

/-! The routes that a workload with several networks needs: the other end of every pair that touches
the network of one of its interfaces, through the gateway of that network.
-/

namespace Delonix.RoutePlan

open Delonix.Library.Collections
open Delonix.Library.Greedy
open Delonix.Library.Sorting
open Delonix.Net (Cidr)

/-- An interface of a workload, with the subnet it is directly connected to. -/
structure Iface where
  name : String
  subnet : Cidr

/-- A network: its bridge, its prefix, and the gateway of every workload attached to it. -/
structure Net where
  bridge : String
  cidr : Cidr
  gateway : String

structure WorkloadRoute where
  dest : Cidr
  via : String
  dev : String
  deriving DecidableEq

def netOf (nets : List Net) (subnet : Cidr) : Option Net := nets.find? fun n => n.cidr = subnet

/-- The bridge at the other end of a pair. -/
def otherEnd (here : Net) (pair : String × String) : Option String :=
  if pair.1 = here.bridge then some pair.2
  else if pair.2 = here.bridge then some pair.1
  else none

/-- The interfaces other than the default one, by name. -/
def order (ifaces : List Iface) (defaultDev : Option String) : List Iface :=
  sortByKey Iface.name (ifaces.filter fun i => some i.name ≠ defaultDev)

/-- One pair read at one interface. -/
def planPair (ifaces : List Iface) (nets : List Net) (iface : Iface) (here : Net)
    (out : List WorkloadRoute) (pair : String × String) : List WorkloadRoute :=
  match otherEnd here pair with
  | none => out
  | some other =>
    match nets.find? fun n => n.bridge = other with
    | none => out
    | some there =>
      let connected := ifaces.any fun i => i.subnet.overlaps there.cidr
      let routed := out.any fun r => r.dest.overlaps there.cidr
      if connected || routed then out
      else out ++ [{ dest := there.cidr, via := here.gateway, dev := iface.name }]

def planIface (ifaces : List Iface) (pairs : List (String × String)) (nets : List Net)
    (out : List WorkloadRoute) (iface : Iface) : List WorkloadRoute :=
  match netOf nets iface.subnet with
  | none => out
  | some here => pairs.foldl (planPair ifaces nets iface here) out

def plan (ifaces : List Iface) (defaultDev : Option String) (pairs : List (String × String))
    (nets : List Net) : List WorkloadRoute :=
  (order ifaces defaultDev).foldl (planIface ifaces pairs nets) []

/-- The network at the other end of a pair, unless the workload is connected to it. -/
def farEnd (ifaces : List Iface) (nets : List Net) (here : Net) (pair : String × String)
    : Option Net :=
  ((otherEnd here pair).bind fun other => nets.find? fun n => n.bridge = other).filter
    fun there => !ifaces.any fun i => i.subnet.overlaps there.cidr

/-- The routes that an interface could carry. -/
def candidatesAt (ifaces : List Iface) (pairs : List (String × String)) (nets : List Net)
    (iface : Iface) : List WorkloadRoute :=
  match netOf nets iface.subnet with
  | none => []
  | some here => (pairs.filterMap (farEnd ifaces nets here)).map fun there =>
      { dest := there.cidr, via := here.gateway, dev := iface.name }

def candidates (ifaces : List Iface) (defaultDev : Option String) (pairs : List (String × String))
    (nets : List Net) : List WorkloadRoute :=
  (order ifaces defaultDev).flatMap (candidatesAt ifaces pairs nets)

def clash (r s : WorkloadRoute) : Bool := r.dest.overlaps s.dest

theorem planPair_eq (ifaces : List Iface) (nets : List Net) (iface : Iface) (here : Net)
    (out : List WorkloadRoute) (pair : String × String)
    : planPair ifaces nets iface here out pair
      = ((farEnd ifaces nets here pair).map fun there =>
          take clash out { dest := there.cidr, via := here.gateway, dev := iface.name }).getD out := by
  unfold planPair farEnd
  cases otherEnd here pair with
  | none => rfl
  | some other =>
    dsimp only [Option.bind_some]
    cases nets.find? fun n => n.bridge = other with
    | none => rfl
    | some there =>
      cases connected : ifaces.any fun i => i.subnet.overlaps there.cidr with
      | true => simp [Option.filter, connected]
      | false => simp [Option.filter, connected, take, clash]

/-- Planning selects from the candidates. -/
theorem plan_eq_select (ifaces : List Iface) (defaultDev : Option String)
    (pairs : List (String × String)) (nets : List Net)
    : plan ifaces defaultDev pairs nets
      = select clash (candidates ifaces defaultDev pairs nets) := by
  rw [plan, select, candidates, List.foldl_flatMap]
  congr 1
  funext out iface
  rw [planIface, candidatesAt]
  cases netOf nets iface.subnet with
  | none => rfl
  | some here =>
    dsimp only
    rw [List.foldl_map, List.foldl_filterMap]
    congr 1
    funext out pair
    rw [planPair_eq]
    cases farEnd ifaces nets here pair <;> rfl

theorem mask_and_mask (len len' : Nat)
    : Cidr.mask len &&& Cidr.mask len' = Cidr.mask (min len len') := by
  have few : ∀ len ≤ 32, ∀ len' ≤ 32,
      Cidr.mask len &&& Cidr.mask len' = Cidr.mask (min len len') := by
    decide +kernel
  have long (len : Nat) : Cidr.mask len = Cidr.mask (min len 32) := by
    rcases Nat.le_total len 32 with short | long
    · rw [Nat.min_eq_left short]
    · rw [Nat.min_eq_right long, Cidr.mask, Cidr.mask, if_neg (by omega), if_neg (by decide),
        Nat.sub_eq_zero_of_le long]
  rw [long len, long len', few _ (Nat.min_le_right _ _) _ (Nat.min_le_right _ _),
    long (min len len')]
  congr 1
  omega

variable {a b : Cidr}

/-- Prefixes that do not overlap share no address. -/
theorem not_both_of_apart (apart : a.overlaps b = false) (ip : UInt32)
    : ¬ (a.contains ip = true ∧ b.contains ip = true) := by
  rintro ⟨first, second⟩
  rw [Cidr.contains, beq_iff_eq] at first second
  rw [Cidr.overlaps, beq_eq_false_iff_ne] at apart
  refine apart ?_
  rw [← first, ← second, UInt32.and_assoc, UInt32.and_assoc, mask_and_mask, mask_and_mask]
  congr 2
  omega

theorem overlaps_self (a : Cidr) : a.overlaps a = true := by simp [Cidr.overlaps]

theorem overlaps_comm (a b : Cidr) : a.overlaps b = b.overlaps a := by
  rw [Cidr.overlaps, Cidr.overlaps, Nat.min_comm]
  exact Bool.beq_comm

/-- No bridge and no address belongs to two networks. -/
structure Distinct (nets : List Net) : Prop where
  bridges : (nets.map Net.bridge).Nodup
  apart : nets.Pairwise fun n m => n.cidr.overlaps m.cidr = false

variable {nets : List Net} {ifaces : List Iface} {pairs : List (String × String)}
  {defaultDev : Option String}

/-- Networks that overlap are one. -/
theorem Distinct.eq_of_overlaps (distinct : Distinct nets) {n m : Net} (first : n ∈ nets)
    (second : m ∈ nets) (overlaps : n.cidr.overlaps m.cidr = true)
    : n = m := by
  by_contra other
  have symm : Std.Symm fun n m : Net => n.cidr.overlaps m.cidr = false :=
    ⟨fun n m apart => (overlaps_comm _ _).trans apart⟩
  rw [distinct.apart.forall first second other] at overlaps
  exact Bool.false_ne_true overlaps

theorem Distinct.cidrs (distinct : Distinct nets) : (nets.map Net.cidr).Nodup := by
  rw [List.Nodup, List.pairwise_map]
  refine distinct.apart.imp fun apart same => ?_
  rw [same, overlaps_self] at apart
  contradiction

theorem otherEnd_eq_some_iff {here : Net} {pair : String × String} {bridge : String}
    : otherEnd here pair = some bridge
      ↔ pair = (here.bridge, bridge) ∨ (pair.1 ≠ here.bridge ∧ pair = (bridge, here.bridge)) := by
  obtain ⟨left, right⟩ := pair
  unfold otherEnd
  by_cases first : left = here.bridge
  · simp [first]
  · by_cases second : right = here.bridge
    · simp [first, second]
    · simp [first, second]

/-- What an interface could carry: the other end of each pair that touches its network. -/
structure Carries (ifaces : List Iface) (pairs : List (String × String)) (nets : List Net)
    (iface : Iface) (here there : Net) : Prop where
  here_mem : here ∈ nets
  on : here.cidr = iface.subnet
  there_mem : there ∈ nets
  touches : ∃ pair ∈ pairs, otherEnd here pair = some there.bridge
  unconnected : ∀ i ∈ ifaces, i.subnet.overlaps there.cidr = false

def routeOf (iface : Iface) (here there : Net) : WorkloadRoute :=
  { dest := there.cidr, via := here.gateway, dev := iface.name }

theorem Distinct.farEnd_eq_some (distinct : Distinct nets) {here there : Net}
    {pair : String × String}
    : farEnd ifaces nets here pair = some there
      ↔ there ∈ nets ∧ otherEnd here pair = some there.bridge
        ∧ ∀ i ∈ ifaces, i.subnet.overlaps there.cidr = false := by
  rw [farEnd, Option.filter_eq_some_iff, Option.bind_eq_some_iff, Bool.not_eq_true',
    List.any_eq_false]
  simp only [Bool.not_eq_true]
  constructor
  · rintro ⟨⟨other, far, found⟩, apart⟩
    obtain ⟨member, rfl⟩ := (find?_key_eq_some distinct.bridges).mp found
    exact ⟨member, far, apart⟩
  · rintro ⟨member, far, apart⟩
    exact ⟨⟨_, far, (find?_key_eq_some distinct.bridges).mpr ⟨member, rfl⟩⟩, apart⟩

theorem Distinct.mem_candidatesAt (distinct : Distinct nets) {iface : Iface} {r : WorkloadRoute}
    : r ∈ candidatesAt ifaces pairs nets iface
      ↔ ∃ here there, Carries ifaces pairs nets iface here there ∧ r = routeOf iface here there := by
  unfold candidatesAt
  cases found : netOf nets iface.subnet with
  | none =>
    constructor
    · intro member
      cases member
    · rintro ⟨here, there, carries, -⟩
      have some_ : netOf nets iface.subnet = some here :=
        (find?_key_eq_some distinct.cidrs).mpr ⟨carries.here_mem, carries.on⟩
      cases found.symm.trans some_
  | some here =>
    obtain ⟨here_mem, on⟩ := (find?_key_eq_some distinct.cidrs).mp found
    simp only [List.mem_map, List.mem_filterMap, distinct.farEnd_eq_some]
    constructor
    · rintro ⟨there, ⟨pair, member, there_mem, far, apart⟩, rfl⟩
      exact ⟨here, there, ⟨here_mem, on, there_mem, ⟨pair, member, far⟩, apart⟩, rfl⟩
    · rintro ⟨here', there, ⟨here_mem', on', there_mem, ⟨pair, member, far⟩, apart⟩, rfl⟩
      obtain rfl : here' = here :=
        List.inj_on_of_nodup_map distinct.cidrs here_mem' here_mem (on'.trans on.symm)
      exact ⟨there, ⟨pair, member, there_mem, far, apart⟩, rfl⟩

theorem mem_order {iface : Iface}
    : iface ∈ order ifaces defaultDev ↔ iface ∈ ifaces ∧ some iface.name ≠ defaultDev := by
  rw [order, (perm_sortByKey _).mem_iff, List.mem_filter, decide_eq_true_eq]

theorem Distinct.mem_candidates (distinct : Distinct nets) {r : WorkloadRoute}
    : r ∈ candidates ifaces defaultDev pairs nets
      ↔ ∃ iface ∈ ifaces, some iface.name ≠ defaultDev
        ∧ ∃ here there, Carries ifaces pairs nets iface here there
          ∧ r = routeOf iface here there := by
  simp only [candidates, List.mem_flatMap, mem_order, distinct.mem_candidatesAt, and_assoc]

theorem ordered_candidates (distinct : Distinct nets)
    : (candidates ifaces defaultDev pairs nets).Pairwise fun r s => r.dev ≤ s.dev := by
  rw [candidates, List.pairwise_flatMap]
  constructor
  · intro iface _
    refine List.pairwise_of_forall_mem_list fun r mem s mem' => ?_
    obtain ⟨_, _, -, rfl⟩ := distinct.mem_candidatesAt.mp mem
    obtain ⟨_, _, -, rfl⟩ := distinct.mem_candidatesAt.mp mem'
    exact le_refl _
  · refine (pairwise_sortByKey _).imp fun below r mem s mem' => ?_
    obtain ⟨_, _, -, rfl⟩ := distinct.mem_candidatesAt.mp mem
    obtain ⟨_, _, -, rfl⟩ := distinct.mem_candidatesAt.mp mem'
    exact below

/-- Candidates clash where they lead to one network, and an interface has one route to it. -/
theorem classes_candidates (distinct : Distinct nets) (names : (ifaces.map Iface.name).Nodup)
    : Classes clash WorkloadRoute.dev (candidates ifaces defaultDev pairs nets) where
  refl r _ := overlaps_self r.dest
  trans r mem s mem' t mem'' first second := by
    obtain ⟨_, _, _, _, _, carries, rfl⟩ := distinct.mem_candidates.mp mem
    obtain ⟨_, _, _, _, _, carries', rfl⟩ := distinct.mem_candidates.mp mem'
    rwa [clash, routeOf, distinct.eq_of_overlaps carries.there_mem carries'.there_mem first]
  unique r mem s mem' clashes devs := by
    obtain ⟨iface, inside, _, here, _, carries, rfl⟩ := distinct.mem_candidates.mp mem
    obtain ⟨iface', inside', _, here', _, carries', rfl⟩ := distinct.mem_candidates.mp mem'
    obtain rfl := distinct.eq_of_overlaps carries.there_mem carries'.there_mem clashes
    obtain rfl : iface = iface' := List.inj_on_of_nodup_map names inside inside' devs
    obtain rfl : here = here' := List.inj_on_of_nodup_map distinct.cidrs carries.here_mem
      carries'.here_mem (carries.on.trans carries'.on.symm)
    rfl

/-- A route is held where no interface before its own could carry it. -/
theorem mem_plan_iff (distinct : Distinct nets) (names : (ifaces.map Iface.name).Nodup)
    {r : WorkloadRoute}
    : r ∈ plan ifaces defaultDev pairs nets
      ↔ r ∈ candidates ifaces defaultDev pairs nets
        ∧ ∀ s ∈ candidates ifaces defaultDev pairs nets, clash s r = true → r.dev ≤ s.dev := by
  rw [plan_eq_select]
  exact mem_select_iff (classes_candidates distinct names) (ordered_candidates distinct)

theorem nodup_plan : (plan ifaces defaultDev pairs nets).Nodup := by
  rw [plan_eq_select]
  refine pairwise_select.imp fun apart same => ?_
  rw [same, clash, overlaps_self] at apart
  contradiction

/-- Only the sets of the interfaces and of the pairs decide the routes. -/
theorem plan_perm (distinct : Distinct nets) (names : (ifaces.map Iface.name).Nodup)
    {ifaces' : List Iface} {pairs' : List (String × String)} (perm : ifaces'.Perm ifaces)
    (perm' : pairs'.Perm pairs)
    : (plan ifaces' defaultDev pairs' nets).Perm (plan ifaces defaultDev pairs nets) := by
  have carries_iff (iface : Iface) (here there : Net)
      : Carries ifaces' pairs' nets iface here there ↔ Carries ifaces pairs nets iface here there := by
    constructor
    · rintro ⟨here_mem, on, there_mem, ⟨pair, mem, far⟩, apart⟩
      exact ⟨here_mem, on, there_mem, ⟨pair, perm'.mem_iff.mp mem, far⟩,
        fun i inside => apart i (perm.mem_iff.mpr inside)⟩
    · rintro ⟨here_mem, on, there_mem, ⟨pair, mem, far⟩, apart⟩
      exact ⟨here_mem, on, there_mem, ⟨pair, perm'.mem_iff.mpr mem, far⟩,
        fun i inside => apart i (perm.mem_iff.mp inside)⟩
  have same (r : WorkloadRoute)
      : r ∈ candidates ifaces' defaultDev pairs' nets ↔ r ∈ candidates ifaces defaultDev pairs nets := by
    rw [distinct.mem_candidates, distinct.mem_candidates]
    simp only [perm.mem_iff, carries_iff]
  rw [List.perm_ext_iff_of_nodup nodup_plan nodup_plan]
  intro r
  rw [mem_plan_iff distinct names, mem_plan_iff distinct ((perm.map _).nodup_iff.mpr names)]
  simp only [same]

/-- A route leaves by a non-default interface, through the gateway of its network, to the other end
of a pair that touches it.
-/
def Leaves (ifaces : List Iface) (defaultDev : Option String) (pairs : List (String × String))
    (nets : List Net) (r : WorkloadRoute) : Prop :=
  ∃ iface ∈ ifaces, some iface.name ≠ defaultDev ∧ r.dev = iface.name
    ∧ ∃ here ∈ nets, here.cidr = iface.subnet ∧ r.via = here.gateway
      ∧ ∃ there ∈ nets, r.dest = there.cidr
        ∧ ((here.bridge, there.bridge) ∈ pairs ∨ (there.bridge, here.bridge) ∈ pairs)

/-- The plan is sound and complete, and the order of the interfaces and pairs is not in it. -/
theorem plan_correct (names : (ifaces.map Iface.name).Nodup) (distinct : Distinct nets)
    : ((plan ifaces defaultDev pairs nets).Pairwise fun r s =>
          r.dest.overlaps s.dest = false ∧ ∀ ip, ¬ (r.dest.contains ip ∧ s.dest.contains ip))
      ∧ (∀ r ∈ plan ifaces defaultDev pairs nets, ∀ iface ∈ ifaces,
          iface.subnet.overlaps r.dest = false
          ∧ ∀ ip, ¬ (iface.subnet.contains ip ∧ r.dest.contains ip))
      ∧ (∀ r ∈ plan ifaces defaultDev pairs nets, Leaves ifaces defaultDev pairs nets r)
      ∧ (∀ iface ∈ ifaces, some iface.name ≠ defaultDev →
          ∀ here ∈ nets, here.cidr = iface.subnet → ∀ there ∈ nets,
          (here.bridge, there.bridge) ∈ pairs ∨ (there.bridge, here.bridge) ∈ pairs →
          (∃ r ∈ plan ifaces defaultDev pairs nets, r.dest = there.cidr)
          ∨ ∃ i ∈ ifaces, i.subnet.overlaps there.cidr = true)
      ∧ ∀ ifaces' pairs', List.Perm ifaces' ifaces → List.Perm pairs' pairs →
          (plan ifaces' defaultDev pairs' nets).Perm (plan ifaces defaultDev pairs nets) := by
  have carried (r : WorkloadRoute) (mem : r ∈ plan ifaces defaultDev pairs nets) :=
    distinct.mem_candidates.mp ((mem_plan_iff distinct names).mp mem).1
  refine ⟨?_, ?_, ?_, ?_, fun _ _ perm perm' => plan_perm distinct names perm perm'⟩
  · rw [plan_eq_select]
    exact pairwise_select.imp fun apart => ⟨apart, not_both_of_apart apart⟩
  · intro r mem i inside
    obtain ⟨_, _, _, _, _, carries, rfl⟩ := carried r mem
    have apart := carries.unconnected i inside
    exact ⟨apart, not_both_of_apart apart⟩
  · intro r mem
    obtain ⟨iface, inside, other, here, there, carries, rfl⟩ := carried r mem
    obtain ⟨pair, member, far⟩ := carries.touches
    refine ⟨iface, inside, other, rfl, here, carries.here_mem, carries.on, rfl, there,
      carries.there_mem, rfl, ?_⟩
    obtain rfl | ⟨-, rfl⟩ := otherEnd_eq_some_iff.mp far
    · exact .inl member
    · exact .inr member
  · intro iface inside other here here_mem on there there_mem touches
    by_cases connected : ∃ i ∈ ifaces, i.subnet.overlaps there.cidr = true
    · exact .inr connected
    · left
      push Not at connected
      have unconnected (i : Iface) (inside : i ∈ ifaces) : i.subnet.overlaps there.cidr = false :=
        Bool.eq_false_iff.mpr (connected i inside)
      have apart : there.bridge ≠ here.bridge := by
        intro same
        obtain rfl := List.inj_on_of_nodup_map distinct.bridges there_mem here_mem same
        have itself := unconnected iface inside
        rw [← on, overlaps_self] at itself
        contradiction
      have carries : Carries ifaces pairs nets iface here there := by
        refine ⟨here_mem, on, there_mem, ?_, unconnected⟩
        obtain member | member := touches
        · exact ⟨_, member, otherEnd_eq_some_iff.mpr (.inl rfl)⟩
        · exact ⟨_, member, otherEnd_eq_some_iff.mpr (.inr ⟨apart, rfl⟩)⟩
      have candidate : routeOf iface here there ∈ candidates ifaces defaultDev pairs nets :=
        distinct.mem_candidates.mpr ⟨iface, inside, other, here, there, carries, rfl⟩
      obtain ⟨r, taken, clashes⟩ := exists_clash (classes_candidates distinct names).refl candidate
      rw [← plan_eq_select] at taken
      obtain ⟨_, _, _, _, there', carries', rfl⟩ := carried r taken
      refine ⟨_, taken, ?_⟩
      exact congrArg Net.cidr (distinct.eq_of_overlaps carries'.there_mem there_mem clashes)

/-- A workload with a base network and one more, which a pair leads on from. -/
theorem plan_correct_two_networks
    : plan [⟨"eth1", ⟨0x0A510000, 16⟩⟩, ⟨"eth0", ⟨0x0AC90000, 16⟩⟩] (some "eth0")
        [("dlxna", "dlxnb")]
        [⟨"dlxna", ⟨0x0A510000, 16⟩, "10.81.0.1"⟩, ⟨"dlxnb", ⟨0x0A520000, 16⟩, "10.82.0.1"⟩]
      = [⟨⟨0x0A520000, 16⟩, "10.81.0.1", "eth1"⟩]
      ∧ (plan [⟨"eth0", ⟨0x0AC90000, 16⟩⟩, ⟨"eth1", ⟨0x0A510000, 16⟩⟩] (some "eth0")
        [("dlxna", "dlxnb")]
        [⟨"dlxna", ⟨0x0A510000, 16⟩, "10.81.0.1"⟩, ⟨"dlxnb", ⟨0x0A520000, 16⟩, "10.82.0.1"⟩]).Perm
        [⟨⟨0x0A520000, 16⟩, "10.81.0.1", "eth1"⟩] := by
  have planned : plan [⟨"eth1", ⟨0x0A510000, 16⟩⟩, ⟨"eth0", ⟨0x0AC90000, 16⟩⟩] (some "eth0")
        [("dlxna", "dlxnb")]
        [⟨"dlxna", ⟨0x0A510000, 16⟩, "10.81.0.1"⟩, ⟨"dlxnb", ⟨0x0A520000, 16⟩, "10.82.0.1"⟩]
      = [⟨⟨0x0A520000, 16⟩, "10.81.0.1", "eth1"⟩] := by
    decide +kernel
  refine ⟨planned, planned ▸ (plan_correct ?_ ⟨?_, ?_⟩).2.2.2.2 _ _ (.swap _ _ []) (.refl _)⟩
  · decide
  · decide
  · decide

end Delonix.RoutePlan
