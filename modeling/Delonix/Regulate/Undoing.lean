import Delonix.Library.Runs
import Delonix.Regulate.Planner

/-! The regulator undoes what it did, in every run in which nobody turns a knob that it has a
claim on. An observer's ledger keeps apart who turned a knob last.
-/

namespace Delonix.Regulate

open Delonix.Library.Runs

-----------------------------------------------------------------------------------------
-- Runs
-----------------------------------------------------------------------------------------

inductive Step where
  | start (id : Id) (cgroup : Cgroup)
  | exit (id : Id)
  | set (id : Id) (knob : Knob) (value : Value)
  | forgetGone (live : List Id)
  | tick (reading : Reading)
  | apply

variable (shares : Shares)

/-- One process regulates: it sweeps and reads again when its actions are applied. The stored
workloads have distinct ids.
-/
def Machine.next (m : Machine) : Step → Machine
  | .start id cgroup => if m.cgroups id = none then m.withCgroup id (some cgroup) else m
  | .exit id => m.withCgroup id none
  | .set id knob value =>
      match m.written id knob value with
      | some c => m.withCgroup id (some c)
      | none => m
  | .forgetGone live =>
      if m.pending = [] then
        { m with memos := fun id knob => if id ∈ live then m.memos id knob else none }
      else m
  | .tick reading =>
      if m.pending = [] ∧ (reading.samples.map Sample.id).Nodup then
        { m with floor := reading.floor, pending := m.plan shares reading }
      else m
  | .apply =>
      match m.pending with
      | [] => m
      | action :: rest => { m.apply action with pending := rest }

inductive Setter where
  | regulator
  | person
  deriving DecidableEq

/-- Who turned a knob last, what the regulator wrote to it last, and what it was before the
first throttle of the claim.
-/
structure Entry where
  setter : Setter
  written : Option Value
  base : Option Value
  deriving DecidableEq

abbrev Ledger := Id → Knob → Entry

def Ledger.note (ledger : Ledger) (id : Id) (knob : Knob) (entry : Entry) : Ledger :=
  fun id' knob' => if id' = id ∧ knob' = knob then entry else ledger id' knob'

/-- What an observer notes of a step. -/
def Ledger.observe (ledger : Ledger) (m : Machine) : Step → Ledger
  | .start id _ =>
      if m.cgroups id = none then
        fun id' knob => if id' = id then { ledger id knob with setter := .person }
          else ledger id' knob
      else ledger
  | .set id knob value =>
      match m.written id knob value with
      | some _ => ledger.note id knob { ledger id knob with setter := .person }
      | none => ledger
  | .apply =>
      match m.pending with
      | .throttle id _ knob _ new :: _ =>
          match m.cgroups id, m.written id knob (some new) with
          | some c, some _ =>
              ledger.note id knob {
                setter := .regulator
                written := some (some new)
                base := if m.memos id knob = none then some (c.get knob)
                  else (ledger id knob).base }
          | _, _ => ledger
      | .restore id _ knob new :: _ =>
          match m.written id knob (restored new) with
          | some _ =>
              ledger.note id knob
                { ledger id knob with setter := .regulator, written := some (restored new) }
          | none => ledger
      | [] => ledger
  | _ => ledger

/-- The machine and the observer's ledger. -/
structure Watched where
  machine : Machine
  ledger : Ledger

def Watched.next (w : Watched) (step : Step) : Watched :=
  ⟨w.machine.next shares step, w.ledger.observe w.machine step⟩

/-- Workloads that only people have set, and a regulator that has not begun. -/
def untouched (cgroups : Id → Option Cgroup) : Watched where
  machine := ⟨cgroups, fun _ _ => none, 1, []⟩
  ledger := fun _ _ => ⟨.person, none, none⟩

/-- A restore that is written finds the regulator's own last value, and puts back what the knob
was before the claim; a weight is not lowered below the floor.
-/
structure Undoes (event : Event Watched Step) : Prop where
  restores : ∀ id name knob new rest c c', event.action = .apply →
    event.before.machine.pending = .restore id name knob new :: rest →
    event.before.machine.cgroups id = some c → c.put knob (restored new) = some c' →
    (event.before.ledger id knob).setter = .regulator
      ∧ (event.before.ledger id knob).written = some (c.get knob)
      ∧ (event.before.ledger id knob).base = some (restored new)
  floor : ∀ id c c', event.action = .apply → event.before.machine.cgroups id = some c →
    event.after.machine.cgroups id = some c' → c'.cpuWeight < c.cpuWeight →
    max event.before.machine.floor 1 ≤ c'.cpuWeight

/-- The regulator remembers the knob or is about to turn it. -/
def Machine.Claims (m : Machine) (id : Id) (knob : Knob) : Prop :=
  m.memos id knob ≠ none ∨ ∃ action ∈ m.pending, action.id = id ∧ action.knob = knob

/-- Nobody turns a knob that the regulator has a claim on, and no workload starts with one. -/
def Undisturbed (w : Watched) : Step → Prop
  | .start id _ => ∀ knob, ¬ w.machine.Claims id knob
  | .set id knob _ => ¬ w.machine.Claims id knob
  | _ => True

-----------------------------------------------------------------------------------------
-- The invariant
-----------------------------------------------------------------------------------------

/-- What is owed on a claim. -/
def owed : Knob → Nat → Value
  | .cpuWeight, memo => some memo
  | .memoryHigh, _ => none

/-- A knob that the regulator turned is turned down. -/
def TurnedDown : Knob → Value → Nat → Prop
  | .cpuWeight, value, memo => ∀ weight, value = some weight → weight < memo
  | .memoryHigh, value, _ => value ≠ none

/-- An action that is still as it was planned. -/
def StillPlanned (m : Machine) : Action → Prop
  | .throttle id _ .cpuWeight old new =>
      ∀ c, m.cgroups id = some c → c.cpuWeight = old ∧ new < old ∧ max m.floor 1 ≤ new
  | .throttle id _ .memoryHigh _ _ =>
      ∀ c, m.cgroups id = some c → c.memoryHigh = none ∧ m.memos id .memoryHigh = none
  | .restore id _ .cpuWeight new =>
      ∀ c, m.cgroups id = some c → m.memos id .cpuWeight = some new
  | .restore id _ .memoryHigh new =>
      new = memoryNoLimit ∧ ∀ c, m.cgroups id = some c → m.memos id .memoryHigh ≠ none

/-- What the ledger holds of a knob with a memo. -/
def ClaimSound (w : Watched) (id : Id) (knob : Knob) : Prop :=
  ∀ c memo, w.machine.cgroups id = some c → w.machine.memos id knob = some memo →
    w.ledger id knob = ⟨.regulator, some (c.get knob), some (owed knob memo)⟩
      ∧ TurnedDown knob (c.get knob) memo

structure Sound (w : Watched) : Prop where
  claims : ∀ id knob, ClaimSound w id knob
  planned : ∀ action ∈ w.machine.pending, StillPlanned w.machine action
  apart : w.machine.pending.Pairwise fun a b => (a.id, a.knob) ≠ (b.id, b.knob)

/-- The workloads of a machine that are still there, with a knob as it was. -/
def Kept (m m' : Machine) (id : Id) (knob : Knob) : Prop :=
  ∀ c', m'.cgroups id = some c' → ∃ c, m.cgroups id = some c ∧ c.get knob = c'.get knob

theorem StillPlanned.frame {m m' : Machine} {action : Action} (planned : StillPlanned m action)
    (floor : m'.floor = m.floor) (memos : m'.memos action.id action.knob
      = m.memos action.id action.knob)
    (kept : Kept m m' action.id action.knob)
    : StillPlanned m' action := by
  cases action with
  | throttle id name knob old new =>
      cases knob with
      | cpuWeight =>
          intro c' live
          obtain ⟨c, before, same⟩ := kept c' live
          obtain ⟨weight, rest⟩ := planned c before
          rw [floor]
          exact ⟨(Option.some.inj same) ▸ weight, rest⟩
      | memoryHigh =>
          intro c' live
          obtain ⟨c, before, same⟩ := kept c' live
          obtain ⟨high, memo⟩ := planned c before
          exact ⟨Eq.trans same.symm high, memos.trans memo⟩
  | restore id name knob new =>
      cases knob with
      | cpuWeight =>
          intro c' live
          obtain ⟨c, before, -⟩ := kept c' live
          exact memos.trans (planned c before)
      | memoryHigh =>
          refine ⟨planned.1, fun c' live => ?_⟩
          obtain ⟨c, before, -⟩ := kept c' live
          intro gone
          exact planned.2 c before (memos.symm.trans gone)

theorem ClaimSound.frame {w w' : Watched} {id : Id} {knob : Knob} (sound : ClaimSound w id knob)
    (memos : ∀ memo, w'.machine.memos id knob = some memo → w.machine.memos id knob = some memo)
    (ledger : w'.ledger id knob = w.ledger id knob) (kept : Kept w.machine w'.machine id knob)
    : ClaimSound w' id knob := by
  intro c' memo live has
  obtain ⟨c, before, same⟩ := kept c' live
  rw [ledger, ← same]
  exact sound c memo before (memos memo has)

theorem kept_refl (m : Machine) (id : Id) (knob : Knob) : Kept m m id knob :=
  fun c live => ⟨c, live, rfl⟩

/-- A knob without a claim has nothing to be sound. -/
theorem claimSound_of_none {w : Watched} {id : Id} {knob : Knob}
    (none : w.machine.memos id knob = none)
    : ClaimSound w id knob := by
  intro c memo _ has
  rw [none] at has
  cases has

theorem kept_withCgroup_of_ne (m : Machine) {id other : Id} (cgroup : Option Cgroup)
    (knob : Knob) (ne : other ≠ id)
    : Kept m (m.withCgroup id cgroup) other knob := by
  intro c' live
  rw [Machine.withCgroup] at live
  exact ⟨c', by simpa [ne] using live, rfl⟩

theorem get_put {c c' : Cgroup} {knob : Knob} {value : Value} (put : c.put knob value = some c')
    : c'.get knob = value ∧ ∀ other, other ≠ knob → c'.get other = c.get other := by
  cases knob with
  | cpuWeight =>
      cases value with
      | none => cases put
      | some weight =>
          cases put
          refine ⟨rfl, fun other ne => ?_⟩
          cases other with
          | cpuWeight => exact absurd rfl ne
          | memoryHigh => rfl
  | memoryHigh =>
      cases put
      refine ⟨rfl, fun other ne => ?_⟩
      cases other with
      | cpuWeight => rfl
      | memoryHigh => exact absurd rfl ne

/-- A write to one knob keeps all the others. -/
theorem kept_written {m : Machine} {id other : Id} {knob knob' : Knob} {value : Value}
    {c : Cgroup} (written : m.written id knob value = some c) (ne : (other, knob') ≠ (id, knob))
    : Kept m (m.withCgroup id (some c)) other knob' := by
  by_cases same : other = id
  · subst same
    obtain ⟨before, live, put⟩ := Option.bind_eq_some_iff.mp written
    have unturned : knob' ≠ knob := fun is => ne (by rw [is])
    intro c' after
    have is : c = c' := by simpa [Machine.withCgroup] using after
    subst is
    exact ⟨before, live, ((get_put put).2 knob' unturned).symm⟩
  · exact kept_withCgroup_of_ne m (some c) knob' same

theorem Ledger.note_self (ledger : Ledger) (id : Id) (knob : Knob) (entry : Entry)
    : ledger.note id knob entry id knob = entry := by
  simp [Ledger.note]

theorem Ledger.note_of_ne {ledger : Ledger} {id other : Id} {knob knob' : Knob} {entry : Entry}
    (ne : (other, knob') ≠ (id, knob))
    : ledger.note id knob entry other knob' = ledger other knob' := by
  rw [Ledger.note, if_neg]
  rintro ⟨rfl, rfl⟩
  exact ne rfl

-----------------------------------------------------------------------------------------
-- Plans
-----------------------------------------------------------------------------------------

theorem mem_of_maxBy {α κ : Type} [LinearOrder κ] {key : α → κ} {items : List α} {largest : α}
    (is : maxBy key items = some largest)
    : largest ∈ items := by
  cases items with
  | nil => cases is
  | cons first rest =>
      cases is
      have all (best : α) (items : List α)
          : items.foldl (fun best x => if key best ≤ key x then x else best) best = best
            ∨ items.foldl (fun best x => if key best ≤ key x then x else best) best ∈ items := by
        induction items generalizing best with
        | nil => exact .inl rfl
        | cons x items ih =>
            rw [List.foldl_cons]
            split
            · rcases ih x with is | member
              · exact .inr (by rw [is]; exact List.mem_cons_self)
              · exact .inr (List.mem_cons_of_mem _ member)
            · rcases ih best with is | member
              · exact .inl is
              · exact .inr (List.mem_cons_of_mem _ member)
      rcases all first rest with is | member
      · rw [is]
        exact List.mem_cons_self
      · exact List.mem_cons_of_mem _ member

/-- What can be planned about the CPU: the memo of a workload that differs from it is put back,
or a weight above the floor is lowered to no less than the floor.
-/
theorem mem_planCpu {avg10 avg60 : ℚ} {workloads : List Workload} {floor : Nat} {action : Action}
    (member : action ∈ planCpu avg10 avg60 workloads floor)
    : ∃ w ∈ workloads,
        (∃ original, w.originalWeight = some original
          ∧ action = .restore w.id w.name .cpuWeight original)
        ∨ ∃ new, new < w.cpuWeight ∧ max floor 1 ≤ new
          ∧ action = .throttle w.id w.name .cpuWeight w.cpuWeight new := by
  rw [planCpu] at member
  split at member
  · obtain ⟨w, inside, planned⟩ := List.mem_filterMap.mp member
    obtain ⟨original, has, chosen⟩ := Option.bind_eq_some_iff.mp planned
    split at chosen
    · cases chosen
      exact ⟨w, inside, .inl ⟨original, has, rfl⟩⟩
    · cases chosen
  · split at member
    · cases member
    · split at member
      · cases member
      case h_2 culprit largest =>
        have inside := mem_of_maxBy largest
        rw [List.mem_filter] at inside
        simp only [Bool.and_eq_true, decide_eq_true_eq] at inside
        dsimp only at member
        split at member
        · cases member
        case isFalse different =>
          cases List.mem_singleton.mp member
          exact ⟨culprit, inside.1, .inr ⟨_, by omega, le_max_right _ _, rfl⟩⟩

theorem mem_planMemory {avg10 avg60 : ℚ} {workloads : List Workload} {action : Action}
    (member : action ∈ planMemory shares avg10 avg60 workloads)
    : ∃ w ∈ workloads,
        (w.memoryRegulated = true ∧ action = .restore w.id w.name .memoryHigh memoryNoLimit)
        ∨ ∃ new, w.memoryHigh = none
          ∧ action = .throttle w.id w.name .memoryHigh w.memoryCurrent new := by
  rw [planMemory] at member
  split at member
  · obtain ⟨w, inside, rfl⟩ := List.mem_map.mp member
    rw [List.mem_filter, Bool.and_eq_true] at inside
    exact ⟨w, inside.1, .inl ⟨inside.2.1, rfl⟩⟩
  · split at member
    · cases member
    · simp only at member
      split at member
      · cases member
      · split at member
        · cases member
        case h_2 culprit largest =>
          have inside := mem_of_maxBy largest
          rw [List.mem_filter, Bool.and_eq_true, Option.isNone_iff_eq_none] at inside
          split at member
          · cases member
          · cases List.mem_singleton.mp member
            exact ⟨culprit, inside.1, .inr ⟨_, inside.2.1, rfl⟩⟩

/-- At most one action about a workload is planned for one knob. -/
theorem planCpu_ids (avg10 avg60 : ℚ) (workloads : List Workload) (floor : Nat)
    : ((planCpu avg10 avg60 workloads floor).map Action.id).Sublist
        (workloads.map Workload.id) := by
  rw [planCpu]
  split
  · induction workloads with
    | nil => exact .slnil
    | cons w rest ih =>
        rw [List.filterMap_cons]
        split
        · exact ih.cons w.id
        case h_2 action planned =>
          obtain ⟨original, -, chosen⟩ := Option.bind_eq_some_iff.mp planned
          split at chosen
          · cases chosen
            exact ih.cons_cons w.id
          · cases chosen
  · split
    · exact List.nil_sublist _
    · split
      · exact List.nil_sublist _
      case h_2 culprit largest =>
        have inside := (List.mem_filter.mp (mem_of_maxBy largest)).1
        dsimp only
        split
        · exact List.nil_sublist _
        · exact List.singleton_sublist.mpr (List.mem_map_of_mem inside)

theorem planMemory_ids (avg10 avg60 : ℚ) (workloads : List Workload)
    : ((planMemory shares avg10 avg60 workloads).map Action.id).Sublist
        (workloads.map Workload.id) := by
  rw [planMemory]
  split
  · rw [List.map_map]
    exact List.filter_sublist.map Workload.id
  · split
    · exact List.nil_sublist _
    · simp only
      split
      · exact List.nil_sublist _
      · split
        · exact List.nil_sublist _
        case h_2 culprit largest =>
          have inside := (List.mem_filter.mp (mem_of_maxBy largest)).1
          split
          · exact List.nil_sublist _
          · exact List.singleton_sublist.mpr (List.mem_map_of_mem inside)

/-- What an action writes. -/
def Action.value : Action → Value
  | .throttle _ _ _ _ new => some new
  | .restore _ _ _ new => restored new

/-- Actions about distinct workloads, all on one knob, are apart. -/
theorem apart_of_ids {actions : List Action} {ids : List Id} (distinct : ids.Nodup)
    (subset : (actions.map Action.id).Sublist ids)
    : actions.Pairwise fun a b => (a.id, a.knob) ≠ (b.id, b.knob) := by
  have nodup := distinct.sublist subset
  rw [List.Nodup, List.pairwise_map] at nodup
  exact nodup.imp fun ne same => ne (Prod.mk.inj same).1

theorem plan_apart {m : Machine} {reading : Reading}
    (distinct : (reading.samples.map Sample.id).Nodup)
    : (m.plan shares reading).Pairwise fun a b => (a.id, a.knob) ≠ (b.id, b.knob) := by
  have ids : (reading.samples.map m.workload).map Workload.id
      = reading.samples.map Sample.id := by
    rw [List.map_map]
    rfl
  rw [← ids] at distinct
  rw [Machine.plan, List.pairwise_append]
  refine ⟨apart_of_ids distinct (planCpu_ids _ _ _ _),
    apart_of_ids distinct (planMemory_ids shares _ _ _), ?_⟩
  intro a cpu b memory same
  have knobs := (Prod.mk.inj same).2
  obtain ⟨w, -, planned⟩ := mem_planCpu cpu
  obtain ⟨w', -, planned'⟩ := mem_planMemory shares memory
  rcases planned with ⟨_, _, rfl⟩ | ⟨_, _, _, rfl⟩ <;>
    rcases planned' with ⟨_, rfl⟩ | ⟨_, _, rfl⟩ <;>
    cases knobs

/-- What is planned fits the machine as it was read. -/
theorem plan_stillPlanned {w : Watched} (sound : Sound w) {reading : Reading} {action : Action}
    (member : action ∈ w.machine.plan shares reading) {m : Machine}
    (cgroups : m.cgroups = w.machine.cgroups) (memos : m.memos = w.machine.memos)
    (floor : m.floor = reading.floor)
    : StillPlanned m action := by
  rcases List.mem_append.mp member with cpu | memory
  · obtain ⟨v, inside, planned⟩ := mem_planCpu cpu
    obtain ⟨sample, -, rfl⟩ := List.mem_map.mp inside
    rcases planned with ⟨original, has, rfl⟩ | ⟨new, lower, above, rfl⟩
    · intro c _
      rw [memos]
      exact has
    · intro c live
      rw [cgroups] at live
      have weight : (w.machine.workload sample).cpuWeight = c.cpuWeight := by
        show ((w.machine.cgroups sample.id).map Cgroup.cpuWeight).getD defaultWeight = _
        rw [show w.machine.cgroups sample.id = some c from live]
        rfl
      rw [floor]
      exact ⟨weight.symm, lower, above⟩
  · obtain ⟨v, inside, planned⟩ := mem_planMemory shares memory
    obtain ⟨sample, -, rfl⟩ := List.mem_map.mp inside
    rcases planned with ⟨regulated, rfl⟩ | ⟨new, unlimited, rfl⟩
    · refine ⟨rfl, fun c _ => ?_⟩
      rw [memos]
      exact Option.isSome_iff_ne_none.mp regulated
    · intro c live
      rw [cgroups] at live
      have high : c.memoryHigh = none := by
        have read : (w.machine.cgroups sample.id).bind Cgroup.memoryHigh = none := unlimited
        rwa [show w.machine.cgroups sample.id = some c from live] at read
      refine ⟨high, ?_⟩
      rw [memos]
      -- A claim would have left a limit.
      by_contra claimed
      obtain ⟨memo, has⟩ := Option.ne_none_iff_exists'.mp claimed
      exact (sound.claims _ _ c memo live has).2 high

-----------------------------------------------------------------------------------------
-- Steps
-----------------------------------------------------------------------------------------

theorem sound_untouched (cgroups : Id → Option Cgroup) : Sound (untouched cgroups) where
  claims _ _ := claimSound_of_none rfl
  planned _ member := by cases member
  apart := .nil

section
variable {w : Watched} (sound : Sound w)

include sound

theorem sound_start {id : Id} {cgroup : Cgroup} (free : ∀ knob, ¬ w.machine.Claims id knob)
    : Sound (w.next shares (.start id cgroup)) := by
  rw [Watched.next, Machine.next, Ledger.observe]
  split
  case isFalse => exact sound
  case isTrue =>
    have unclaimed (knob : Knob) : w.machine.memos id knob = none := by
      by_contra has
      exact free knob (.inl has)
    constructor
    case claims =>
      intro id' knob
      by_cases same : id' = id
      · subst same
        exact claimSound_of_none (unclaimed knob)
      · refine (sound.claims id' knob).frame (fun _ has => has) ?_
          (kept_withCgroup_of_ne _ _ _ same)
        simp [same]
    case planned =>
      intro action member
      have other : action.id ≠ id := fun is => free action.knob (.inr ⟨action, member, is, rfl⟩)
      exact (sound.planned action member).frame rfl rfl (kept_withCgroup_of_ne _ _ _ other)
    case apart => exact sound.apart

theorem sound_exit (id : Id) : Sound (w.next shares (.exit id)) := by
  have kept (id' : Id) (knob : Knob) : Kept w.machine (w.machine.withCgroup id none) id' knob := by
    by_cases same : id' = id
    · intro c' live
      simp [Machine.withCgroup, same] at live
    · exact kept_withCgroup_of_ne _ _ _ same
  constructor
  case claims => exact fun id' knob => (sound.claims id' knob).frame (fun _ has => has) rfl (kept _ _)
  case planned =>
    exact fun action member => (sound.planned action member).frame rfl rfl (kept _ _)
  case apart => exact sound.apart

theorem sound_set {id : Id} {knob : Knob} {value : Value} (free : ¬ w.machine.Claims id knob)
    : Sound (w.next shares (.set id knob value)) := by
  rw [Watched.next, Machine.next, Ledger.observe]
  cases written : w.machine.written id knob value with
  | none => exact sound
  | some c =>
      have unclaimed : w.machine.memos id knob = none := by
        by_contra has
        exact free (.inl has)
      constructor
      case claims =>
        intro id' knob'
        by_cases same : (id', knob') = (id, knob)
        · cases same
          exact claimSound_of_none unclaimed
        · refine (sound.claims id' knob').frame (fun _ has => has) ?_ (kept_written written same)
          exact Ledger.note_of_ne same
      case planned =>
        intro action member
        have other : (action.id, action.knob) ≠ (id, knob) := fun same =>
          free (.inr ⟨action, member, (Prod.mk.inj same).1, (Prod.mk.inj same).2⟩)
        exact (sound.planned action member).frame rfl rfl (kept_written written other)
      case apart => exact sound.apart

theorem sound_forgetGone (live : List Id) : Sound (w.next shares (.forgetGone live)) := by
  rw [Watched.next, Machine.next, Ledger.observe]
  · split
    case isFalse => exact sound
    case isTrue empty =>
      constructor
      case claims =>
        intro id knob
        refine (sound.claims id knob).frame ?_ rfl (kept_refl _ _ _)
        intro memo has
        dsimp only at has
        split at has
        · exact has
        · cases has
      case planned =>
        intro action member
        dsimp only at member
        rw [empty] at member
        cases member
      case apart => exact sound.apart
  all_goals simp

theorem sound_tick (reading : Reading) : Sound (w.next shares (.tick reading)) := by
  rw [Watched.next, Machine.next, Ledger.observe]
  · split
    case isFalse => exact sound
    case isTrue ready =>
      constructor
      case claims =>
        intro id knob
        exact (sound.claims id knob).frame (fun _ has => has) rfl (kept_refl _ _ _)
      case planned =>
        intro action member
        exact plan_stillPlanned shares sound member rfl rfl rfl
      case apart => exact plan_apart shares ready.2
  all_goals simp

/-- All but one knob is as it was, and the actions that are left are about others. -/
theorem sound_apply_frame {action : Action} {rest : List Action}
    (pending : w.machine.pending = action :: rest) {w' : Watched}
    (left : w'.machine.pending = rest) (floor : w'.machine.floor = w.machine.floor)
    (memos : ∀ id knob, (id, knob) ≠ (action.id, action.knob) →
      w'.machine.memos id knob = w.machine.memos id knob)
    (ledger : ∀ id knob, (id, knob) ≠ (action.id, action.knob) →
      w'.ledger id knob = w.ledger id knob)
    (kept : ∀ id knob, (id, knob) ≠ (action.id, action.knob) →
      Kept w.machine w'.machine id knob)
    (turned : ClaimSound w' action.id action.knob)
    : Sound w' := by
  have apart := sound.apart
  rw [pending, List.pairwise_cons] at apart
  constructor
  case claims =>
    intro id knob
    by_cases same : (id, knob) = (action.id, action.knob)
    · cases same
      exact turned
    · exact (sound.claims id knob).frame (fun _ has => (memos id knob same) ▸ has)
        (ledger id knob same) (kept id knob same)
  case planned =>
    intro later member
    rw [left] at member
    have other := (apart.1 later member).symm
    exact (sound.planned later (by rw [pending]; exact List.mem_cons_of_mem _ member)).frame
      floor (memos _ _ other) (kept _ _ other)
  case apart => exact left ▸ apart.2

/-- A throttle leaves a claim with what the knob was before the first one. -/
theorem claimSound_throttle {id : Id} {name : String} {knob : Knob} {old new : Nat}
    (planned : StillPlanned w.machine (.throttle id name knob old new)) {c : Cgroup}
    (live : w.machine.cgroups id = some c) {memo : Nat}
    (has : (if w.machine.memos id knob = none then some old else w.machine.memos id knob)
      = some memo)
    : (if w.machine.memos id knob = none then some (c.get knob) else (w.ledger id knob).base)
        = some (owed knob memo)
      ∧ TurnedDown knob (some new) memo := by
  split at has
  case isTrue unclaimed =>
    cases has
    rw [if_pos unclaimed]
    cases knob with
    | cpuWeight =>
        obtain ⟨weight, lower, -⟩ := planned c live
        refine ⟨by rw [Cgroup.get, weight]; rfl, ?_⟩
        rintro _ ⟨⟩
        exact lower
    | memoryHigh =>
        obtain ⟨high, -⟩ := planned c live
        exact ⟨by rw [Cgroup.get, high]; rfl, Option.some_ne_none new⟩
  case isFalse claimed =>
    rw [if_neg claimed]
    obtain ⟨entry, down⟩ := sound.claims id knob c memo live has
    refine ⟨by rw [entry], ?_⟩
    cases knob with
    | cpuWeight =>
        obtain ⟨weight, lower, -⟩ := planned c live
        have below := down c.cpuWeight rfl
        rintro _ ⟨⟩
        omega
    | memoryHigh => exact absurd (planned c live).2 claimed

omit sound in
/-- A machine with a memo, if it had none. -/
theorem memos_claimed (m : Machine) (id : Id) (knob : Knob) (old : Nat) (id' : Id) (knob' : Knob)
    : (if m.memos id knob = none then m.withMemo id knob (some old) else m).memos id' knob'
      = if (id', knob') = (id, knob) then
          (if m.memos id knob = none then some old else m.memos id knob)
        else m.memos id' knob' := by
  by_cases unclaimed : m.memos id knob = none
  · simp [unclaimed, Machine.withMemo]
  · simp only [unclaimed, if_false]
    split
    case isTrue same =>
      cases same
      rfl
    case isFalse => rfl

theorem sound_throttle {id : Id} {name : String} {knob : Knob} {old new : Nat}
    {rest : List Action} (pending : w.machine.pending = .throttle id name knob old new :: rest)
    : Sound (w.next shares .apply) := by
  have planned := sound.planned _ (by rw [pending]; exact List.mem_cons_self)
  let claimed := if w.machine.memos id knob = none then w.machine.withMemo id knob (some old)
    else w.machine
  have same_cgroups : claimed.cgroups = w.machine.cgroups := by
    simp only [claimed]
    split <;> rfl
  have same_floor : claimed.floor = w.machine.floor := by
    simp only [claimed]
    split <;> rfl
  have same_written : claimed.written id knob (some new) = w.machine.written id knob (some new) :=
    congrArg (fun cgroups : Id → Option Cgroup => (cgroups id).bind fun c => c.put knob (some new))
      same_cgroups
  have memos (id' : Id) (knob' : Knob) (ne : (id', knob') ≠ (id, knob))
      : claimed.memos id' knob' = w.machine.memos id' knob' := by
    rw [memos_claimed, if_neg ne]
  cases written : w.machine.written id knob (some new) with
  | none =>
      have next : w.next shares .apply = ⟨{ claimed with pending := rest }, w.ledger⟩ := by
        simp only [Watched.next, Machine.next, Ledger.observe, pending, Machine.apply]
        simp only [claimed] at same_written
        rw [same_written, written]
        cases w.machine.cgroups id <;> rfl
      rw [next]
      refine sound_apply_frame sound pending rfl same_floor memos (fun _ _ _ => rfl) ?_ ?_
      · intro id' knob' _ c' live
        exact ⟨c', same_cgroups ▸ live, rfl⟩
      · -- Nothing was written, so the workload is gone.
        intro c memo live _
        have live : w.machine.cgroups id = some c := same_cgroups ▸ live
        rw [Machine.written, live] at written
        cases knob <;> cases written
  | some c' =>
      obtain ⟨c, live, put⟩ := Option.bind_eq_some_iff.mp written
      have next : w.next shares .apply
          = ⟨{ claimed.withCgroup id (some c') with pending := rest },
            w.ledger.note id knob {
              setter := .regulator
              written := some (some new)
              base := if w.machine.memos id knob = none then some (c.get knob)
                else (w.ledger id knob).base }⟩ := by
        simp only [Watched.next, Machine.next, Ledger.observe, pending, Machine.apply]
        simp only [claimed] at same_written
        rw [same_written, written, live]
      rw [next]
      refine sound_apply_frame sound pending rfl same_floor memos
        (fun _ _ ne => Ledger.note_of_ne ne) ?_ ?_
      · intro id' knob' ne c'' after
        have after : (w.machine.withCgroup id (some c')).cgroups id' = some c'' := by
          simpa [Machine.withCgroup, same_cgroups] using after
        exact kept_written written ne c'' after
      · intro c'' memo after has
        have after : (if id = id then some c' else claimed.cgroups id) = some c'' := after
        rw [if_pos rfl] at after
        cases after
        have has : claimed.memos id knob = some memo := has
        rw [memos_claimed, if_pos rfl] at has
        obtain ⟨base, down⟩ := claimSound_throttle sound planned live has
        show w.ledger.note id knob _ id knob = ⟨_, some (c'.get knob), some (owed knob memo)⟩
          ∧ TurnedDown knob (c'.get knob) memo
        rw [Ledger.note_self, (get_put put).1, base]
        exact ⟨rfl, down⟩

theorem sound_restore {id : Id} {name : String} {knob : Knob} {new : Nat}
    {rest : List Action} (pending : w.machine.pending = .restore id name knob new :: rest)
    : Sound (w.next shares .apply) := by
  cases written : w.machine.written id knob (restored new) with
  | none =>
      have next : w.next shares .apply = ⟨{ w.machine with pending := rest }, w.ledger⟩ := by
        simp only [Watched.next, Machine.next, Ledger.observe, pending, Machine.apply, written]
      rw [next]
      exact sound_apply_frame sound pending rfl rfl (fun _ _ _ => rfl) (fun _ _ _ => rfl)
        (fun _ _ _ => kept_refl _ _ _)
        ((sound.claims id knob).frame (fun _ has => has) rfl (kept_refl _ _ _))
  | some c' =>
      have next : w.next shares .apply
          = ⟨{ (w.machine.withCgroup id (some c')).withMemo id knob none with pending := rest },
            w.ledger.note id knob
              { w.ledger id knob with setter := .regulator, written := some (restored new) }⟩ := by
        simp only [Watched.next, Machine.next, Ledger.observe, pending, Machine.apply, written]
      rw [next]
      refine sound_apply_frame sound pending rfl rfl ?_ (fun _ _ ne => Ledger.note_of_ne ne)
        (fun _ _ ne => kept_written written ne) (claimSound_of_none ?_)
      · intro id' knob' ne
        refine if_neg ?_
        rintro ⟨rfl, rfl⟩
        exact ne rfl
      · exact if_pos ⟨rfl, rfl⟩

theorem sound_apply : Sound (w.next shares .apply) := by
  cases pending : w.machine.pending with
  | nil =>
      have still : w.next shares .apply = w := by
        simp [Watched.next, Machine.next, Ledger.observe, pending]
      rwa [still]
  | cons action rest =>
      cases action with
      | throttle id name knob old new => exact sound_throttle shares sound pending
      | restore id name knob new => exact sound_restore shares sound pending

theorem sound_next {step : Step} (undisturbed : Undisturbed w step)
    : Sound (w.next shares step) := by
  cases step with
  | start id cgroup => exact sound_start shares sound undisturbed
  | exit id => exact sound_exit shares sound id
  | set id knob value => exact sound_set shares sound undisturbed
  | forgetGone live => exact sound_forgetGone shares sound live
  | tick reading => exact sound_tick shares sound reading
  | apply => exact sound_apply shares sound

-----------------------------------------------------------------------------------------
-- What is undone
-----------------------------------------------------------------------------------------

/-- A planned action lowers no weight below the floor. -/
theorem StillPlanned.floor {action : Action} (planned : StillPlanned w.machine action)
    {c c' : Cgroup} (live : w.machine.cgroups action.id = some c)
    (put : c.put action.knob action.value = some c') (lower : c'.cpuWeight < c.cpuWeight)
    : max w.machine.floor 1 ≤ c'.cpuWeight := by
  cases action with
  | throttle id name knob old new =>
      cases knob with
      | cpuWeight =>
          cases put
          exact (planned c live).2.2
      | memoryHigh =>
          cases put
          exact absurd lower (Nat.lt_irrefl _)
  | restore id name knob new =>
      cases knob with
      | cpuWeight =>
          -- A restore puts back more than there is.
          have down := (sound.claims id .cpuWeight c new live (planned c live)).2 c.cpuWeight rfl
          have weight := (get_put put).1
          have weight : some c'.cpuWeight = restored new := weight
          rw [restored] at weight
          split at weight
          · cases weight
          · cases weight
            omega
      | memoryHigh =>
          cases put
          exact absurd lower (Nat.lt_irrefl _)

omit sound in
/-- An action changes at most the knob it is about. -/
theorem cgroups_apply (m : Machine) (action : Action) (id : Id)
    : (m.apply action).cgroups id = m.cgroups id
      ∨ id = action.id ∧ ∃ c', m.written action.id action.knob action.value = some c'
        ∧ (m.apply action).cgroups id = some c' := by
  cases action with
  | throttle other name knob old new =>
      have same (m : Machine) : (if m.memos other knob = none then
          m.withMemo other knob (some old) else m).cgroups = m.cgroups := by
        split <;> rfl
      simp only [Machine.apply, Machine.written, same]
      cases written : m.written other knob (some new) with
      | none =>
          rw [Machine.written] at written
          rw [written]
          exact .inl (congrFun (same m) id)
      | some c =>
          rw [Machine.written] at written
          by_cases is : id = other
          · refine .inr ⟨is, c, written, ?_⟩
            rw [written]
            exact if_pos is
          · refine .inl ?_
            rw [written]
            refine (if_neg is).trans ?_
            exact congrFun (same m) id
  | restore other name knob new =>
      simp only [Machine.apply]
      cases written : m.written other knob (restored new) with
      | none => exact .inl rfl
      | some c =>
          by_cases is : id = other
          · exact .inr ⟨is, c, written, if_pos is⟩
          · exact .inl (if_neg is)

/-- One step of a sound machine undoes only what the regulator did. -/
theorem undoes_of_sound (step : Step) : Undoes ⟨w, step, w.next shares step⟩ := by
  constructor
  case restores =>
    intro id name knob new rest c c' is pending live put
    have planned := sound.planned (.restore id name knob new)
      (by rw [show w.machine.pending = _ from pending]; exact List.mem_cons_self)
    cases knob with
    | cpuWeight =>
        have memo := planned c live
        obtain ⟨entry, -⟩ := sound.claims id .cpuWeight c new live memo
        have limited : restored new = some new := by
          rw [restored] at put ⊢
          split at put
          · cases put
          case isFalse other => rw [if_neg other]
        rw [limited]
        show (w.ledger id .cpuWeight).setter = _ ∧ _
        exact ⟨by rw [entry], by rw [entry], by rw [entry]; rfl⟩
    | memoryHigh =>
        obtain ⟨rfl, memos⟩ := planned
        obtain ⟨memo, has⟩ := Option.ne_none_iff_exists'.mp (memos c live)
        obtain ⟨entry, -⟩ := sound.claims id .memoryHigh c memo live has
        exact ⟨by rw [entry], by rw [entry], by rw [entry]; rfl⟩
  case floor =>
    intro id c c' is before after lower
    cases is
    have after : (w.machine.next shares .apply).cgroups id = some c' := after
    cases pending : w.machine.pending with
    | nil =>
        rw [Machine.next, pending] at after
        cases before.symm.trans after
        omega
    | cons action rest =>
        rw [Machine.next, pending] at after
        have after : (w.machine.apply action).cgroups id = some c' := after
        rcases cgroups_apply w.machine action id with unchanged | ⟨rfl, c'', written, turned⟩
        · cases (unchanged.symm.trans after).symm.trans before
          omega
        · cases turned.symm.trans after
          obtain ⟨c'', live, put⟩ := Option.bind_eq_some_iff.mp written
          cases before.symm.trans live
          have planned := sound.planned action (by rw [pending]; exact List.mem_cons_self)
          exact planned.floor sound before put lower

end

/-- In every run in which nobody turns a knob that the regulator has a claim on, every restore
finds the regulator's own value and puts back the one from before the claim, and no weight is
lowered below the floor.
-/
theorem regulator_undoes {cgroups : Id → Option Cgroup} {history : List (Event Watched Step)}
    {w : Watched} (run : Run (StepOf (Watched.next shares)) (untouched cgroups) history w)
    (undisturbed : Meets Undisturbed history)
    : ∀ event ∈ history, Undoes event := by
  intro event member
  obtain ⟨older, earlier, meets, taken⟩ := run.upBefore undisturbed member
  have sound : Sound event.before := by
    refine Run.invariant (fun _ w => Sound w) (sound_untouched cgroups) ?_ earlier meets
    rintro _ w step _ sound rfl allowed
    exact sound_next shares sound allowed
  obtain ⟨before, step, after⟩ := event
  have taken : after = before.next shares step := taken
  subst taken
  exact undoes_of_sound shares sound step

/-- One workload, which takes most of the CPU. -/
def build : Id → Option Cgroup := fun id => if id = "build" then some ⟨100, none⟩ else none

def reading (stall : ℚ) : Step :=
  .tick ⟨[⟨"build", "build", 90, 0⟩], stall, stall, 10, 10, 20⟩

def anyShares : Shares := ⟨fun _ _ => 0⟩

/-- A throttle, a second one that finds it in place, and the restore, each planned and applied. -/
def throttledAndBack : List (Event Watched Step) :=
  trace (Watched.next anyShares) (untouched build) []
    [reading 30, .apply, reading 30, .apply, reading 1, .apply]

theorem throttledAndBack_undisturbed : Meets Undisturbed throttledAndBack := by
  refine meets_trace ?_ ?_
  · exact fun _ member => absurd member List.not_mem_nil
  · intro step member state
    simp only [List.mem_cons, List.not_mem_nil, or_false] at member
    rcases member with rfl | rfl | rfl | rfl | rfl | rfl <;> trivial

theorem regulator_undoes_build
    : Meets Undisturbed throttledAndBack ∧ ∀ event ∈ throttledAndBack, Undoes event :=
  ⟨throttledAndBack_undisturbed,
    regulator_undoes anyShares (Run.start.trace _) throttledAndBack_undisturbed⟩

/-- A weight that a person set after a throttle is overwritten when the pressure is gone. -/
theorem person_overwritten
    : ¬ ∀ (shares : Shares) (cgroups : Id → Option Cgroup) (history : List (Event Watched Step))
        (w : Watched), Run (StepOf (Watched.next shares)) (untouched cgroups) history w →
        ∀ event ∈ history, Undoes event := by
  intro always
  let steps : List Step :=
    [reading 30, .apply, .set "build" .cpuWeight (some 300), reading 1]
  let before := steps.foldl (Watched.next anyShares) (untouched build)
  have run : Run (StepOf (Watched.next anyShares)) (untouched build)
      (trace (Watched.next anyShares) (untouched build) [] steps) before :=
    Run.start.trace steps
  have restored : Run (StepOf (Watched.next anyShares)) (untouched build)
      (⟨before, .apply, before.next anyShares .apply⟩ ::
        trace (Watched.next anyShares) (untouched build) [] steps)
      (before.next anyShares .apply) :=
    run.step rfl
  have undoes := always anyShares build _ _ restored _ List.mem_cons_self
  have pending : before.machine.pending = [.restore "build" "build" .cpuWeight 100] := by
    decide +kernel
  have live : before.machine.cgroups "build" = some ⟨300, none⟩ := by decide +kernel
  have found := undoes.restores "build" "build" .cpuWeight 100 [] ⟨300, none⟩ ⟨100, none⟩ rfl
    pending live rfl
  have person : (before.ledger "build" .cpuWeight).setter = .person := by decide +kernel
  cases found.1.symm.trans person

end Delonix.Regulate
