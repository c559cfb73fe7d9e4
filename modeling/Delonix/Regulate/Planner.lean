import Mathlib.Algebra.Order.Field.Rat
import Mathlib.Data.List.Defs

/-! The regulator of resources: pressure is read, one cgroup knob is turned, and turned back when
the pressure is gone. Readings of pressure and shares of consumption are rational numbers.
-/

namespace Delonix.Regulate

abbrev Id := String

/-- The content of a knob's file; `none` is `max`. -/
abbrev Value := Option Nat

inductive Knob where
  | cpuWeight
  | memoryHigh
  deriving DecidableEq

/-- One workload as the regulator sees it. -/
structure Workload where
  id : Id
  name : String
  cpuWeight : Nat
  cpuSharePct : ℚ
  originalWeight : Option Nat
  memoryCurrent : Nat
  memoryHigh : Option Nat
  memoryRegulated : Bool

inductive Action where
  | throttle (id : Id) (name : String) (knob : Knob) (old new : Nat)
  | restore (id : Id) (name : String) (knob : Knob) (new : Nat)
  deriving DecidableEq

def Action.id : Action → Id
  | .throttle id _ _ _ _ => id
  | .restore id _ _ _ => id

def Action.knob : Action → Knob
  | .throttle _ _ knob _ _ => knob
  | .restore _ _ knob _ => knob

def defaultWeight : Nat := 100
def highWater : ℚ := 25
def lowWater : ℚ := 5
def culpritSharePct : ℚ := 20
def memoryFloorBytes : Nat := 128 * 1024 * 1024
def memorySqueezePct : Nat := 90
def memoryCulpritPct : ℚ := 20
def memoryNoLimit : Nat := 2 ^ 64 - 1

/-- The last of the largest items. -/
def maxBy {α κ : Type} [LinearOrder κ] (key : α → κ) : List α → Option α
  | [] => none
  | first :: rest => some (rest.foldl (fun best x => if key best ≤ key x then x else best) first)

/-- The share of the memory that a workload holds. The quotient is rounded, so it is left open.
-/
structure Shares where
  memorySharePct : Nat → Nat → ℚ

def planMemory (shares : Shares) (stallAvg10 stallAvg60 : ℚ) (workloads : List Workload)
    : List Action :=
  if stallAvg60 < lowWater then
    (workloads.filter fun w => w.memoryRegulated && w.memoryHigh.isSome).map fun w =>
      .restore w.id w.name .memoryHigh memoryNoLimit
  else if stallAvg10 < highWater then []
  else
    let total := (workloads.map Workload.memoryCurrent).sum
    if total = 0 then []
    else
      match maxBy Workload.memoryCurrent (workloads.filter fun w =>
          w.memoryHigh.isNone && memoryCulpritPct ≤ shares.memorySharePct w.memoryCurrent total)
      with
      | none => []
      | some culprit =>
          let new := max (culprit.memoryCurrent / 100 * memorySqueezePct) memoryFloorBytes
          if culprit.memoryCurrent ≤ new then []
          else [.throttle culprit.id culprit.name .memoryHigh culprit.memoryCurrent new]

def planCpu (hostStallAvg10 hostStallAvg60 : ℚ) (workloads : List Workload) (floor : Nat)
    : List Action :=
  let floor := max floor 1
  if hostStallAvg60 < lowWater then
    workloads.filterMap fun w =>
      w.originalWeight.bind fun original =>
        if w.cpuWeight ≠ original then some (.restore w.id w.name .cpuWeight original) else none
  else if hostStallAvg10 < highWater then []
  else
    match maxBy Workload.cpuSharePct (workloads.filter fun w =>
        culpritSharePct ≤ w.cpuSharePct && floor < w.cpuWeight)
    with
    | none => []
    | some culprit =>
        let new := max (culprit.cpuWeight / 2) floor
        if new = culprit.cpuWeight then []
        else [.throttle culprit.id culprit.name .cpuWeight culprit.cpuWeight new]

/-- The knobs of a live cgroup. -/
structure Cgroup where
  cpuWeight : Nat
  memoryHigh : Option Nat
  deriving DecidableEq

def Cgroup.get (c : Cgroup) : Knob → Value
  | .cpuWeight => some c.cpuWeight
  | .memoryHigh => c.memoryHigh

/-- A write to a knob; the kernel takes no `max` for a weight. -/
def Cgroup.put (c : Cgroup) : Knob → Value → Option Cgroup
  | .cpuWeight, some weight => some { c with cpuWeight := weight }
  | .cpuWeight, none => none
  | .memoryHigh, value => some { c with memoryHigh := value }

/-- The running workloads, what the regulator remembers of those it turned, and the actions of
the current tick that are still to be applied.
-/
structure Machine where
  cgroups : Id → Option Cgroup
  memos : Id → Knob → Option Nat
  floor : Nat
  pending : List Action

/-- What is measured of a workload besides its knobs. -/
structure Sample where
  id : Id
  name : String
  cpuSharePct : ℚ
  memoryCurrent : Nat

structure Reading where
  samples : List Sample
  cpuAvg10 : ℚ
  cpuAvg60 : ℚ
  memoryAvg10 : ℚ
  memoryAvg60 : ℚ
  floor : Nat

def Machine.workload (m : Machine) (sample : Sample) : Workload where
  id := sample.id
  name := sample.name
  cpuWeight := ((m.cgroups sample.id).map Cgroup.cpuWeight).getD defaultWeight
  cpuSharePct := sample.cpuSharePct
  originalWeight := m.memos sample.id .cpuWeight
  memoryCurrent := sample.memoryCurrent
  memoryHigh := (m.cgroups sample.id).bind Cgroup.memoryHigh
  memoryRegulated := (m.memos sample.id .memoryHigh).isSome

def Machine.plan (shares : Shares) (m : Machine) (reading : Reading) : List Action :=
  let workloads := reading.samples.map m.workload
  planCpu reading.cpuAvg10 reading.cpuAvg60 workloads reading.floor
    ++ planMemory shares reading.memoryAvg10 reading.memoryAvg60 workloads

def Machine.withMemo (m : Machine) (id : Id) (knob : Knob) (memo : Option Nat) : Machine :=
  { m with memos := fun id' knob' => if id' = id ∧ knob' = knob then memo else m.memos id' knob' }

def Machine.withCgroup (m : Machine) (id : Id) (cgroup : Option Cgroup) : Machine :=
  { m with cgroups := fun id' => if id' = id then cgroup else m.cgroups id' }

/-- The cgroup with the value written, if it is there and takes the value. -/
def Machine.written (m : Machine) (id : Id) (knob : Knob) (value : Value) : Option Cgroup :=
  (m.cgroups id).bind fun c => c.put knob value

/-- What a restore writes. -/
def restored (new : Nat) : Value := if new = memoryNoLimit then none else some new

/-- One action carried out. The memo is written before a throttle, and removed after a restore
that was written.
-/
def Machine.apply (m : Machine) : Action → Machine
  | .throttle id _ knob old new =>
      let m := if m.memos id knob = none then m.withMemo id knob (some old) else m
      match m.written id knob (some new) with
      | some c => m.withCgroup id (some c)
      | none => m
  | .restore id _ knob new =>
      match m.written id knob (restored new) with
      | some c => (m.withCgroup id (some c)).withMemo id knob none
      | none => m

end Delonix.Regulate
