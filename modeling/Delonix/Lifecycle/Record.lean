import Delonix.Library.Text
import Mathlib.Logic.Function.Basic

/-! The kernel's process table as `/proc` shows it.
A pid names whatever sits in its slot now, so a process is known by its pid and its start
time together. The pair is never used again, and a slot is reused only once its last occupant
was collected.

The container's record and the decisions made on it.
Each function here is what one closure or guard of the engine computes on a record, with the
process table as it is when the closure runs.
-/

namespace Delonix.Lifecycle

structure Process where
  pid : Nat
  starttime : Nat
  positive : 0 < pid
deriving DecidableEq, Repr

/-- What `/proc/<pid>/stat` says: field 22, and whether the state letter is `Z`. -/
structure Slot where
  starttime : Nat
  zombie : Bool
deriving DecidableEq, Repr

abbrev Table := Nat → Option Slot

/-- Signal 0 reaches the process. A zombie still takes it. -/
def isAlive (table : Table) (pid : Nat) : Bool := 0 < pid && (table pid).isSome

def procStarttime (table : Table) (pid : Nat) : Option Nat := (table pid).map Slot.starttime

/-- The pid is alive and, when the start time was recorded, it is still the same process. -/
def safeToSignal (table : Table) (pid : Nat) (starttime : Option Nat) : Bool :=
  isAlive table pid
    && match starttime with
      | some want => procStarttime table pid == some want
      | none => true

/-- The pid no longer names the recorded process, or names it as a zombie. -/
def processGone (table : Table) (pid : Nat) (starttime : Option Nat) : Bool :=
  !safeToSignal table pid starttime || ((table pid).map Slot.zombie).getD true

namespace Table

/-- The process is in its slot and has not exited. -/
def Running (table : Table) (process : Process) : Prop :=
  table process.pid = some ⟨process.starttime, false⟩

instance (table : Table) (process : Process) : Decidable (table.Running process) :=
  inferInstanceAs (Decidable (_ = _))

/-- The process sits in the slot of its pid from now on. -/
def place (table : Table) (process : Process) : Table :=
  Function.update table process.pid (some ⟨process.starttime, false⟩)

/-- The process exits: a zombie, until it is collected. -/
def exit (table : Table) (process : Process) : Table :=
  if table.Running process then
    Function.update table process.pid (some ⟨process.starttime, true⟩)
  else table

/-- The process leaves its slot, whether it had exited or is killed for it. -/
def release (table : Table) (process : Process) : Table :=
  if procStarttime table process.pid = some process.starttime then
    Function.update table process.pid none
  else table

end Table

/-- What the table does over time: no process known before starts to run again. -/
def NoRevival (born : List Process) (before after : Table) : Prop :=
  ∀ process ∈ born, after.Running process → before.Running process

theorem NoRevival.refl (born : List Process) (table : Table) : NoRevival born table table :=
  fun _ _ runs => runs

theorem noRevival_place {born : List Process} (table : Table) {process : Process}
    (fresh : process ∉ born)
    : NoRevival born table (table.place process) := by
  intro other known runs
  by_cases same : other.pid = process.pid
  · rw [Table.Running, Table.place, same, Function.update_self] at runs
    simp only [Option.some.injEq, Slot.mk.injEq, and_true] at runs
    have equal : other = process := by
      cases other
      cases process
      simp_all
    exact absurd (equal ▸ known) fresh
  · rw [Table.Running, Table.place, Function.update_of_ne same] at runs
    exact runs

theorem noRevival_exit (born : List Process) (table : Table) (process : Process)
    : NoRevival born table (table.exit process) := by
  intro other _ runs
  rw [Table.exit] at runs
  split at runs
  case isTrue was =>
    by_cases same : other.pid = process.pid
    · rw [Table.Running, same, Function.update_self] at runs
      simp at runs
    · rw [Table.Running, Function.update_of_ne same] at runs
      exact runs
  case isFalse => exact runs

theorem noRevival_release (born : List Process) (table : Table) (process : Process)
    : NoRevival born table (table.release process) := by
  intro other _ runs
  rw [Table.release] at runs
  split at runs
  case isTrue =>
    by_cases same : other.pid = process.pid
    · rw [Table.Running, same, Function.update_self] at runs
      simp at runs
    · rw [Table.Running, Function.update_of_ne same] at runs
      exact runs
  case isFalse => exact runs

/-- A running process takes signals by its pid and its start time. -/
theorem Table.Running.safeToSignal {table : Table} {process : Process}
    (runs : table.Running process)
    : safeToSignal table process.pid (some process.starttime) = true := by
  rw [Table.Running] at runs
  simp [Lifecycle.safeToSignal, isAlive, procStarttime, runs, process.positive]

/-- What is gone by `processGone` does not run, and conversely. -/
theorem processGone_eq_false {table : Table} {process : Process}
    : processGone table process.pid (some process.starttime) = false
      ↔ table.Running process := by
  rw [Table.Running]
  cases slot : table process.pid with
  | none => simp [processGone, safeToSignal, isAlive, slot]
  | some found =>
      cases found
      simp [processGone, safeToSignal, isAlive, procStarttime, slot, process.positive]

open Delonix.Library.Text

inductive Status where
  | created
  | running
  | paused
  | stopped
  | failed (code : Int)
  | crashed
deriving DecidableEq, Repr

/-- What `waitpid` answers. -/
inductive WaitStatus where
  | exited (code : Int)
  | signaled
  | other
deriving DecidableEq, Repr

/-- The record of one container. `settings` is everything else in it: the fields that a
start carries along and no function here reads.
-/
structure Container where
  name : String
  status : Status
  pid : Option Nat
  pidStarttime : Option Nat
  mountPending : Bool
  stoppedByUser : Bool
  restartPolicy : Option String
  crashReason : Option String
  crashedAt : Option Nat
  settings : List (String × String)
deriving DecidableEq, Repr

/-- `Container::new`, with the policy `launch::start` writes. -/
def Container.new (name : String) (restartPolicy : Option String)
    (settings : List (String × String)) : Container where
  name
  status := .created
  pid := none
  pidStarttime := none
  mountPending := false
  stoppedByUser := false
  restartPolicy
  crashReason := none
  crashedAt := none
  settings

/-- The record names the process, by its pid and its start time. -/
def Container.Names (c : Container) (process : Process) : Prop :=
  c.pid = some process.pid ∧ c.pidStarttime = some process.starttime

instance (c : Container) (process : Process) : Decidable (c.Names process) :=
  inferInstanceAs (Decidable (_ ∧ _))

theorem Container.Names.unique {c : Container} {p q : Process} (hp : c.Names p)
    (hq : c.Names q)
    : p = q := by
  obtain ⟨pid, starttime, _⟩ := p
  obtain ⟨pid', starttime', _⟩ := q
  have pids : pid = pid' := Option.some.inj (hp.1.symm.trans hq.1)
  have starts : starttime = starttime' := Option.some.inj (hp.2.symm.trans hq.2)
  subst pids starts
  rfl

def waitToStatus : WaitStatus → Status
  | .exited 0 => .stopped
  | .exited code => .failed code
  | .signaled => .crashed
  | .other => .crashed

def Status.failedOrCrashed : Status → Bool
  | .failed _ => true
  | .crashed => true
  | _ => false

/-- The death is the OOM killer's: a failure across which the counter went up. -/
def diedOfOom (status : Status) (before after : Option Nat) : Bool :=
  match before, after with
  | some b, some a => status.failedOrCrashed && b < a
  | none, some a => status.failedOrCrashed && 0 < a
  | _, none => false

def oomKilled : String := "oom_killed"

def crashReasonOf (table : Table) (pid : Nat) : String :=
  if isAlive table pid then "pid_reused" else "process_gone"

def Container.isLive (table : Table) (c : Container) : Bool :=
  match c.pid with
  | some pid => safeToSignal table pid c.pidStarttime
  | none => false

/-- «Still running» as `rm` measures it: a zombie is gone. -/
def Container.stillRunning (table : Table) (c : Container) : Bool :=
  match c.pid with
  | some pid => !processGone table pid c.pidStarttime
  | none => false

/-- The record names no process, or the one with this pid and start time. -/
def describesIncarnation (c : Container) (pid : Nat) (starttime : Option Nat) : Bool :=
  match c.pid with
  | none => true
  | some p => p == pid && (starttime.isNone || c.pidStarttime == starttime)

/-- Writing the incarnation over `cur` would drop another live one from it. -/
def publishWouldOrphan (table : Table) (cur : Container) (pid : Nat) (starttime : Option Nat)
    : Bool :=
  !describesIncarnation cur pid starttime && cur.isLive table

/-- The copy of a start whose process was just cloned. -/
def markRunning (c : Container) (process : Process) : Container :=
  { c with
    pid := some process.pid, pidStarttime := some process.starttime, status := .running,
    crashReason := none, crashedAt := none }

/-- What `wait_foreground` leaves in its copy before it saves it. -/
def endForeground (c : Container) (status : Status) (oom : Bool) (now : Nat) : Container :=
  let ended := { c with status, pid := none, mountPending := false }
  if oom then { ended with crashReason := some oomKilled, crashedAt := some now } else ended

/-- The end of an incarnation, unless the record names another one. A requested stop is never
a crash.
-/
def recordExit (c : Container) (pid : Nat) (starttime : Option Nat) (status : Status)
    (oom : Bool) (now : Nat) : Option Container :=
  if describesIncarnation c pid starttime then
    let stopped := c.stoppedByUser || (c.pid.isNone && c.status == .stopped)
    let ended := { c with
      status := if stopped && status == .crashed then .stopped else status,
      pid := none, mountPending := false }
    some (if oom && !stopped then
      { ended with crashReason := some oomKilled, crashedAt := some now } else ended)
  else none

/-- The closure of `persist_stop`. -/
def recordStop (pid : Nat) (starttime : Option Nat) (cur : Container) : Option Container :=
  if describesIncarnation cur pid starttime then
    some { cur with status := .stopped, pid := none }
  else none

/-- The closure of `record_removal_intent`. -/
def recordRemovalIntent (cur : Container) : Option Container :=
  if cur.stoppedByUser then none else some { cur with stoppedByUser := true }

/-- The status against the kernel's reality; `none` when nothing changes. -/
def reconcileStatus (table : Table) (frozen : Bool) (now : Nat) (c : Container)
    : Option Container :=
  let dead (pid : Nat) : Container :=
    { c with
      status := .crashed, crashReason := some (crashReasonOf table pid),
      crashedAt := some now, pid := none }
  match c.status, c.pid with
  | .running, some pid =>
      if !safeToSignal table pid c.pidStarttime then some (dead pid)
      else if frozen then some { c with status := .paused } else none
  | .paused, some pid =>
      if !safeToSignal table pid c.pidStarttime then some (dead pid)
      else if !frozen then some { c with status := .running } else none
  | _, _ => none

/-- A policy restart goes ahead on the record as it is now. -/
def resumeRestart (table : Table) : Option Container → Bool
  | none => false
  | some cur => !cur.stoppedByUser && !cur.isLive table

def shouldSupervise (detach forkable : Bool) : Bool := detach && forkable

def policySupervised (policy : String) : Bool :=
  let kind := (policy.toList.splitOn ':').headD []
  kind == "always".toList || kind == "unless-stopped".toList || kind == "on-failure".toList

def shouldRestart (policy : String) (status : Status) (restarts : Nat) : Bool :=
  let (kind, max) := match splitOnce ':' policy.toList with
    | some (kind, max) => (kind, parseUnsigned 10 (2 ^ 32 - 1) max)
    | none => (policy.toList, none)
  if kind == "always".toList || kind == "unless-stopped".toList then true
  else if kind == "on-failure".toList then
    status.failedOrCrashed && match max with
      | some m => restarts < m
      | none => true
  else false

/-- What a user or another command decides about the container, and a start only carries. -/
def Container.Agrees (a b : Container) : Prop :=
  a.name = b.name ∧ a.stoppedByUser = b.stoppedByUser ∧ a.restartPolicy = b.restartPolicy
    ∧ a.settings = b.settings

instance (a b : Container) : Decidable (a.Agrees b) :=
  inferInstanceAs (Decidable (_ ∧ _ ∧ _ ∧ _))

/-- A write that forgets no running process: it keeps the pid and its start time, or clears
the pid of a process that no longer runs.
-/
def Container.Follows (table : Table) (cur next : Container) : Prop :=
  (next.pid = cur.pid ∧ next.pidStarttime = cur.pidStarttime)
    ∨ (next.pid = none ∧ ∀ process, cur.Names process → ¬table.Running process)

theorem describesIncarnation_names {c : Container} {named process : Process}
    (names : c.Names named)
    (describes : describesIncarnation c process.pid (some process.starttime) = true)
    : named = process := by
  simp only [describesIncarnation, names.1, names.2, Option.isNone_some, Bool.false_or,
    Bool.and_eq_true, beq_iff_eq, Option.some.injEq] at describes
  exact names.unique ⟨names.1.trans (by rw [describes.1]), names.2.trans (by rw [describes.2])⟩

/-- A record that names a running process is live and still running. -/
theorem Container.Names.isLive {table : Table} {c : Container} {process : Process}
    (names : c.Names process) (runs : table.Running process)
    : c.isLive table = true := by
  simp only [Container.isLive, names.1, names.2]
  exact runs.safeToSignal

theorem Container.Names.stillRunning {table : Table} {c : Container} {process : Process}
    (names : c.Names process)
    : c.stillRunning table = true ↔ table.Running process := by
  simp only [Container.stillRunning, names.1, names.2, Bool.not_eq_true']
  exact processGone_eq_false

theorem recordExit_follows {table : Table} {c next : Container} {process : Process}
    {status : Status} {oom : Bool} {now : Nat} (gone : ¬table.Running process)
    (recorded : recordExit c process.pid (some process.starttime) status oom now = some next)
    : c.Follows table next := by
  unfold recordExit at recorded
  split at recorded
  case isTrue describes =>
    refine .inr ⟨?_, ?_⟩
    · rw [← Option.some.inj recorded]
      split <;> rfl
    · intro named names
      rw [describesIncarnation_names names describes]
      exact gone
  case isFalse => contradiction

theorem recordExit_agrees {c next : Container} {pid : Nat} {starttime : Option Nat}
    {status : Status} {oom : Bool} {now : Nat}
    (recorded : recordExit c pid starttime status oom now = some next)
    : c.Agrees next := by
  unfold recordExit at recorded
  split at recorded
  · rw [← Option.some.inj recorded]
    split <;> exact ⟨rfl, rfl, rfl, rfl⟩
  · contradiction

theorem recordStop_follows {table : Table} {c next : Container} {process : Process}
    (gone : ¬table.Running process)
    (recorded : recordStop process.pid (some process.starttime) c = some next)
    : c.Follows table next := by
  unfold recordStop at recorded
  split at recorded
  case isTrue describes =>
    cases recorded
    refine .inr ⟨rfl, ?_⟩
    intro named names
    rw [describesIncarnation_names names describes]
    exact gone
  case isFalse => contradiction

theorem recordStop_agrees {c next : Container} {pid : Nat} {starttime : Option Nat}
    (recorded : recordStop pid starttime c = some next)
    : c.Agrees next := by
  unfold recordStop at recorded
  split at recorded
  · cases recorded
    exact ⟨rfl, rfl, rfl, rfl⟩
  · contradiction

theorem recordRemovalIntent_follows {table : Table} {c next : Container}
    (recorded : recordRemovalIntent c = some next)
    : c.Follows table next := by
  unfold recordRemovalIntent at recorded
  split at recorded
  · contradiction
  · cases recorded
    exact .inl ⟨rfl, rfl⟩

/-- A reconcile clears the pid only of a process that takes no signals any more. -/
theorem reconcileStatus_follows {table : Table} {frozen : Bool} {now : Nat}
    {c next : Container} (reconciled : reconcileStatus table frozen now c = some next)
    : c.Follows table next := by
  have dead {pid : Nat} (named : c.pid = some pid)
      (silent : (!safeToSignal table pid c.pidStarttime) = true) (process : Process)
      (names : c.Names process)
      : ¬table.Running process := by
    intro runs
    have same : pid = process.pid := Option.some.inj (named.symm.trans names.1)
    rw [same, names.2, runs.safeToSignal] at silent
    cases silent
  unfold reconcileStatus at reconciled
  split at reconciled
  case h_3 => contradiction
  all_goals
    split at reconciled
    case isTrue gone =>
      cases reconciled
      exact .inr ⟨rfl, dead ‹_› gone⟩
    case isFalse =>
      split at reconciled
      · cases reconciled
        exact .inl ⟨rfl, rfl⟩
      · contradiction

theorem reconcileStatus_agrees {table : Table} {frozen : Bool} {now : Nat}
    {c next : Container} (reconciled : reconcileStatus table frozen now c = some next)
    : c.Agrees next := by
  unfold reconcileStatus at reconciled
  split at reconciled
  case h_3 => contradiction
  all_goals
    split at reconciled
    case isTrue =>
      cases reconciled
      exact ⟨rfl, rfl, rfl, rfl⟩
    case isFalse =>
      split at reconciled
      · cases reconciled
        exact ⟨rfl, rfl, rfl, rfl⟩
      · contradiction

end Delonix.Lifecycle
