import Delonix.Library.Runs
import Delonix.Lifecycle.Record

/-! The commands of one container id, step by step.
A step is one locked access to the record, one `save` or one wait; what a command keeps in
its own memory between two of them is in its stage. Commands run in processes of their own,
so any number of them interleave, and each can end at any step.
-/

namespace Delonix.Lifecycle

open Delonix.Library.Interleaving

/-- Whether the id was handed out: to no `run` yet, to the `run` of one operation that has
not published, or to a container that exists or existed.
-/
inductive Phase where
  | unused
  | starting (i : Nat)
  | used
deriving DecidableEq, Repr

/-- The stored record and the process table. `born` lists the processes that ever were,
`published` those whose publish succeeded, and `removed` says a removal succeeded.
-/
structure World where
  record : Option Container
  table : Table
  born : List Process
  published : List Process
  removed : Bool
  phase : Phase

/-- `Store::update`: the closure sees the record under its lock and may abort the write. -/
def World.update (w : World) (f : Container → Option Container) : World :=
  match w.record with
  | none => w
  | some cur =>
      match f cur with
      | none => w
      | some next => { w with record := some next }

/-- `Store::save`, which takes no lock. -/
def World.save (w : World) (c : Container) : World := { w with record := some c }

/-- Who waits for the process a start brought up. -/
inductive Parent where
  | foreground
  | detached
  | supervisor (policy : String) (restarts : Nat)
deriving DecidableEq, Repr

structure Launch where
  replacesRecord : Bool
  parent : Parent
deriving DecidableEq, Repr

structure RunOpts where
  name : String
  restart : String
  detach : Bool
  noSupervisor : Bool
  settings : List (String × String)

def RunOpts.parent (o : RunOpts) : Parent :=
  if shouldSupervise o.detach (!o.noSupervisor) then .supervisor o.restart 0
  else if o.detach then .detached else .foreground

def RunOpts.container (o : RunOpts) : Container :=
  Container.new o.name
    (if shouldSupervise o.detach (!o.noSupervisor) && policySupervised o.restart
      then some o.restart else none)
    o.settings

/-- Where a command stands, with the copy of the record it works from. -/
inductive Stage where
  | idle
  -- `start`, from the record it found to the launch
  | found (copy : Container)
  | reconciling (copy : Container)
  | reconciled (copy : Container)
  -- `spawn`, for every kind of start
  | launching (launch : Launch) (copy : Container)
  | cloned (launch : Launch) (process : Process) (copy : Container)
  | creating (launch : Launch) (process : Process) (copy : Container)
  | waiting (launch : Launch) (process : Process) (copy : Container)
  -- `wait_foreground` after its wait, and the supervisor's loop after its own
  | saving (copy : Container)
  | recording (policy : String) (restarts : Nat) (copy : Container) (status : Status)
      (oom : Bool) (now : Nat)
  | deciding (policy : String) (restarts : Nat) (status : Status)
  | backingOff (policy : String) (restarts : Nat)
  -- `stop`
  | stopping (copy : Container)
  | stopMarked (copy : Container)
  | signalled (pid : Nat) (starttime : Option Nat)
  | persisting (pid : Nat) (starttime : Option Nat)
  -- `rm`, with the rounds it has left
  | removing (force : Bool) (rounds : Nat) (copy : Container)
  | intending (force : Bool) (rounds : Nat) (pid : Nat) (starttime : Option Nat)
  | killed (force : Bool) (rounds : Nat) (pid : Nat) (starttime : Option Nat)
  | unlinking (force : Bool) (rounds : Nat)
  | done
deriving DecidableEq

inductive Act where
  | run (opts : RunOpts)
  | start
  | stop
  | remove (force : Bool)
  | inspect (frozen : Bool) (now : Nat)
  | reconcile (frozen : Bool) (now : Nat)
  | reassert
  | clone (process : Process) (mountPending : Bool)
  | publish
  | create
  | reap (status : WaitStatus) (oomBefore oomAfter : Option Nat) (now : Nat)
  | save
  | recordExit
  | decide
  | resume
  | mark
  | signal
  | settle
  | persist
  | approach
  | intend
  | unlink
  | crash

def removeRounds : Nat := 3

/-- The commands that begin by finding the record. -/
def World.find (w : World) (begun : Container → Stage) : World × Stage :=
  match w.record with
  | none => (w, .done)
  | some cur => (w, begun cur)

/-- `reconcile_with_diagnostics` past its first look: the copy becomes the record as the
update left it, or stays when there is no record.
-/
def reconcileRecord (w : World) (frozen : Bool) (now : Nat) (copy : Container)
    : World × Stage :=
  let next := w.update (reconcileStatus w.table frozen now)
  (next, .reconciled (next.record.getD copy))

/-- `start` refuses a container that reads as running, and otherwise withdraws the stop that
was asked for before it launches.
-/
def reassertDesired (w : World) (copy : Container) : World × Stage :=
  if copy.status = .running ∨ copy.status = .paused then (w, .done)
  else
    (w.update (fun cur => some { cur with stoppedByUser := false }),
      .launching ⟨true, .supervisor (copy.restartPolicy.getD "") 0⟩
        { copy with stoppedByUser := false })

/-- The clone of the init, at a pid and a start time no process had before. -/
def cloneInit (w : World) (launch : Launch) (copy : Container) (process : Process)
    (mountPending : Bool) : World × Stage :=
  if process ∈ w.born ∨ (w.table process.pid).isSome then (w, .launching launch copy)
  else
    ({ w with table := w.table.place process, born := process :: w.born },
      .cloned launch process { markRunning copy process with mountPending })

/-- The stage a start that published goes on to. -/
def Launch.published (launch : Launch) (process : Process) (copy : Container) : Stage :=
  match launch.parent with
  | .detached => .done
  | _ => .waiting launch process copy

/-- A refused start kills what it cloned and collects it. -/
def World.discard (w : World) (process : Process) : World :=
  { w with table := w.table.release process }

/-- `publish_or_discard`. A first publish finds no record and saves it in a step of its own.
-/
def publishOrDiscard (w : World) (launch : Launch) (process : Process) (copy : Container)
    : World × Stage :=
  match w.record with
  | none =>
      if launch.replacesRecord then (w.discard process, .done)
      else (w, .creating launch process copy)
  | some cur =>
      if publishWouldOrphan w.table cur (copy.pid.getD 0) copy.pidStarttime then
        (w.discard process, .done)
      else
        ({ w with record := some copy, published := process :: w.published },
          launch.published process copy)

def createRecord (w : World) (launch : Launch) (process : Process) (copy : Container)
    : World × Stage :=
  ({ w.save copy with published := process :: w.published, phase := .used },
    launch.published process copy)

/-- The stage a parent goes on to once its child was collected. -/
def Launch.waited (launch : Launch) (copy : Container) (status : Status) (oom : Bool)
    (now : Nat) : Stage :=
  match launch.parent with
  | .foreground => .saving (endForeground copy status oom now)
  | .detached => .done
  | .supervisor policy restarts => .recording policy restarts copy status oom now

/-- The parent's `waitpid`, which returns once its child is a zombie and collects it. -/
def reapChild (w : World) (launch : Launch) (process : Process) (copy : Container)
    (waited : WaitStatus) (oomBefore oomAfter : Option Nat) (now : Nat) : World × Stage :=
  if w.table process.pid = some ⟨process.starttime, true⟩ then
    let status := waitToStatus waited
    (w.discard process, launch.waited copy status (diedOfOom status oomBefore oomAfter) now)
  else (w, .waiting launch process copy)

/-- The update of `wait_and_record`. -/
def recordEnd (w : World) (policy : String) (restarts : Nat) (copy : Container)
    (status : Status) (oom : Bool) (now : Nat) : World × Stage :=
  match copy.pid with
  | none => (w, .done)
  | some pid =>
      (w.update (recordExit · pid copy.pidStarttime status oom now),
        .deciding policy restarts status)

/-- The policy, and the record before the backoff. -/
def decideRestart (w : World) (policy : String) (restarts : Nat) (status : Status) : Stage :=
  if shouldRestart policy status restarts && resumeRestart w.table w.record then
    .backingOff policy (restarts + 1)
  else .done

/-- The record after the backoff, from which the restart is made. -/
def resumeLaunch (w : World) (policy : String) (restarts : Nat) : Stage :=
  match w.record with
  | none => .done
  | some cur =>
      if resumeRestart w.table (some cur) then
        .launching ⟨true, .supervisor policy restarts⟩ cur
      else .done

/-- `stop_waiting` up to its wait, on the copy `cmd_stop` read before the mark. -/
def signalStop (w : World) (copy : Container) : Stage :=
  match copy.pid with
  | none => .done
  | some pid =>
      if safeToSignal w.table pid copy.pidStarttime then .signalled pid copy.pidStarttime
      else .persisting pid copy.pidStarttime

/-- One round of `remove_waiting` up to its wait. -/
def approachRemoval (w : World) (force : Bool) (rounds : Nat) (copy : Container) : Stage :=
  match copy.pid with
  | none => .unlinking force rounds
  | some pid =>
      if safeToSignal w.table pid copy.pidStarttime then
        if force then .intending force rounds pid copy.pidStarttime else .done
      else .unlinking force rounds

/-- `remove_unless`, and the next round when a newer incarnation kept the record. -/
def unlinkRecord (w : World) (force : Bool) (rounds : Nat) : World × Stage :=
  match w.record with
  | none => (w, .done)
  | some cur =>
      if cur.stillRunning w.table then
        (w, if 1 < rounds then .removing force (rounds - 1) cur else .done)
      else ({ w with record := none, removed := true }, .done)

/-- One step of a command. An act that is not the stage's next one changes nothing. -/
def advance (i : Nat) (w : World) (stage : Stage) : Act → World × Stage
  | .run opts =>
      match stage, w.phase with
      | .idle, .unused =>
          ({ w with phase := .starting i }, .launching ⟨false, opts.parent⟩ opts.container)
      | stage, _ => (w, stage)
  | .start =>
      match stage with
      | .idle => w.find .found
      | stage => (w, stage)
  | .stop =>
      match stage with
      | .idle => w.find .stopping
      | stage => (w, stage)
  | .remove force =>
      match stage with
      | .idle => w.find (.removing force removeRounds)
      | stage => (w, stage)
  | .inspect frozen now =>
      match stage with
      | .found copy =>
          match reconcileStatus w.table frozen now copy with
          | none => (w, .reconciled copy)
          | some changed => (w, .reconciling changed)
      | stage => (w, stage)
  | .reconcile frozen now =>
      match stage with
      | .reconciling copy => reconcileRecord w frozen now copy
      | stage => (w, stage)
  | .reassert =>
      match stage with
      | .reconciled copy => reassertDesired w copy
      | stage => (w, stage)
  | .clone process mountPending =>
      match stage with
      | .launching launch copy => cloneInit w launch copy process mountPending
      | stage => (w, stage)
  | .publish =>
      match stage with
      | .cloned launch process copy => publishOrDiscard w launch process copy
      | stage => (w, stage)
  | .create =>
      match stage with
      | .creating launch process copy => createRecord w launch process copy
      | stage => (w, stage)
  | .reap waited oomBefore oomAfter now =>
      match stage with
      | .waiting launch process copy =>
          reapChild w launch process copy waited oomBefore oomAfter now
      | stage => (w, stage)
  | .save =>
      match stage with
      | .saving copy => (w.save copy, .done)
      | stage => (w, stage)
  | .recordExit =>
      match stage with
      | .recording policy restarts copy status oom now =>
          recordEnd w policy restarts copy status oom now
      | stage => (w, stage)
  | .decide =>
      match stage with
      | .deciding policy restarts status => (w, decideRestart w policy restarts status)
      | stage => (w, stage)
  | .resume =>
      match stage with
      | .backingOff policy restarts => (w, resumeLaunch w policy restarts)
      | stage => (w, stage)
  | .mark =>
      match stage with
      | .stopping copy =>
          (w.update (fun cur => some { cur with stoppedByUser := true }), .stopMarked copy)
      | stage => (w, stage)
  | .signal =>
      match stage with
      | .stopMarked copy => (w, signalStop w copy)
      | stage => (w, stage)
  | .settle =>
      match stage with
      | .signalled pid starttime =>
          (w, if processGone w.table pid starttime then .persisting pid starttime else .done)
      | .killed force rounds pid starttime =>
          (w, if processGone w.table pid starttime then .unlinking force rounds else .done)
      | stage => (w, stage)
  | .persist =>
      match stage with
      | .persisting pid starttime => (w.update (recordStop pid starttime), .done)
      | stage => (w, stage)
  | .approach =>
      match stage with
      | .removing force rounds copy => (w, approachRemoval w force rounds copy)
      | stage => (w, stage)
  | .intend =>
      match stage with
      | .intending force rounds pid starttime =>
          (w.update recordRemovalIntent, .killed force rounds pid starttime)
      | stage => (w, stage)
  | .unlink =>
      match stage with
      | .unlinking force rounds => unlinkRecord w force rounds
      | stage => (w, stage)
  -- The command is killed, or ends on an error of its own, wherever it stands.
  | .crash =>
      match stage with
      | .idle => (w, .idle)
      | _ => (w, .done)

/-- What happens to the world without these commands. -/
inductive Outside where
  /-- A process exits, of its own accord or of a signal. -/
  | exit (process : Process)
  /-- The parent of an exited process collects it, or `init` does. -/
  | collect (process : Process)
  /-- Another process of the host takes a free pid. -/
  | occupy (process : Process)
  | rename (name : String)
  /-- Any other `update` of what the container is set to. -/
  | configure (restartPolicy : Option String) (settings : List (String × String))

def stir (w : World) : Outside → World
  | .exit process => { w with table := w.table.exit process }
  | .collect process =>
      if w.table process.pid = some ⟨process.starttime, true⟩ then w.discard process else w
  | .occupy process =>
      if process ∈ w.born ∨ (w.table process.pid).isSome then w
      else { w with table := w.table.place process, born := process :: w.born }
  | .rename name => w.update (fun cur => some { cur with name })
  | .configure restartPolicy settings =>
      w.update (fun cur => some { cur with restartPolicy, settings })

def lifecycle : System World Stage Act Outside := ⟨advance, stir⟩

/-- A fresh id, or a container that was created and never started; no command is under way.
-/
structure Initial (state : State World Stage) : Prop where
  ops : ∀ i, state.ops i = .idle
  published : state.world.published = []
  removed : state.world.removed = false
  fresh : (state.world.phase = .unused ∧ state.world.record = none)
    ∨ (state.world.phase = .used ∧ ∃ c, state.world.record = some c ∧ c.pid = none)

end Delonix.Lifecycle
