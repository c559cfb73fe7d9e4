import Delonix.Lifecycle.Identity

/-! A stop that succeeded stays stopped.
The supervisor asks for the desired state before and after its backoff, and then clones and
publishes the copy it loaded. Its publish writes that copy whole, so what decides is whether
the record still agrees with the copy by then.
-/

namespace Delonix.Lifecycle

open Delonix.Library.Runs
open Delonix.Library.Interleaving

/-- A start the restart policy makes, not a command. -/
def Launch.policyRestart (launch : Launch) : Bool :=
  match launch.parent with
  | .supervisor _ restarts => 0 < restarts
  | _ => false

/-- A command's own start is under way: from the record it found to its publish. -/
def Stage.starting : Stage → Bool
  | .found _ => true
  | .reconciling _ => true
  | .reconciled _ => true
  | .launching launch _ => !launch.policyRestart
  | .cloned launch _ _ => !launch.policyRestart
  | .creating _ _ _ => true
  | _ => false

/-- The record a policy restart publishes over and the copy it publishes, when the step is
such a publish and it is not refused.
-/
def policyPublish (state : State World Stage)
    : Action Act Outside → Option (Container × Container)
  | .op i .publish =>
      match state.ops i, state.world.record with
      | .cloned launch _ copy, some cur =>
          if launch.policyRestart
              && !publishWouldOrphan state.world.table cur (copy.pid.getD 0) copy.pidStarttime
          then some (cur, copy) else none
      | _, _ => none
  | _ => none

/-- The record a policy restart publishes over still has the name, the stop mark and the
settings that the supervisor's load after the backoff read.
-/
def Unchanged (state : State World Stage) (action : Action Act Outside) : Prop :=
  ∀ pair ∈ policyPublish state action, pair.1.Agrees pair.2

instance (state : State World Stage) (action : Action Act Outside)
    : Decidable (Unchanged state action) :=
  inferInstanceAs (Decidable (∀ pair ∈ policyPublish state action, pair.1.Agrees pair.2))

def Act.foreground : Act → Bool
  | .run opts => opts.parent == .foreground
  | _ => false

/-- Every `run` is detached: the foreground has no supervisor. -/
def Detached (_ : State World Stage) : Action Act Outside → Prop
  | .op _ act => act.foreground = false
  | .outside _ => True

instance (state : State World Stage) : DecidablePred (Detached state)
  | .op _ act => inferInstanceAs (Decidable (act.foreground = false))
  | .outside _ => .isTrue trivial

/-- `cmd_stop` of operation `i` returns `Ok` with this step: it finds nothing running on its
copy, or it wrote the stop into the record.
-/
def stopReturnsOk (i : Nat) (state : State World Stage) : Action Act Outside → Bool
  | .op j .signal =>
      match state.ops j with
      | .stopMarked copy => i = j && copy.pid.isNone
      | _ => false
  | .op j .persist =>
      match state.ops j with
      | .persisting _ _ => i = j && state.world.record.isSome
      | _ => false
  | _ => false

/-- No command's start acts from the moment operation `i` began. -/
def NoStart (i : Nat) (state : State World Stage) : Action Act Outside → Prop
  | .op j act => state.ops i ≠ .idle →
      (state.ops j).starting = false
        ∧ (advance j state.world (state.ops j) act).2.starting = false
  | .outside _ => True

instance (i : Nat) (state : State World Stage) : DecidablePred (NoStart i state)
  | .op j act => inferInstanceAs (Decidable (state.ops i ≠ .idle →
      (state.ops j).starting = false
        ∧ (advance j state.world (state.ops j) act).2.starting = false))
  | .outside _ => .isTrue trivial

/-- The record, if there is one, carries the stop mark. -/
def Flagged (w : World) : Prop := ∀ cur, w.record = some cur → cur.stoppedByUser = true

/-- After a `stop` that returned `Ok`, and with no start from its beginning on, no policy
restart publishes and the record keeps its mark.
-/
def StaysStopped (history : List (Event (State World Stage) (Action Act Outside))) : Prop :=
  ∀ i newer event older, history = newer ++ event :: older →
    stopReturnsOk i event.before event.action = true → Meets (NoStart i) history →
      Flagged event.after.world
        ∧ ∀ later ∈ newer, policyPublish later.before later.action = none
          ∧ Flagged later.after.world

/-- No publish of a policy restart puts a name, a mark or a setting back. -/
def KeepsUpdates (history : List (Event (State World Stage) (Action Act Outside))) : Prop :=
  ∀ event ∈ history, ∀ cur copy, policyPublish event.before event.action = some (cur, copy) →
    ∃ next, event.after.world.record = some next ∧ cur.Agrees next

-----------------------------------------------------------------------------------------
-- What a stage keeps

/-- No foreground in sight, and a policy restart carries a copy without the stop mark: it
checked the mark when it loaded it.
-/
def Tidy : Stage → Prop
  | .launching launch copy =>
      launch.parent ≠ .foreground ∧ (launch.policyRestart = true → copy.stoppedByUser = false)
  | .cloned launch _ copy =>
      launch.parent ≠ .foreground ∧ (launch.policyRestart = true → copy.stoppedByUser = false)
  | .creating launch _ _ => launch.parent ≠ .foreground
  | .waiting launch _ _ => launch.parent ≠ .foreground
  | .saving _ => False
  | _ => True

theorem tidy_published {launch : Launch} {process : Process} {copy : Container}
    (background : launch.parent ≠ .foreground)
    : Tidy (launch.published process copy) := by
  unfold Launch.published
  split
  · trivial
  · exact background

theorem tidy_waited {launch : Launch} {copy : Container} {status : Status} {oom : Bool}
    {now : Nat} (background : launch.parent ≠ .foreground)
    : Tidy (launch.waited copy status oom now) := by
  unfold Launch.waited
  split
  case h_1 foreground => exact absurd foreground background
  case h_2 => trivial
  case h_3 => trivial

theorem RunOpts.not_policyRestart (opts : RunOpts) (replacesRecord : Bool)
    : Launch.policyRestart ⟨replacesRecord, opts.parent⟩ = false := by
  unfold RunOpts.parent
  split
  · rfl
  · split <;> rfl

theorem resumeRestart_unmarked {table : Table} {cur : Container}
    (resumes : resumeRestart table (some cur) = true)
    : cur.stoppedByUser = false := by
  simp only [resumeRestart, Bool.and_eq_true, Bool.not_eq_eq_eq_not, Bool.not_true] at resumes
  exact resumes.1

theorem Transition.tidy {i : Nat} {w next : World} {stage moved : Stage} {act : Act}
    (step : Transition i w stage act next moved) (tidy : Tidy stage)
    (detached : ∀ opts, act = .run opts → opts.parent ≠ .foreground)
    : Tidy moved := by
  cases step with
  | unmoved => exact tidy
  | @ran opts unused =>
      refine ⟨detached opts rfl, ?_⟩
      intro restart
      rw [opts.not_policyRestart] at restart
      cases restart
  | reasserted => exact ⟨by simp, fun _ => rfl⟩
  | cloned fresh => exact tidy
  | unrecorded first => exact tidy.1
  | published found allowed => exact tidy_published tidy.1
  | created => exact tidy_published tidy
  | reaped zombie next =>
      rw [next]
      exact tidy_waited tidy
  | resumed resumes => exact ⟨by simp, fun _ => resumeRestart_unmarked resumes⟩
  | _ => trivial

/-- A run with detached starts only has no closing save. -/
theorem Tidy.safeSave {state : State World Stage} (tidy : ∀ i, Tidy (state.ops i))
    (action : Action Act Outside)
    : SafeSave state action := by
  rcases action with ⟨i, act⟩ | event
  · cases act with
    | save =>
        have stage := tidy i
        simp only [SafeSave]
        split
        case h_1 at' =>
          rw [at'] at stage
          exact stage.elim
        case h_2 => trivial
    | _ => trivial
  · trivial

-----------------------------------------------------------------------------------------
-- The mark of a stop

/-- The stages of a `stop` past its mark. -/
def Stage.pastMark : Stage → Bool
  | .stopMarked _ => true
  | .signalled _ _ => true
  | .persisting _ _ => true
  | _ => false

theorem not_pastMark_published (launch : Launch) (process : Process) (copy : Container)
    : (launch.published process copy).pastMark ≠ true := by
  unfold Launch.published
  split <;> simp [Stage.pastMark]

theorem not_pastMark_waited (launch : Launch) (copy : Container) (status : Status) (oom : Bool)
    (now : Nat)
    : (launch.waited copy status oom now).pastMark ≠ true := by
  unfold Launch.waited
  split <;> simp [Stage.pastMark]

/-- A `stop` gets past its mark only by making it. -/
theorem Transition.pastMark {i : Nat} {w next : World} {stage moved : Stage} {act : Act}
    (step : Transition i w stage act next moved) (past : moved.pastMark = true)
    : stage.pastMark = true
      ∨ next = w.update (fun cur => some { cur with stoppedByUser := true }) := by
  cases step with
  | unmoved => exact .inl past
  | marked => exact .inr rfl
  | signalled named => exact .inl rfl
  | unreachable named silent => exact .inl rfl
  | settled gone => exact .inl rfl
  | published found allowed => exact absurd past (not_pastMark_published _ _ _)
  | created => exact absurd past (not_pastMark_published _ _ _)
  | reaped zombie next =>
      rw [next] at past
      exact absurd past (not_pastMark_waited _ _ _ _ _)
  | _ => cases past

theorem Transition.not_idle {i : Nat} {w next : World} {stage moved : Stage} {act : Act}
    (step : Transition i w stage act next moved) (begun : stage ≠ .idle)
    : moved ≠ .idle := by
  intro idle
  cases step with
  | unmoved => exact begun idle
  | published found allowed =>
      unfold Launch.published at idle
      split at idle <;> cases idle
  | created =>
      unfold Launch.published at idle
      split at idle <;> cases idle
  | reaped zombie next =>
      rw [next] at idle
      unfold Launch.waited at idle
      split at idle <;> cases idle
  | _ => cases idle

/-- An update keeps the mark when its closure does. -/
theorem Flagged.update {w : World} (flagged : Flagged w) {f : Container → Option Container}
    (keeps : ∀ cur next, f cur = some next → cur.stoppedByUser = true →
      next.stoppedByUser = true)
    : Flagged (w.update f) := by
  rcases w.update_cases f with same | ⟨cur, next, found, wrote, same⟩
  · rw [same]
    exact flagged
  · rw [same]
    intro cur' is
    cases is
    exact keeps cur next wrote (flagged cur found)

theorem flagged_mark (w : World)
    : Flagged (w.update (fun cur => some { cur with stoppedByUser := true })) := by
  intro cur is
  unfold World.update at is
  split at is
  case h_1 missing => cases missing.symm.trans is
  case h_2 =>
    cases is
    rfl

/-- With no start in it and nothing changed under a policy restart, a step keeps the mark. -/
theorem Transition.flagged {i : Nat} {w next : World} {stage moved : Stage} {act : Act}
    (step : Transition i w stage act next moved) (flagged : Flagged w) (tidy : Tidy stage)
    (noStart : stage.starting = false)
    (unchanged : ∀ launch process copy cur, stage = .cloned launch process copy →
      act = .publish → launch.policyRestart = true → w.record = some cur →
      publishWouldOrphan w.table cur (copy.pid.getD 0) copy.pidStarttime = false →
      cur.Agrees copy)
    : Flagged next := by
  cases step with
  | reconciled =>
      apply flagged.update
      intro cur next wrote mark
      rw [← (reconcileStatus_agrees wrote).2.1]
      exact mark
  | reasserted => cases noStart
  | @published launch process copy cur found allowed =>
      -- the copy was loaded without the mark, and the record agrees with it
      have restart : launch.policyRestart = true := by simpa [Stage.starting] using noStart
      have agrees := unchanged launch process copy cur rfl rfl restart found allowed
      have marked := flagged cur found
      rw [agrees.2.1, tidy.2 restart] at marked
      cases marked
  | created => cases noStart
  | saved => exact tidy.elim
  | recorded named =>
      apply flagged.update
      intro cur next wrote mark
      rw [← (recordExit_agrees wrote).2.1]
      exact mark
  | marked => exact flagged_mark w
  | persisted =>
      apply flagged.update
      intro cur next wrote mark
      rw [← (recordStop_agrees wrote).2.1]
      exact mark
  | intended =>
      apply flagged.update
      intro cur next wrote mark
      rw [recordRemovalIntent, if_pos mark] at wrote
      cases wrote
  | unlinked found still =>
      intro cur is
      cases is
  | _ => exact flagged

theorem stir_flagged {w : World} (flagged : Flagged w) (event : Outside)
    : Flagged (stir w event) := by
  cases event with
  | exit process => exact flagged
  | collect process =>
      simp only [stir]
      split <;> exact flagged
  | occupy process =>
      simp only [stir]
      split <;> exact flagged
  | rename name =>
      apply flagged.update
      intro cur next wrote mark
      cases wrote
      exact mark
  | configure restartPolicy settings =>
      apply flagged.update
      intro cur next wrote mark
      cases wrote
      exact mark

-----------------------------------------------------------------------------------------
-- Whole runs

/-- The condition at a publish of a policy restart, on the stage that publishes. -/
theorem Unchanged.agrees {state : State World Stage} {i : Nat} {act : Act}
    (unchanged : Unchanged state (.op i act)) {launch : Launch} {process : Process}
    {copy cur : Container} (at' : state.ops i = .cloned launch process copy)
    (publishes : act = .publish) (restart : launch.policyRestart = true)
    (found : state.world.record = some cur)
    (allowed : publishWouldOrphan state.world.table cur (copy.pid.getD 0) copy.pidStarttime
      = false)
    : cur.Agrees copy := by
  apply unchanged (cur, copy)
  rw [publishes]
  simp [policyPublish, at', found, restart, allowed]

/-- What every reachable state satisfies while no `run` is in the foreground. -/
structure Supervised (state : State World Stage) : Prop where
  fitting : Fitting Consistent Fits state
  tidy : ∀ i, Tidy (state.ops i)

theorem Supervised.perform {state : State World Stage} (holds : Supervised state)
    {action : Action Act Outside} (detached : Detached state action)
    : Supervised (lifecycle.perform state action) := by
  refine ⟨fitting_perform holds.fitting (Tidy.safeSave holds.tidy action), ?_⟩
  intro j
  rcases action with ⟨i, act⟩ | event
  · by_cases same : j = i
    · rw [same, System.perform_op_self]
      refine (advance_transition i _ _ act).tidy (holds.tidy i) ?_
      intro opts is
      rw [is] at detached
      simpa [Detached, Act.foreground] using detached
    · rw [System.perform_op_other _ same]
      exact holds.tidy j
  · exact holds.tidy j

theorem Initial.supervised {state : State World Stage} (initial : Initial state)
    : Supervised state := by
  refine ⟨initial.fitting, ?_⟩
  intro i
  rw [initial.ops i]
  trivial

/-- From the beginning of a `stop` on, a step with nothing changed under it keeps the mark. -/
theorem flagged_perform {state : State World Stage} (holds : Supervised state) {i : Nat}
    {action : Action Act Outside} (begun : state.ops i ≠ .idle)
    (noStart : NoStart i state action) (unchanged : Unchanged state action)
    (flagged : Flagged state.world)
    : Flagged (lifecycle.perform state action).world := by
  rcases action with ⟨j, act⟩ | event
  · refine (advance_transition j _ _ act).flagged flagged (holds.tidy j) (noStart begun).1 ?_
    intro launch process copy cur at' publishes restart found allowed
    exact unchanged.agrees at' publishes restart found allowed
  · exact stir_flagged flagged event

/-- The `stop` has marked the record, whether or not it has returned. -/
def Stopping (i : Nat) (history : List (Event (State World Stage) (Action Act Outside)))
    (state : State World Stage) : Prop :=
  (state.ops i).pastMark = true
    ∨ ∃ event ∈ history, stopReturnsOk i event.before event.action = true

theorem pastMark_of_stopReturnsOk {i : Nat} {state : State World Stage}
    {action : Action Act Outside} (returns : stopReturnsOk i state action = true)
    : (state.ops i).pastMark = true := by
  unfold stopReturnsOk at returns
  split at returns
  case h_3 => cases returns
  all_goals
    split at returns
    case h_1 at' =>
      simp only [Bool.and_eq_true, decide_eq_true_eq] at returns
      rw [returns.1, at']
      rfl
    case h_2 => cases returns

theorem not_idle_of_pastMark {stage : Stage} (past : stage.pastMark = true)
    : stage ≠ .idle := by
  intro idle
  rw [idle] at past
  cases past

theorem pastMark_perform {i : Nat} {state : State World Stage} {action : Action Act Outside}
    (past : ((lifecycle.perform state action).ops i).pastMark = true)
    : (state.ops i).pastMark = true
      ∨ Flagged (lifecycle.perform state action).world := by
  rcases action with ⟨j, act⟩ | event
  · by_cases same : i = j
    · rw [same, System.perform_op_self] at past
      rcases (advance_transition j _ _ act).pastMark past with before | wrote
      · rw [same]
        exact .inl before
      · right
        have after : (lifecycle.perform state (.op j act)).world
            = (advance j state.world (state.ops j) act).1 := rfl
        rw [after, wrote]
        exact flagged_mark _
    · rw [System.perform_op_other _ same] at past
      exact .inl past
  · exact .inl past

theorem not_idle_perform {i : Nat} {state : State World Stage} {action : Action Act Outside}
    (begun : state.ops i ≠ .idle)
    : (lifecycle.perform state action).ops i ≠ .idle := by
  rcases action with ⟨j, act⟩ | event
  · by_cases same : i = j
    · subst same
      rw [System.perform_op_self]
      exact (advance_transition i _ _ act).not_idle begun
    · rw [System.perform_op_other _ same]
      exact begun
  · exact begun

/-- Once a `stop` marked the record, the record stays marked as long as no start acts and
nothing changes under a policy restart.
-/
theorem flagged_of_stopping {start state : State World Stage} (initial : Initial start)
    {history : List (Event (State World Stage) (Action Act Outside))}
    (run : Run (StepOf lifecycle.perform) start history state)
    (detached : Meets Detached history) (unchanged : Meets Unchanged history) {i : Nat}
    (noStart : Meets (NoStart i) history)
    : Supervised state
      ∧ (Stopping i history state → state.ops i ≠ .idle ∧ Flagged state.world) := by
  induction run with
  | start =>
      refine ⟨initial.supervised, ?_⟩
      rintro (past | ⟨event, member, _⟩)
      · rw [initial.ops i] at past
        cases past
      · cases member
  | @step older before next action earlier taken ih =>
      obtain ⟨allowed, detached⟩ := meets_cons.mp detached
      obtain ⟨same, unchanged⟩ := meets_cons.mp unchanged
      obtain ⟨quiet, noStart⟩ := meets_cons.mp noStart
      obtain ⟨holds, marked⟩ := ih detached unchanged noStart
      rw [taken]
      refine ⟨holds.perform allowed, ?_⟩
      have carried (stopping : Stopping i older before)
          : (lifecycle.perform before action).ops i ≠ .idle
            ∧ Flagged (lifecycle.perform before action).world := by
        obtain ⟨begun, flagged⟩ := marked stopping
        exact ⟨not_idle_perform begun, flagged_perform holds begun quiet same flagged⟩
      intro stopping
      rcases stopping with past | ⟨event, member, returned⟩
      · rcases pastMark_perform past with already | flagged
        · exact carried (.inl already)
        · exact ⟨not_idle_of_pastMark past, flagged⟩
      · rcases List.mem_cons.mp member with is | earlier
        · rw [is] at returned
          exact carried (.inl (pastMark_of_stopReturnsOk returned))
        · exact carried (.inr ⟨event, earlier, returned⟩)

/-- A publish that `policyPublish` reports leaves its copy as the record. -/
theorem policyPublish_eq_some {state : State World Stage} {action : Action Act Outside}
    {cur copy : Container} (publishes : policyPublish state action = some (cur, copy))
    : ∃ i launch process, state.ops i = .cloned launch process copy
      ∧ launch.policyRestart = true ∧ state.world.record = some cur
      ∧ (lifecycle.perform state action).world.record = some copy := by
  unfold policyPublish at publishes
  split at publishes
  case h_2 => cases publishes
  case h_1 i =>
    split at publishes
    case h_2 => cases publishes
    case h_1 launch process copied found at' is =>
      split at publishes
      case isFalse => cases publishes
      case isTrue allowed =>
        cases publishes
        simp only [Bool.and_eq_true, Bool.not_eq_eq_eq_not, Bool.not_true] at allowed
        refine ⟨i, launch, process, at', allowed.1, is, ?_⟩
        simp [System.perform, lifecycle, advance, at', publishOrDiscard, is, allowed.2]

/-- In a run of detached starts, stops stay and no update is put back exactly when every
policy restart publishes over a record that still agrees with the one it loaded.
-/
theorem staysStopped_keepsUpdates_iff_unchanged {start state : State World Stage}
    {history : List (Event (State World Stage) (Action Act Outside))} (initial : Initial start)
    (run : Run (StepOf lifecycle.perform) start history state)
    (detached : Meets Detached history)
    : StaysStopped history ∧ KeepsUpdates history ↔ Meets Unchanged history := by
  constructor
  · intro ⟨_, keeps⟩ event member pair publishes
    obtain ⟨next, after, agrees⟩ := keeps event member pair.1 pair.2 publishes
    obtain ⟨_, _, _, _, _, _, wrote⟩ := policyPublish_eq_some publishes
    rw [← run.taken member] at wrote
    cases after.symm.trans wrote
    exact agrees
  intro unchanged
  refine ⟨?_, ?_⟩
  · intro i newer event older is returns noStart
    -- every moment from the return on is the end of a run in which the stop returned
    have flagged (later recent : List (Event (State World Stage) (Action Act Outside)))
        {moment : State World Stage} (cut : newer = later ++ recent)
        (upTo : Run (StepOf lifecycle.perform) start (recent ++ event :: older) moment)
        : Supervised moment ∧ Flagged moment.world := by
      have whole : history = later ++ (recent ++ event :: older) := by
        rw [is, cut, List.append_assoc]
      rw [whole] at detached unchanged noStart
      obtain ⟨holds, stopping⟩ :=
        flagged_of_stopping initial upTo detached.older unchanged.older noStart.older
      exact ⟨holds, (stopping (.inr ⟨event, by simp, returns⟩)).2⟩
    rw [is] at run
    refine ⟨(flagged newer [] (List.append_nil _).symm run.upTo).2, ?_⟩
    intro last member
    obtain ⟨later, recent, cut⟩ := List.append_of_mem member
    have split : newer ++ event :: older = later ++ last :: (recent ++ event :: older) := by
      rw [cut, List.append_assoc, List.cons_append]
    rw [split] at run
    refine ⟨?_, (flagged later (last :: recent) cut run.upTo).2⟩
    obtain ⟨holds, marked⟩ := flagged (later ++ [last]) recent (by simpa using cut) run.split.1
    cases publishes : policyPublish last.before last.action with
    | none => rfl
    | some pair =>
        have agrees := unchanged last (by rw [is]; simp [member]) pair publishes
        obtain ⟨j, launch, process, at', restart, found, _⟩ := policyPublish_eq_some publishes
        have tidy := holds.tidy j
        rw [at'] at tidy
        have mark := marked pair.1 found
        rw [agrees.2.1, tidy.2 restart] at mark
        cases mark
  · intro event member cur copy publishes
    obtain ⟨_, _, _, _, _, _, wrote⟩ := policyPublish_eq_some publishes
    rw [← run.taken member] at wrote
    exact ⟨copy, wrote, unchanged event member (cur, copy) publishes⟩

def secondInit : Process := ⟨42, 9, by decide⟩

/-- `run -d --restart always`, whose first init exits, up to the load after the backoff. -/
def crashLoop : List (Action Act Outside) :=
  [.op 0 (.run ⟨"web", "always", true, false, []⟩), .op 0 (.clone firstInit false),
    .op 0 .publish, .op 0 .create, .outside (.exit firstInit),
    .op 0 (.reap (.exited 1) none none 0), .op 0 .recordExit, .op 0 .decide, .op 0 .resume]

/-- The restart is published before the `stop` begins. -/
def lateStop : List (Action Act Outside) :=
  crashLoop ++ [.op 0 (.clone secondInit false), .op 0 .publish, .op 1 .stop, .op 1 .mark,
    .op 1 .signal, .outside (.exit secondInit), .op 1 .settle, .op 1 .persist,
    .op 0 (.reap .signaled none none 0), .op 0 .recordExit, .op 0 .decide]

theorem staysStopped_lateStop
    : StaysStopped (trace lifecycle.perform freshId [] lateStop)
      ∧ KeepsUpdates (trace lifecycle.perform freshId [] lateStop) :=
  (staysStopped_keepsUpdates_iff_unchanged freshId_initial (Run.start.trace lateStop)
    (by decide +kernel)).mpr (by decide +kernel)

/-- The `stop` begins and returns between the supervisor's load and its publish. -/
def stopInWindow : List (Action Act Outside) :=
  crashLoop ++ [.op 1 .stop, .op 1 .mark, .op 1 .signal, .op 0 (.clone secondInit false),
    .op 0 .publish]

theorem stopInWindow_not_staysStopped
    : Initial freshId
      ∧ ∃ history state, Run (StepOf lifecycle.perform) freshId history state
        ∧ Meets Detached history ∧ ¬StaysStopped history ∧ ¬KeepsUpdates history := by
  refine ⟨freshId_initial, _, _, Run.start.trace stopInWindow, by decide +kernel, ?_, ?_⟩
  · intro stays
    have published := (stays 1 [_, _] _ _ rfl rfl (by decide +kernel)).2 _ List.mem_cons_self
    cases published.1
  · intro keeps
    obtain ⟨next, is, agrees⟩ := keeps _ List.mem_cons_self _ _ rfl
    cases is
    cases agrees.2.1

end Delonix.Lifecycle
