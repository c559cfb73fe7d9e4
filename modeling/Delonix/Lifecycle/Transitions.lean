import Delonix.Lifecycle.Operations

/-! What one step of a command can do, said once.
The invariants of whole runs are proved over this relation, so they need not look into the
step function again.
-/

namespace Delonix.Lifecycle

/-- The steps a command of operation `i` can take, with what each one found. -/
inductive Transition (i : Nat) (w : World) : Stage → Act → World → Stage → Prop where
  | unmoved {stage : Stage} {act : Act} : Transition i w stage act w stage
  | ended {stage : Stage} {act : Act} : Transition i w stage act w .done
  | ran {opts : RunOpts} (unused : w.phase = .unused)
      : Transition i w .idle (.run opts) { w with phase := .starting i }
        (.launching ⟨false, opts.parent⟩ opts.container)
  | startFound {cur : Container} : Transition i w .idle .start w (.found cur)
  | stopFound {cur : Container} (found : w.record = some cur)
      : Transition i w .idle .stop w (.stopping cur)
  | removeFound {force : Bool} {cur : Container}
      : Transition i w .idle (.remove force) w (.removing force removeRounds cur)
  | inspected {copy : Container} {frozen : Bool} {now : Nat}
      : Transition i w (.found copy) (.inspect frozen now) w (.reconciled copy)
  | outdated {copy changed : Container} {frozen : Bool} {now : Nat}
      : Transition i w (.found copy) (.inspect frozen now) w (.reconciling changed)
  | reconciled {copy cur : Container} {frozen : Bool} {now : Nat}
      : Transition i w (.reconciling copy) (.reconcile frozen now)
        (w.update (reconcileStatus w.table frozen now)) (.reconciled cur)
  | reasserted {copy : Container} {policy : String}
      : Transition i w (.reconciled copy) .reassert
        (w.update (fun cur => some { cur with stoppedByUser := false }))
        (.launching ⟨true, .supervisor policy 0⟩ { copy with stoppedByUser := false })
  | cloned {launch : Launch} {copy : Container} {process : Process} {mountPending : Bool}
      (fresh : process ∉ w.born)
      : Transition i w (.launching launch copy) (.clone process mountPending)
        { w with table := w.table.place process, born := process :: w.born }
        (.cloned launch process { markRunning copy process with mountPending })
  | refused {launch : Launch} {process : Process} {copy : Container}
      : Transition i w (.cloned launch process copy) .publish (w.discard process) .done
  | unrecorded {launch : Launch} {process : Process} {copy : Container}
      (first : launch.replacesRecord = false)
      : Transition i w (.cloned launch process copy) .publish w (.creating launch process copy)
  | published {launch : Launch} {process : Process} {copy cur : Container}
      (found : w.record = some cur)
      (allowed : publishWouldOrphan w.table cur (copy.pid.getD 0) copy.pidStarttime = false)
      : Transition i w (.cloned launch process copy) .publish
        { w with record := some copy, published := process :: w.published }
        (launch.published process copy)
  | created {launch : Launch} {process : Process} {copy : Container}
      : Transition i w (.creating launch process copy) .create
        { w.save copy with published := process :: w.published, phase := .used }
        (launch.published process copy)
  | reaped {launch : Launch} {process : Process} {copy : Container} {waited : WaitStatus}
      {before after : Option Nat} {now : Nat} {stage : Stage}
      (zombie : w.table process.pid = some ⟨process.starttime, true⟩)
      (next : stage = launch.waited copy (waitToStatus waited)
        (diedOfOom (waitToStatus waited) before after) now)
      : Transition i w (.waiting launch process copy) (.reap waited before after now)
        (w.discard process) stage
  | saved {copy : Container} : Transition i w (.saving copy) .save (w.save copy) .done
  | recorded {policy : String} {restarts : Nat} {copy : Container} {status : Status}
      {oom : Bool} {now pid : Nat} (named : copy.pid = some pid)
      : Transition i w (.recording policy restarts copy status oom now) .recordExit
        (w.update (recordExit · pid copy.pidStarttime status oom now))
        (.deciding policy restarts status)
  | decided {policy : String} {restarts : Nat} {status : Status}
      : Transition i w (.deciding policy restarts status) .decide w
        (.backingOff policy (restarts + 1))
  | resumed {policy : String} {restarts : Nat} {cur : Container}
      (resumes : resumeRestart w.table (some cur) = true)
      : Transition i w (.backingOff policy restarts) .resume w
        (.launching ⟨true, .supervisor policy restarts⟩ cur)
  | marked {copy : Container}
      : Transition i w (.stopping copy) .mark
        (w.update (fun cur => some { cur with stoppedByUser := true })) (.stopMarked copy)
  | signalled {copy : Container} {pid : Nat} (named : copy.pid = some pid)
      : Transition i w (.stopMarked copy) .signal w (.signalled pid copy.pidStarttime)
  | unreachable {copy : Container} {pid : Nat} (named : copy.pid = some pid)
      (silent : safeToSignal w.table pid copy.pidStarttime = false)
      : Transition i w (.stopMarked copy) .signal w (.persisting pid copy.pidStarttime)
  | settled {pid : Nat} {starttime : Option Nat}
      (gone : processGone w.table pid starttime = true)
      : Transition i w (.signalled pid starttime) .settle w (.persisting pid starttime)
  | persisted {pid : Nat} {starttime : Option Nat}
      : Transition i w (.persisting pid starttime) .persist
        (w.update (recordStop pid starttime)) .done
  | approached {force : Bool} {rounds pid : Nat} {copy : Container}
      : Transition i w (.removing force rounds copy) .approach w
        (.intending force rounds pid copy.pidStarttime)
  | unopposed {force : Bool} {rounds : Nat} {copy : Container}
      : Transition i w (.removing force rounds copy) .approach w (.unlinking force rounds)
  | intended {force : Bool} {rounds pid : Nat} {starttime : Option Nat}
      : Transition i w (.intending force rounds pid starttime) .intend
        (w.update recordRemovalIntent) (.killed force rounds pid starttime)
  | outlived {force : Bool} {rounds pid : Nat} {starttime : Option Nat}
      : Transition i w (.killed force rounds pid starttime) .settle w
        (.unlinking force rounds)
  | again {force : Bool} {rounds : Nat} {cur : Container}
      : Transition i w (.unlinking force rounds) .unlink w (.removing force (rounds - 1) cur)
  | unlinked {force : Bool} {rounds : Nat} {cur : Container} (found : w.record = some cur)
      (still : cur.stillRunning w.table = false)
      : Transition i w (.unlinking force rounds) .unlink
        { w with record := none, removed := true } .done

theorem publishOrDiscard_transition (i : Nat) (w : World) (launch : Launch)
    (process : Process) (copy : Container)
    : Transition i w (.cloned launch process copy) .publish
      (publishOrDiscard w launch process copy).1 (publishOrDiscard w launch process copy).2 := by
  unfold publishOrDiscard
  split
  case h_1 =>
    split
    case isTrue => exact .refused
    case isFalse first => exact .unrecorded (by simpa using first)
  case h_2 cur found =>
    split
    case isTrue => exact .refused
    case isFalse allowed => exact .published found (by simpa using allowed)

theorem signalStop_transition (i : Nat) (w : World) (copy : Container)
    : Transition i w (.stopMarked copy) .signal w (signalStop w copy) := by
  unfold signalStop
  split
  case h_1 => exact .ended
  case h_2 pid named =>
    split
    case isTrue => exact .signalled named
    case isFalse silent => exact .unreachable named (by simpa using silent)

theorem unlinkRecord_transition (i : Nat) (w : World) (force : Bool) (rounds : Nat)
    : Transition i w (.unlinking force rounds) .unlink (unlinkRecord w force rounds).1
      (unlinkRecord w force rounds).2 := by
  unfold unlinkRecord
  split
  case h_1 => exact .ended
  case h_2 cur found =>
    split
    case isTrue =>
      simp only
      split
      · exact .again
      · exact .ended
    case isFalse still => exact .unlinked found (by simpa using still)

/-- Every step of the model is one of the transitions. -/
theorem advance_transition (i : Nat) (w : World) (stage : Stage) (act : Act)
    : Transition i w stage act (advance i w stage act).1 (advance i w stage act).2 := by
  cases act with
  | run opts =>
      simp only [advance]
      split
      case h_1 unused => exact .ran unused
      case h_2 => exact .unmoved
  | start =>
      simp only [advance, World.find]
      split
      · split
        · exact .ended
        · exact .startFound
      · exact .unmoved
  | stop =>
      simp only [advance, World.find]
      split
      · split
        case h_1 => exact .ended
        case h_2 cur found => exact .stopFound found
      · exact .unmoved
  | remove force =>
      simp only [advance, World.find]
      split
      · split
        · exact .ended
        · exact .removeFound
      · exact .unmoved
  | inspect frozen now =>
      simp only [advance]
      split
      · split
        · exact .inspected
        · exact .outdated
      · exact .unmoved
  | reconcile frozen now =>
      simp only [advance, reconcileRecord]
      split
      · exact .reconciled
      · exact .unmoved
  | reassert =>
      simp only [advance, reassertDesired]
      split
      · split
        · exact .ended
        · exact .reasserted
      · exact .unmoved
  | clone process mountPending =>
      simp only [advance, cloneInit]
      split
      · split
        case isTrue => exact .unmoved
        case isFalse fresh => exact .cloned (fun was => fresh (.inl was))
      · exact .unmoved
  | publish =>
      simp only [advance]
      split
      · exact publishOrDiscard_transition i w _ _ _
      · exact .unmoved
  | create =>
      simp only [advance, createRecord]
      split
      · exact .created
      · exact .unmoved
  | reap waited before after now =>
      simp only [advance, reapChild]
      split
      · split
        case isTrue zombie => exact .reaped zombie rfl
        case isFalse => exact .unmoved
      · exact .unmoved
  | save =>
      simp only [advance]
      split
      · exact .saved
      · exact .unmoved
  | recordExit =>
      simp only [advance, recordEnd]
      split
      · split
        case h_1 => exact .ended
        case h_2 pid named => exact .recorded named
      · exact .unmoved
  | decide =>
      simp only [advance, decideRestart]
      split
      · split
        · exact .decided
        · exact .ended
      · exact .unmoved
  | resume =>
      simp only [advance, resumeLaunch]
      split
      · split
        · exact .ended
        · split
          case isTrue resumes => exact .resumed resumes
          case isFalse => exact .ended
      · exact .unmoved
  | mark =>
      simp only [advance]
      split
      · exact .marked
      · exact .unmoved
  | signal =>
      simp only [advance]
      split
      · exact signalStop_transition i w _
      · exact .unmoved
  | settle =>
      simp only [advance]
      split
      · split
        case isTrue gone => exact .settled gone
        case isFalse => exact .ended
      · split
        · exact .outlived
        · exact .ended
      · exact .unmoved
  | persist =>
      simp only [advance]
      split
      · exact .persisted
      · exact .unmoved
  | approach =>
      simp only [advance, approachRemoval]
      split
      · split
        · exact .unopposed
        · split
          · split
            · exact .approached
            · exact .ended
          · exact .unopposed
      · exact .unmoved
  | intend =>
      simp only [advance]
      split
      · exact .intended
      · exact .unmoved
  | unlink =>
      simp only [advance]
      split
      · exact unlinkRecord_transition i w _ _
      · exact .unmoved
  | crash =>
      simp only [advance]
      split
      · exact .unmoved
      · exact .ended

end Delonix.Lifecycle
