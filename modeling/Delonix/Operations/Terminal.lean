import Delonix.Operations.Ledger

/-! Whether a finished operation stays as it ended. A reader reads a record, tests its owner and
writes, in three steps. The owner may finish and exit between the first two, and the reader then
writes over an outcome it never saw.
-/

namespace Delonix.Operations

open Delonix.Library.Interleaving
open Delonix.Library.Runs

variable {proc : Nat → Int × Nat} {o : Nat} {rec : Record}

/-- Where the operation stands, as its record says. -/
def Node.stateOf (node : Node) (id : String) : Option OpState := (node.files id).map Record.state

/-- One operation under way: its record is on disk, call `o` works on it in a process that runs,
and no other call is.
-/
structure Underway (proc : Nat → Int × Nat) (o : Nat) (rec : Record) (state : LedgerState)
    : Prop where
  stored : state.world.files rec.id = some rec
  running : rec.state = .running
  owned : rec.owner = proc o
  alive : state.world.alive (proc o)
  placed : ∀ id r, state.world.files id = some r → r.id = id
  working : state.ops o = .working rec
  idle : ∀ j, j ≠ o → state.ops j = .idle

/-- Only readers come while the operation is under way. -/
def OnlyReaders (_ : LedgerState) : LedgerAction → Prop
  | .op _ (.start (.mutate _ _)) => False
  | _ => True

/-- A reader that finds the owner gone does so before the record says that it succeeded: the
owner did not finish between the reader's read and its test.
-/
def TestsInTime (proc : Nat → Int × Nat) (id : String) (state : LedgerState)
    : LedgerAction → Prop
  | .op i (.go _) =>
      match state.ops i with
      | .testing r _ =>
          state.world.alive (proc i) → r.id = id → r.state = .running →
            ¬ state.world.alive r.owner →
            state.world.stateOf id ≠ some .succeeded
      | _ => True
  | _ => True

/-- The record a step settles, as its reader will report it. -/
def Reports (event : Event LedgerState LedgerAction) (r : Record) : Prop :=
  ∃ i now next, event.action = .op i (.go now)
    ∧ (event.before.ops i = .testing r next ∨ event.before.ops i = .writing r next)
    ∧ event.after.ops i = settledTo r next

/-- What ended stays as it ended, and is reported so. -/
structure Final (id : String) (history : LedgerHistory) : Prop where
  kept : ∀ event ∈ history, ∀ r, event.before.world.files id = some r → r.state ≠ .running →
    event.after.world.stateOf id = some r.state
  reported : ∀ event ∈ history, ∀ r, Reports event r → r.id = id → r.state = .failed →
    event.after.world.stateOf id = some .failed

-----------------------------------------------------------------------------------------
-- What the calls hold
-----------------------------------------------------------------------------------------

/-- A copy some reader holds: of the same owner, and what it says of an end is still so. -/
def Copy (owner : Int × Nat) (id : String) (node : Node) (r : Record) : Prop :=
  r.id = id → r.owner = owner
    ∧ (r.state ≠ .running → node.stateOf id = some r.state)

def Then.copies : Then → List Record
  | .list rest _ => rest
  | _ => []

/-- A record about to be written for an owner that is gone. -/
def Settles (owner : Int × Nat) (id : String) (node : Node) (r : Record) : Prop :=
  r.id = id → r.owner = owner ∧ r.state = .failed ∧ ¬ node.alive owner
    ∧ node.stateOf id ≠ some .succeeded

/-- The owner's own call: while its process runs the record is as it began. -/
def Owns (owner : Int × Nat) (id : String) (node : Node) (r : Record) : Prop :=
  r.id = id ∧ r.owner = owner
    ∧ (node.alive owner → node.stateOf id = some .running)

def StageFits (proc : Nat → Int × Nat) (o : Nat) (id : String) (node : Node) (i : Nat)
    : Stage → Prop
  | .idle => True
  | .returned _ => True
  | .looking _ .alone => True
  | .reading _ next => next.copies = []
  | .listing found => ∀ r ∈ found, Copy (proc o) id node r
  | .testing r next =>
      Copy (proc o) id node r ∧ ∀ other ∈ next.copies, Copy (proc o) id node other
  | .writing r next =>
      Settles (proc o) id node r ∧ ∀ other ∈ next.copies, Copy (proc o) id node other
  | .working r => i = o ∧ Owns (proc o) id node r
  | .finishing r => i = o ∧ Owns (proc o) id node r
  | .looking _ _ => False
  | .pruning _ _ _ => False
  | .removing _ _ _ => False
  | .linking _ _ => False

/-- The record is there, with its owner, and an owner that is gone has exited for good. -/
structure NodeFits (owner : Int × Nat) (id : String) (node : Node) : Prop where
  placed : ∀ id r, node.files id = some r → r.id = id
  stored : ∃ d, node.files id = some d ∧ d.owner = owner
  gone : node.alive owner ∨ ¬ node.alive owner ∧ owner ∈ node.past

section

variable {id : String} {node next : Node} {owner : Int × Nat} {r : Record}

/-- What one step of another call may do to the facts of a call: an end stays, an operation whose
owner is gone does not succeed, no owner comes back and only the owner ends its operation.
-/
structure Gentle (owner : Int × Nat) (id : String) (mine : Prop) (node next : Node) : Prop where
  kept : ∀ s, s ≠ .running → node.stateOf id = some s → next.stateOf id = some s
  unsucceeded : ¬ node.alive owner → node.stateOf id ≠ some .succeeded →
    next.stateOf id ≠ some .succeeded
  exited : next.alive owner → node.alive owner
  begun : mine → next.alive owner → node.stateOf id = some .running →
    next.stateOf id = some .running

theorem Gentle.of_eq {mine : Prop} (files : next.stateOf id = node.stateOf id)
    (exited : next.alive owner → node.alive owner)
    : Gentle owner id mine node next where
  kept s _ is := by rw [files, is]
  unsucceeded _ not := by rwa [files]
  exited := exited
  begun _ _ is := by rw [files, is]

theorem StageFits.carry {i : Nat} {stage : Stage}
    (gentle : Gentle (proc o) id (i = o) node next) (fits : StageFits proc o id node i stage)
    : StageFits proc o id next i stage := by
  have copy {r : Record} (is : Copy (proc o) id node r) : Copy (proc o) id next r :=
    fun same => ⟨(is same).1, fun ended => gentle.kept _ ended ((is same).2 ended)⟩
  have owns {r : Record} (mine : i = o) (is : Owns (proc o) id node r)
      : Owns (proc o) id next r :=
    ⟨is.1, is.2.1, fun alive => gentle.begun mine alive (is.2.2 (gentle.exited alive))⟩
  cases stage with
  | idle | returned => trivial
  | reading => exact fits
  | listing found => exact fun r member => copy (fits r member)
  | testing r then_ => exact ⟨copy fits.1, fun other member => copy (fits.2 other member)⟩
  | writing r then_ =>
      refine ⟨?_, fun other member => copy (fits.2 other member)⟩
      intro same
      obtain ⟨owned, failed, gone, unsucceeded⟩ := fits.1 same
      exact ⟨owned, failed, fun alive => gone (gentle.exited alive),
        gentle.unsucceeded gone unsucceeded⟩
  | working r | finishing r => exact ⟨fits.1, owns fits.1 fits.2⟩
  | looking ask looking =>
      cases looking with
      | alone => trivial
      | before | after => exact fits.elim
  | pruning | removing | linking => exact fits.elim

theorem copy_of_stored (fits : NodeFits owner id node) {file : String}
    (holds : node.files file = some r)
    : Copy owner id node r := by
  intro same
  have file_is : file = id := (fits.placed _ _ holds).symm.trans same
  rw [file_is] at holds
  obtain ⟨d, stored, owned⟩ := fits.stored
  obtain rfl := Option.some.inj (stored.symm.trans holds)
  exact ⟨owned, fun _ => by simp [Node.stateOf, stored]⟩

theorem settledTo_fits {i : Nat} (then_ : Then)
    (copies : ∀ other ∈ then_.copies, Copy (proc o) id node other)
    : StageFits proc o id node i (settledTo r then_) := by
  cases then_ with
  | get | cancel | replay => trivial
  | list rest seen =>
      cases rest with
      | nil => trivial
      | cons head tail =>
          refine ⟨copies head List.mem_cons_self, ?_⟩
          intro other member
          exact copies other (List.mem_cons_of_mem _ member)

theorem alive_write {process : Int × Nat} {file : String} {content : Option Record}
    : (node.write file content).alive process ↔ node.alive process :=
  Iff.rfl

theorem stateOf_write {file : String} {content : Option Record}
    : (node.write file content).stateOf id
      = if id = file then content.map Record.state else node.stateOf id := by
  by_cases same : id = file
  · subst same
    simp [Node.stateOf]
  · rw [Node.stateOf, Node.write_other _ _ same, if_neg same, Node.stateOf]

/-- A record written where its id says keeps the node in order, if it has the owner. -/
theorem NodeFits.write (fits : NodeFits owner id node) (owned : r.id = id → r.owner = owner)
    : NodeFits owner id (node.write r.id (some r)) := by
  refine ⟨?_, ?_, fits.gone⟩
  · intro file d holds
    by_cases same : file = r.id
    · rw [same, Node.write_self] at holds
      rw [same, ← Option.some.inj holds]
    · rw [Node.write_other _ _ same] at holds
      exact fits.placed file d holds
  · by_cases same : r.id = id
    · exact ⟨r, by rw [← same, Node.write_self], owned same⟩
    · obtain ⟨d, stored, is⟩ := fits.stored
      exact ⟨d, by rw [Node.write_other _ _ (Ne.symm same), stored], is⟩

/-- A settled record is written only where nothing has succeeded. -/
theorem gentle_settle {mine : Prop} (settles : Settles owner id node r)
    : Gentle owner id mine node (node.write r.id (some r)) := by
  by_cases same : r.id = id
  · obtain ⟨-, failed, gone, unsucceeded⟩ := settles same
    have after : (node.write r.id (some r)).stateOf id = some .failed := by
      rw [stateOf_write, if_pos same.symm, Option.map_some, failed]
    refine ⟨?_, fun _ _ => by simp [after], alive_write.mp, ?_⟩
    · intro s ended is
      rw [after]
      cases s with
      | running => exact absurd rfl ended
      | succeeded => exact absurd is unsucceeded
      | failed => rfl
    · intro _ alive
      exact absurd alive gone
  · exact .of_eq (by rw [stateOf_write, if_neg (Ne.symm same)]) alive_write.mp

/-- The owner ends an operation that runs. -/
theorem gentle_finish (owns : Owns owner id node r) (alive : node.alive owner)
    : Gentle owner id False node (node.write r.id (some r)) := by
  have before := owns.2.2 alive
  refine ⟨?_, fun gone => absurd alive gone, alive_write.mp, False.elim⟩
  intro s ended is
  rw [before] at is
  exact absurd (Option.some.inj is).symm ended

/-- Every step of a reader, and the owner's end, keep what the calls hold. -/
theorem act_keeps {i : Nat} {stage : Stage} {step : Act} (node_fits : NodeFits (proc o) id node)
    (fits : StageFits proc o id node i stage) (alive : node.alive (proc i))
    (reader : ∀ ask generated, step ≠ .start (.mutate ask generated))
    (inTime : ∀ now r then_, step = .go now → stage = .testing r then_ → r.id = id →
      r.state = .running → ¬ node.alive r.owner → node.stateOf id ≠ some .succeeded)
    : Keeps (NodeFits (proc o) id) (StageFits proc o id) node
        (act (proc i).1 node stage step).1 i (act (proc i).1 node stage step).2 := by
  cases step with
  | start call =>
      have opened : StageFits proc o id node i (begun call) := by
        cases call with
        | mutate ask generated => exact absurd rfl (reader ask generated)
        | replay ask => trivial
        | get op | cancel op =>
            simp only [begun]
            split
            · exact rfl
            · trivial
        | list => exact fun _ member => absurd member List.not_mem_nil
      simp only [act]
      split
      · exact .unmoved node_fits opened
      · exact .unmoved node_fits opened
      · exact .unmoved node_fits fits
  | visit file =>
      simp only [act]
      split
      case h_1 => exact fits.elim
      case h_2 found r holds =>
        refine .unmoved node_fits ?_
        have copy : Copy (proc o) id node r := by
          split at holds
          · exact copy_of_stored node_fits holds
          · cases holds
        intro other member
        rcases List.mem_append.mp member with earlier | new
        · exact fits other earlier
        · rw [List.mem_singleton.mp new]
          exact copy
      case h_3 => exact .unmoved node_fits fits
  | fail =>
      refine .unmoved node_fits ?_
      cases stage with
      | pruning | removing => exact fits.elim
      | working r => exact fits
      | _ => trivial
  | worked outcome now =>
      simp only [act]
      split
      case h_1 r =>
        refine .unmoved node_fits ⟨fits.1, ?_⟩
        cases outcome <;> exact fits.2
      case h_2 => exact .unmoved node_fits fits
  | go now =>
      cases stage with
      | idle | returned | working => exact .unmoved node_fits fits
      | pruning | removing | linking => exact fits.elim
      | looking ask looking =>
          cases looking with
          | before | after => exact fits.elim
          | alone =>
              simp only [act, proceed]
              split
              case h_1 => exact .unmoved node_fits trivial
              case h_2 r _ found =>
                refine .unmoved node_fits ⟨copy_of_stored node_fits (found_eq_some found).1, ?_⟩
                exact fun _ member => absurd member List.not_mem_nil
              case h_3 => exact .unmoved node_fits trivial
              case h_4 | h_5 => contradiction
      | reading file then_ =>
          simp only [act, proceed]
          split
          case h_1 r holds =>
            refine .unmoved node_fits ⟨copy_of_stored node_fits holds, ?_⟩
            rw [show then_.copies = [] from fits]
            exact fun _ member => absurd member List.not_mem_nil
          case h_2 => exact .unmoved node_fits trivial
      | listing found =>
          have copies : ∀ r ∈ byAge found, Copy (proc o) id node r :=
            fun r member => fits r ((List.mem_insertionSort _).mp member)
          simp only [act, proceed]
          split
          case h_1 => exact .unmoved node_fits trivial
          case h_2 r rest is =>
            rw [is] at copies
            refine .unmoved node_fits ⟨copies r List.mem_cons_self, ?_⟩
            exact fun other member => copies other (List.mem_cons_of_mem _ member)
      | testing r then_ =>
          simp only [act, proceed]
          split
          case isTrue gone =>
            refine .unmoved node_fits ⟨?_, fits.2⟩
            intro same
            obtain ⟨owned, -⟩ := fits.1 same
            have owner_gone := gone.2
            refine ⟨owned, rfl, owned ▸ owner_gone, ?_⟩
            exact inTime now r then_ rfl rfl same gone.1 owner_gone
          case isFalse => exact .unmoved node_fits (settledTo_fits then_ fits.2)
      | writing r then_ =>
          have gentle {mine : Prop} : Gentle (proc o) id mine node (node.write r.id (some r)) :=
            gentle_settle fits.1
          refine ⟨node_fits.write fun same => (fits.1 same).1, ?_, ?_⟩
          · exact (settledTo_fits then_ fits.2).carry gentle
          · intro j _ other other_fits
            exact other_fits.carry gentle
      | finishing r =>
          obtain ⟨rfl, owns⟩ := fits
          refine ⟨node_fits.write fun _ => owns.2.1, trivial, ?_⟩
          intro j other stage stage_fits
          have gentle := gentle_finish owns alive
          exact stage_fits.carry
            ⟨gentle.kept, gentle.unsucceeded, gentle.exited, fun same => absurd same other⟩

/-- No step takes an end back. -/
theorem act_gentle {i : Nat} {stage : Stage} {step : Act} (fits : StageFits proc o id node i stage)
    (alive : node.alive (proc i))
    : Gentle (proc o) id False node (act (proc i).1 node stage step).1 := by
  rw [act_node]
  cases step with
  | go now =>
      cases stage with
      | removing | linking => exact fits.elim
      | finishing r =>
          obtain ⟨rfl, owns⟩ := fits
          exact gentle_finish owns alive
      | writing r then_ => exact gentle_settle fits.1
      | _ => exact .of_eq rfl fun is => is
  | _ => exact .of_eq rfl fun is => is

/-- Processes come and go; the one that owned the operation does not come back. -/
theorem kernel_keeps (fits : NodeFits owner id node) (event : Kernel)
    : NodeFits owner id (kernel node event)
      ∧ ((kernel node event).alive owner → node.alive owner) := by
  have files := kernel_files node event
  suffices gone : ((kernel node event).alive owner → node.alive owner)
      ∧ ((kernel node event).alive owner
        ∨ ¬ (kernel node event).alive owner ∧ owner ∈ (kernel node event).past) by
    refine ⟨⟨?_, ?_, gone.2⟩, gone.1⟩
    · rw [files]
      exact fits.placed
    · rw [files]
      exact fits.stored
  cases event with
  | spawn pid starttime =>
      simp only [kernel]
      split
      case isFalse => exact ⟨fun is => is, fits.gone⟩
      case isTrue free =>
        by_cases same : owner.1 = pid
        · -- The pid was free, so the owner is past and the new process is another one.
          have dead : ¬ node.alive owner := by simp [Node.alive, same, free.1]
          have past := (fits.gone.resolve_left dead).2
          have other : starttime ≠ owner.2 := by
            rintro rfl
            exact free.2 (same ▸ past)
          have still : ¬ Node.alive
              { node with procs := Function.update node.procs pid (some starttime) } owner := by
            simp [Node.alive, same, other]
          exact ⟨fun is => absurd is still, .inr ⟨still, past⟩⟩
        · have unmoved : Node.alive
              { node with procs := Function.update node.procs pid (some starttime) } owner
                ↔ node.alive owner := by
            simp [Node.alive, same]
          rw [unmoved]
          exact ⟨fun is => is, fits.gone⟩
  | exit pid =>
      simp only [kernel]
      split
      case h_2 => exact ⟨fun is => is, fits.gone⟩
      case h_1 starttime was =>
        by_cases same : owner.1 = pid
        · have dead : ¬ Node.alive
              { node with
                procs := Function.update node.procs pid none
                past := (pid, starttime) :: node.past } owner := by
            simp [Node.alive, same]
          refine ⟨fun is => absurd is dead, .inr ⟨dead, ?_⟩⟩
          rcases fits.gone with alive | ⟨-, past⟩
          · have is : owner = (pid, starttime) := by
              rw [Node.alive, same, was] at alive
              rw [← same, Option.some.inj alive]
            rw [is]
            exact List.mem_cons_self
          · exact List.mem_cons_of_mem _ past
        · have unmoved : Node.alive
              { node with
                procs := Function.update node.procs pid none
                past := (pid, starttime) :: node.past } owner ↔ node.alive owner := by
            simp [Node.alive, same]
          rw [unmoved]
          refine ⟨fun is => is, fits.gone.imp_right ?_⟩
          rintro ⟨dead, past⟩
          exact ⟨dead, List.mem_cons_of_mem _ past⟩

end

-----------------------------------------------------------------------------------------
-- Runs
-----------------------------------------------------------------------------------------

abbrev AllFit (proc : Nat → Int × Nat) (o : Nat) (id : String) (state : LedgerState) : Prop :=
  Fitting (NodeFits (proc o) id) (StageFits proc o id) state

theorem Underway.allFit {state : LedgerState} (underway : Underway proc o rec state)
    : AllFit proc o rec.id state := by
  refine ⟨⟨underway.placed, ⟨rec, underway.stored, underway.owned⟩, .inl underway.alive⟩, ?_⟩
  intro i
  by_cases same : i = o
  · rw [same, underway.working]
    refine ⟨rfl, rfl, underway.owned, fun _ => ?_⟩
    rw [Node.stateOf, underway.stored, Option.map_some, underway.running]
  · rw [underway.idle i same]
    trivial

theorem AllFit.perform {id : String} {state : LedgerState} {action : LedgerAction}
    (fit : AllFit proc o id state) (readers : OnlyReaders state action)
    (inTime : TestsInTime proc id state action)
    : AllFit proc o id ((ledger proc).perform state action) := by
  refine Fitting.perform fit ?_ ?_
  · rintro i step rfl
    simp only [ledger]
    split
    case isFalse => exact .unmoved fit.world (fit.ops i)
    case isTrue alive =>
      refine act_keeps fit.world (fit.ops i) alive ?_ ?_
      · rintro ask generated rfl
        exact readers
      · rintro now r then_ rfl stage
        simp only [TestsInTime, stage] at inTime
        exact inTime alive
  · rintro event rfl
    obtain ⟨kept, exited⟩ := kernel_keeps fit.world event
    refine ⟨kept, ?_⟩
    intro j stage fits
    exact fits.carry (.of_eq (by rw [Node.stateOf, ledger, kernel_files]; rfl) exited)

theorem allFit_of_run {start state : LedgerState} {history : LedgerHistory}
    (underway : Underway proc o rec start)
    (run : Run (StepOf (ledger proc).perform) start history state)
    (allowed : Meets (fun state action => OnlyReaders state action
      ∧ TestsInTime proc rec.id state action) history)
    : AllFit proc o rec.id state := by
  refine run.invariant (fun _ state => AllFit proc o rec.id state) underway.allFit ?_ allowed
  rintro _ state action _ fit rfl ⟨readers, inTime⟩
  exact fit.perform readers inTime

/-- One step takes no end back, whatever it is. -/
theorem AllFit.gentle {id : String} {state : LedgerState} (fit : AllFit proc o id state)
    (action : LedgerAction)
    : Gentle (proc o) id False state.world ((ledger proc).perform state action).world := by
  cases action with
  | op i step =>
      simp only [System.perform, ledger]
      split
      · exact act_gentle (fit.ops i) ‹_›
      · exact .of_eq rfl fun is => is
  | outside event =>
      refine .of_eq ?_ (kernel_keeps fit.world event).2
      simp only [System.perform, ledger, Node.stateOf, kernel_files]

/-- A reader reports a failure only where the record says so. -/
theorem AllFit.reported {id : String} {state : LedgerState} (fit : AllFit proc o id state)
    {action : LedgerAction} {r : Record}
    (reports : Reports ⟨state, action, (ledger proc).perform state action⟩ r) (same : r.id = id)
    (failed : r.state = .failed)
    : ((ledger proc).perform state action).world.stateOf id = some .failed := by
  obtain ⟨i, now, then_, is, stage, settled⟩ := reports
  dsimp only at is stage settled
  rcases stage with testing | writing
  · have fits := fit.ops i
    rw [testing] at fits
    have before := (fits.1 same).2 (by simp [failed])
    rw [failed] at before
    exact (fit.gentle action).kept _ (by simp) before
  · subst is
    rw [System.perform_op_self, writing] at settled
    simp only [ledger] at settled
    split at settled
    case isTrue alive =>
      simp only [System.perform, ledger, if_pos alive, writing, act, proceed]
      rw [stateOf_write, if_pos same.symm, Option.map_some, failed]
    case isFalse =>
      cases then_ with
      | list rest seen => cases rest <;> cases settled
      | _ => cases settled

/-- As long as every reader that finds the owner gone does so before the record says that the
operation succeeded, an operation stays as it ended and is reported so.
-/
theorem ended_final {start state : LedgerState} {history : LedgerHistory}
    (underway : Underway proc o rec start)
    (run : Run (StepOf (ledger proc).perform) start history state)
    (readers : Meets OnlyReaders history) (inTime : Meets (TestsInTime proc rec.id) history)
    : Final rec.id history := by
  have allowed : Meets (fun state action => OnlyReaders state action
      ∧ TestsInTime proc rec.id state action) history :=
    fun event member => ⟨readers event member, inTime event member⟩
  constructor
  · intro event member r holds ended
    obtain ⟨older, earlier, met, taken⟩ := run.upBefore allowed member
    have fit := allFit_of_run underway earlier met
    rw [show event.after = (ledger proc).perform event.before event.action from taken]
    exact (fit.gentle event.action).kept _ ended (by rw [Node.stateOf, holds, Option.map_some])
  · intro event member r reports same failed
    obtain ⟨older, earlier, met, taken⟩ := run.upBefore allowed member
    have fit := allFit_of_run underway earlier met
    have after : event.after = (ledger proc).perform event.before event.action := taken
    rw [after]
    refine fit.reported ?_ same failed
    rw [← after]
    exact reports

/-- The owner is process 10, every reader is in process 20. -/
def twoProcesses (i : Nat) : Int × Nat := if i = 0 then (10, 5) else (20, 7)

def createLab : Record where
  id := "r-1"
  state := .running
  target := "Network/lab"
  verb := "create"
  targetHref := ""
  createdMs := 1
  endedMs := none
  failure := none
  requestId := "1"
  fingerprint := ""
  ownerPid := 10
  ownerStarttime := 5

def labUnderway : LedgerState where
  world := {
    files := fun id => if id = "r-1" then some createLab else none
    procs := fun pid => if pid = 10 then some 5 else if pid = 20 then some 7 else none
    past := [] }
  ops i := if i = 0 then .working createLab else .idle

theorem labUnderway_underway : Underway twoProcesses 0 createLab labUnderway where
  stored := rfl
  running := rfl
  owned := rfl
  alive := rfl
  placed id r holds := by
    simp only [labUnderway] at holds
    split at holds <;> cases holds
    exact Eq.symm ‹_›
  working := rfl
  idle j other := by simp [labUnderway, other]

/-- The owner ends the operation and exits. -/
def ownerEnds : List LedgerAction :=
  [.op 0 (.worked (.ok "/v1/networks/lab") 2), .op 0 (.go 2), .outside (.exit 10)]

def getStarts : List LedgerAction := [.op 1 (.start (.get "r-1")), .op 1 (.go 3)]

/-- One reader before the end, one after it. -/
def readBeforeAndAfter : List LedgerAction :=
  getStarts ++ [.op 1 (.go 3)] ++ ownerEnds ++ getStarts ++ [.op 1 (.go 3)]

theorem ended_final_readBeforeAndAfter
    : Final "r-1" (trace (ledger twoProcesses).perform labUnderway [] readBeforeAndAfter) := by
  refine ended_final labUnderway_underway (Run.start.trace _) ?_ ?_
  · refine meets_trace (fun _ member => absurd member List.not_mem_nil) ?_
    simp [readBeforeAndAfter, getStarts, ownerEnds, OnlyReaders]
  · refine meets_cons.mpr ⟨fun _ _ running => absurd running (by decide), ?_⟩
    refine meets_cons.mpr ⟨trivial, meets_cons.mpr ⟨trivial, ?_⟩⟩
    refine meets_cons.mpr ⟨trivial, meets_cons.mpr ⟨trivial, meets_cons.mpr ⟨trivial, ?_⟩⟩⟩
    refine meets_cons.mpr ⟨fun _ _ _ gone => absurd rfl gone, ?_⟩
    refine meets_cons.mpr ⟨trivial, meets_cons.mpr ⟨trivial, ?_⟩⟩
    exact fun _ member => absurd member List.not_mem_nil

/-- The owner ends between a reader's read and its test. -/
def endsBetween : List LedgerAction :=
  getStarts ++ ownerEnds ++ [.op 1 (.go 3), .op 1 (.go 3)]

/-- An operation that succeeded, and is told as interrupted from then on. -/
theorem success_overwritten
    : Underway twoProcesses 0 createLab labUnderway
      ∧ Run (StepOf (ledger twoProcesses).perform) labUnderway
        (trace (ledger twoProcesses).perform labUnderway [] endsBetween)
        (endsBetween.foldl (ledger twoProcesses).perform labUnderway)
      ∧ Meets OnlyReaders (trace (ledger twoProcesses).perform labUnderway [] endsBetween)
      ∧ ((getStarts ++ ownerEnds).foldl (ledger twoProcesses).perform labUnderway).world.stateOf
        "r-1" = some .succeeded
      ∧ (endsBetween.foldl (ledger twoProcesses).perform labUnderway).world.files "r-1"
        = some (createLab.interrupt 3)
      ∧ ¬ Final "r-1" (trace (ledger twoProcesses).perform labUnderway [] endsBetween) := by
  refine ⟨labUnderway_underway, Run.start.trace _, ?_, rfl, rfl, ?_⟩
  · refine meets_trace (fun _ member => absurd member List.not_mem_nil) ?_
    simp [endsBetween, getStarts, ownerEnds, OnlyReaders]
  · intro final
    have kept := final.kept _ List.mem_cons_self
      (createLab.finish (.ok "/v1/networks/lab") 2) rfl (by decide)
    exact absurd kept (by decide)

end Delonix.Operations
