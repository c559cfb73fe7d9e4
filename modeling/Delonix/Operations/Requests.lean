import Delonix.Operations.Ledger

/-! One request id begins one operation. Of the calls that link a record under one name only one
succeeds, until the record is pruned. A write of a record that was pruned meanwhile brings it
back, and no call began that one.
-/

namespace Delonix.Operations

open Delonix.Library.Interleaving
open Delonix.Library.Runs

variable {proc : Nat → Int × Nat} {id : String}

abbrev LedgerEvent := Event LedgerState LedgerAction

/-- A prune removes the record. -/
def removes (proc : Nat → Int × Nat) (id : String) (event : LedgerEvent) : Bool :=
  match event.action with
  | .op i (.go _) =>
      match event.before.ops i with
      | .removing _ _ (old :: _) =>
          event.before.world.alive (proc i) && old == id
            && (event.before.world.files id).isSome
      | _ => false
  | _ => false

/-- A `begin` is told that the operation is new. -/
def begins (proc : Nat → Int × Nat) (id : String) (event : LedgerEvent) : Bool :=
  match event.action with
  | .op i (.go _) =>
      match event.before.ops i with
      | .linking _ rec =>
          event.before.world.alive (proc i) && rec.id == id
            && (event.before.world.files id).isNone
      | _ => false
  | _ => false

/-- How many were told so since the record was last removed. -/
def begunSince (proc : Nat → Int × Nat) (id : String) : LedgerHistory → Nat
  | [] => 0
  | event :: older =>
      if removes proc id event then 0
      else if begins proc id event then begunSince proc id older + 1
      else begunSince proc id older

def pruned (proc : Nat → Int × Nat) (id : String) (history : LedgerHistory) : Bool :=
  history.any (removes proc id)

/-- A record answers a request: the same verb and target, and the fingerprint it stored. -/
def AnswersAsk (ask : Ask) (r : Record) : Prop :=
  r.verb = ask.verb ∧ r.target = ask.target
    ∧ (r.fingerprint ≠ "" → r.fingerprint = ask.fingerprint)

/-- The stages of a `begin` before it is answered. -/
def Stage.beginning : Stage → Bool
  | .looking _ .alone => false
  | .looking _ _ => true
  | .pruning _ _ _ => true
  | .removing _ _ _ => true
  | .linking _ _ => true
  | _ => false

/-- One operation for each time the record is there: between two removals one `begin` is told
New, never two; the work is taken up by that one; and every other one ends with an error or with
a record that answers its request.
-/
structure OneOperation (proc : Nat → Int × Nat) (id : String) (history : LedgerHistory) : Prop where
  once : ∀ newer removal older, history = newer ++ removal :: older → removes proc id removal →
    pruned proc id older → begunSince proc id older = 1
  neverTwice : ∀ newer older, history = newer ++ older → begunSince proc id older ≤ 1
  works : ∀ event ∈ history, ∀ i rec, rec.id = id → event.after.ops i = .working rec →
    event.before.ops i = .working rec ∨ begins proc id event
  replayed : ∀ event ∈ history, ∀ i ask r,
    event.before.ops i = .testing r (.replay ask) ∨ event.before.ops i = .writing r (.replay ask) →
    event.after.ops i = .returned (.ok (.replayed r)) → AnswersAsk ask r
  refused : ∀ event ∈ history, ∀ i answer, (event.before.ops i).beginning →
    event.after.ops i = .returned answer → ∃ why, answer = .error why

/-- No call is under way. -/
def Resting (state : LedgerState) : Prop := ∀ i, state.ops i = .idle

/-- A finished or settled record is written only where there is a record. -/
def WritesOnto (proc : Nat → Int × Nat) (id : String) (state : LedgerState)
    : LedgerAction → Prop
  | .op i (.go _) =>
      match state.ops i with
      | .finishing r => state.world.alive (proc i) → r.id = id → (state.world.files id).isSome
      | .writing r _ => state.world.alive (proc i) → r.id = id → (state.world.files id).isSome
      | _ => True
  | _ => True

-----------------------------------------------------------------------------------------
-- The record
-----------------------------------------------------------------------------------------

/-- What one step does to a record that is or is not there. -/
inductive Presence (proc : Nat → Int × Nat) (id : String) (event : LedgerEvent) : Prop where
  | removed (is : removes proc id event) (after : event.after.world.files id = none)
  | begun (is : begins proc id event) (not : removes proc id event = false)
      (before : event.before.world.files id = none)
      (after : (event.after.world.files id).isSome)
  | same (removes : removes proc id event = false) (begins : begins proc id event = false)
      (is : (event.after.world.files id).isSome = (event.before.world.files id).isSome)

/-- A record that is written over leaves the question as it was. -/
theorem isSome_write_some {node : Node} {r : Record}
    (onto : r.id = id → (node.files id).isSome)
    : ((node.write r.id (some r)).files id).isSome = (node.files id).isSome := by
  by_cases same : r.id = id
  · rw [← same, Node.write_self, same, onto same, Option.isSome_some]
  · rw [Node.write_other _ _ (Ne.symm same)]

/-- A live process writes what its step writes. -/
theorem world_of_step {state : LedgerState} {i : Nat} (step : Act)
    (alive : state.world.alive (proc i))
    : ((ledger proc).perform state (.op i step)).world
      = match written state.world (state.ops i) step with
        | some (file, content) => state.world.write file content
        | none => state.world := by
  simp only [System.perform, ledger, if_pos alive]
  exact act_node ..

theorem presence_of_step {state : LedgerState} {action : LedgerAction}
    (onto : WritesOnto proc id state action)
    : Presence proc id ⟨state, action, (ledger proc).perform state action⟩ := by
  cases action with
  | outside event =>
      refine .same rfl rfl ?_
      simp only [System.perform, ledger, kernel_files]
  | op i step =>
      by_cases alive : state.world.alive (proc i)
      case neg =>
        have stays : ((ledger proc).perform state (.op i step)).world = state.world := by
          simp [System.perform, ledger, alive]
        refine .same ?_ ?_ (by rw [stays])
        · cases step with
          | go now =>
              simp only [removes]
              split <;> simp [alive]
          | _ => rfl
        · cases step with
          | go now =>
              simp only [begins]
              split <;> simp [alive]
          | _ => rfl
      case pos =>
        have becomes := world_of_step step alive
        cases step with
        | start | visit | fail | worked => exact .same rfl rfl (by rw [becomes]; rfl)
        | go now =>
            cases stage : state.ops i with
            | removing ask op ids =>
                cases ids with
                | nil =>
                    refine .same ?_ ?_ (by rw [becomes, stage]; rfl) <;> simp [removes, begins, stage]
                | cons old rest =>
                    simp only [written, stage] at becomes
                    by_cases same : old = id
                    · subst same
                      cases present : state.world.files old with
                      | none =>
                          refine .same ?_ ?_ ?_
                          · simp [removes, stage, present]
                          · simp [begins, stage]
                          · rw [becomes, Node.write_self, present]
                      | some d =>
                          refine .removed ?_ ?_
                          · simp [removes, stage, present, alive]
                          · rw [becomes, Node.write_self]
                    · refine .same ?_ ?_ ?_
                      · simp [removes, stage, same]
                      · simp [begins, stage]
                      · rw [becomes, Node.write_other _ _ (Ne.symm same)]
            | linking ask rec =>
                cases free : state.world.files rec.id with
                | some d =>
                    simp only [written, stage, free] at becomes
                    refine .same ?_ ?_ (by rw [becomes]; rfl)
                    · simp [removes, stage]
                    · simp only [begins, stage, Bool.and_eq_false_iff, beq_eq_false_iff_ne]
                      by_cases same : rec.id = id
                      · exact .inr (by rw [← same, free]; rfl)
                      · exact .inl (.inr same)
                | none =>
                    simp only [written, stage, free] at becomes
                    by_cases same : rec.id = id
                    · subst same
                      refine .begun ?_ ?_ free ?_
                      · simp [begins, stage, free, alive]
                      · simp [removes, stage]
                      · rw [becomes]
                        simp
                    · refine .same ?_ ?_ ?_
                      · simp [removes, stage]
                      · simp [begins, stage, same]
                      · rw [becomes]
                        simp [Node.write_other _ _ (Ne.symm same)]
            | finishing r =>
                simp only [WritesOnto, stage] at onto
                simp only [written, stage] at becomes
                refine .same ?_ ?_ (by rw [becomes, isSome_write_some (onto alive)])
                · simp [removes, stage]
                · simp [begins, stage]
            | writing r next =>
                simp only [WritesOnto, stage] at onto
                simp only [written, stage] at becomes
                refine .same ?_ ?_ (by rw [becomes, isSome_write_some (onto alive)])
                · simp [removes, stage]
                · simp [begins, stage]
            | _ =>
                refine .same ?_ ?_ (by rw [becomes, stage]; rfl) <;> simp [removes, begins, stage]

/-- After a removal the record is there exactly when one `begin` was told New since; before any
removal, when one was told so it is there.
-/
structure Counted (proc : Nat → Int × Nat) (id : String) (history : LedgerHistory)
    (state : LedgerState) : Prop where
  neverTwice : begunSince proc id history ≤ 1
  there : begunSince proc id history = 1 → (state.world.files id).isSome
  once : pruned proc id history → (state.world.files id).isSome → begunSince proc id history = 1

theorem Counted.step {history : LedgerHistory} {event : LedgerEvent}
    (counted : Counted proc id history event.before) (presence : Presence proc id event)
    : Counted proc id (event :: history) event.after := by
  cases presence with
  | removed is after =>
      have zero : begunSince proc id (event :: history) = 0 := by simp [begunSince, is]
      refine ⟨by omega, by omega, ?_⟩
      intro _ there
      simp [after] at there
  | begun is not before after =>
      have none_before : begunSince proc id history = 0 := by
        have atMost := counted.neverTwice
        have not_one : begunSince proc id history ≠ 1 := by
          intro one
          have there := counted.there one
          simp [before] at there
        omega
      have one : begunSince proc id (event :: history) = 1 := by
        simp [begunSince, is, not, none_before]
      exact ⟨by omega, fun _ => after, fun _ _ => one⟩
  | same not_removed not_begun is =>
      have unchanged : begunSince proc id (event :: history) = begunSince proc id history := by
        simp [begunSince, not_removed, not_begun]
      have still : pruned proc id (event :: history) = pruned proc id history := by
        simp [pruned, not_removed]
      refine ⟨?_, ?_, ?_⟩
      · rw [unchanged]
        exact counted.neverTwice
      · rw [unchanged, is]
        exact counted.there
      · rw [unchanged, still, is]
        exact counted.once

theorem counted_of_run {start state : LedgerState} {history : LedgerHistory}
    (run : Run (StepOf (ledger proc).perform) start history state)
    (onto : Meets (WritesOnto proc id) history)
    : Counted proc id history state := by
  refine run.invariant (Counted proc id) ⟨by simp [begunSince], by simp [begunSince],
    by simp [pruned]⟩ ?_ onto
  rintro history state action _ counted rfl onto
  exact @Counted.step proc id history ⟨state, action, _⟩ counted (presence_of_step onto)

-----------------------------------------------------------------------------------------
-- The calls
-----------------------------------------------------------------------------------------

/-- A record on its way to a replay answers what was asked. -/
def StageAnswers : Stage → Prop
  | .testing r (.replay ask) => AnswersAsk ask r
  | .writing r (.replay ask) => AnswersAsk ask r
  | .reading _ (.replay _) => False
  | _ => True

theorem stageAnswers_settledTo (r : Record) (next : Then) : StageAnswers (settledTo r next) := by
  cases next with
  | list rest seen => cases rest <;> trivial
  | _ => trivial

theorem act_answers {pid : Int} {node : Node} {stage : Stage} (step : Act)
    (answers : StageAnswers stage)
    : StageAnswers (act pid node stage step).2 := by
  cases step with
  | start call =>
      have fresh : StageAnswers (begun call) := by
        cases call <;> simp only [begun]
        all_goals first | trivial | (split <;> trivial)
      simp only [act]
      split
      · exact fresh
      · exact fresh
      · exact answers
  | visit file =>
      simp only [act]
      split
      · trivial
      · trivial
      · exact answers
  | fail =>
      cases stage with
      | removing ask id ids => cases ids <;> trivial
      | _ => trivial
  | worked outcome now =>
      simp only [act]
      split
      · trivial
      · exact answers
  | go now =>
      cases stage with
      | looking ask looking =>
          simp only [act, proceed]
          split
          case h_2 r _ found => exact (found_eq_some found).2
          all_goals trivial
      | removing ask id ids => cases ids <;> trivial
      | linking ask rec =>
          simp only [act, proceed]
          split <;> trivial
      | reading file next =>
          simp only [act, proceed]
          split
          · cases next with
            | replay ask => exact answers.elim
            | _ => trivial
          · trivial
      | listing found =>
          simp only [act, proceed]
          split <;> trivial
      | testing r next =>
          simp only [act, proceed]
          split
          · cases next with
            | replay ask => exact answers
            | _ => trivial
          · exact stageAnswers_settledTo r next
      | writing r next => exact stageAnswers_settledTo r next
      | _ => exact answers

/-- The work is taken up where a link succeeded. -/
theorem act_eq_working {pid : Int} {node : Node} {stage : Stage} {step : Act} {rec : Record}
    (works : (act pid node stage step).2 = .working rec)
    : stage = .working rec
      ∨ ∃ ask now, step = .go now ∧ stage = .linking ask rec ∧ node.files rec.id = none := by
  cases step with
  | start call =>
      simp only [act] at works
      split at works
      case h_3 => exact .inl works
      all_goals
        cases call <;> simp only [begun] at works
        all_goals first | cases works | (split at works <;> cases works)
  | visit file =>
      simp only [act] at works
      split at works
      · cases works
      · cases works
      · exact .inl works
  | fail =>
      cases stage with
      | removing ask id ids => cases ids <;> cases works
      | working r => exact .inl works
      | _ => cases works
  | worked outcome now =>
      simp only [act] at works
      split at works
      · cases works
      · exact .inl works
  | go now =>
      cases stage with
      | linking ask r =>
          simp only [act, proceed] at works
          split at works
          case h_1 free =>
            cases works
            exact .inr ⟨ask, now, rfl, rfl, free⟩
          case h_2 => cases works
      | working r => exact .inl works
      | looking ask looking =>
          simp only [act, proceed] at works
          split at works <;> cases works
      | removing ask id ids => cases ids <;> cases works
      | reading file next =>
          simp only [act, proceed] at works
          split at works <;> cases works
      | listing found =>
          simp only [act, proceed] at works
          split at works <;> cases works
      | testing r next =>
          simp only [act, proceed] at works
          split at works
          · cases works
          · cases next with
            | list rest seen => cases rest <;> cases works
            | _ => cases works
      | writing r next =>
          cases next with
          | list rest seen => cases rest <;> cases works
          | _ => cases works
      | _ => cases works

/-- A `begin` that returns from its own stages returns an error. -/
theorem act_refused {pid : Int} {node : Node} {stage : Stage} {step : Act}
    {answer : Except Status Reply} (beginning : stage.beginning)
    (returns : (act pid node stage step).2 = .returned answer)
    : ∃ why, answer = .error why := by
  cases step with
  | start call =>
      cases stage with
      | looking | pruning | removing | linking => cases returns
      | _ => cases beginning
  | visit file =>
      simp only [act] at returns
      split at returns
      · cases returns
      · cases returns
      · dsimp only at returns
        rw [returns] at beginning
        cases beginning
  | worked outcome now =>
      cases stage with
      | looking | pruning | removing | linking => cases returns
      | _ => cases beginning
  | fail =>
      cases stage with
      | looking | linking =>
          cases returns
          exact ⟨_, rfl⟩
      | removing ask id ids =>
          cases ids with
          | nil =>
              cases returns
              exact ⟨_, rfl⟩
          | cons => cases returns
      | pruning => cases returns
      | _ => cases beginning
  | go now =>
      cases stage with
      | looking ask looking =>
          simp only [act, proceed] at returns
          split at returns
          case h_3 => cases beginning
          case h_1 | h_5 =>
            cases returns
            exact ⟨_, rfl⟩
          all_goals cases returns
      | pruning => cases returns
      | removing ask id ids => cases ids <;> cases returns
      | linking ask rec =>
          simp only [act, proceed] at returns
          split at returns <;> cases returns
      | _ => cases beginning

/-- A call moves only by its own steps, and only while its process runs. -/
theorem ops_perform (proc : Nat → Int × Nat) (state : LedgerState) (action : LedgerAction)
    (i : Nat)
    : ((ledger proc).perform state action).ops i = state.ops i
      ∨ ∃ step, action = .op i step ∧ state.world.alive (proc i)
        ∧ ((ledger proc).perform state action).ops i
          = (act (proc i).1 state.world (state.ops i) step).2 := by
  cases action with
  | outside event => exact .inl rfl
  | op j step =>
      by_cases same : i = j
      · subst same
        rw [System.perform_op_self]
        simp only [ledger]
        split
        case isTrue alive => exact .inr ⟨step, rfl, alive, rfl⟩
        case isFalse => exact .inl rfl
      · exact .inl (System.perform_op_other _ same)

theorem answers_of_run {start state : LedgerState} {history : LedgerHistory}
    (resting : Resting start) (run : Run (StepOf (ledger proc).perform) start history state)
    : ∀ i, StageAnswers (state.ops i) := by
  induction run with
  | start =>
      intro i
      rw [resting i]
      trivial
  | step earlier taken ih =>
      intro i
      rw [taken]
      rcases ops_perform proc _ _ i with stays | ⟨step, -, -, becomes⟩
      · rw [stays]
        exact ih i
      · rw [becomes]
        exact act_answers step (ih i)

theorem begins_of_working {state : LedgerState} {action : LedgerAction} {i : Nat} {rec : Record}
    (works : ((ledger proc).perform state action).ops i = .working rec)
    : state.ops i = .working rec
      ∨ begins proc rec.id ⟨state, action, (ledger proc).perform state action⟩ := by
  rcases ops_perform proc state action i with stays | ⟨step, rfl, alive, becomes⟩
  · exact .inl (stays.symm.trans works)
  · rw [becomes] at works
    rcases act_eq_working works with already | ⟨ask, now, rfl, linking, free⟩
    · exact .inl already
    · refine .inr ?_
      simp [begins, linking, alive, free]

/-- One request id begins one operation each time its record is there, as long as a finished or
settled record is written only where there is one.
-/
theorem one_operation (proc : Nat → Int × Nat) (requestId : String) {start state : LedgerState}
    (resting : Resting start) {history : LedgerHistory}
    (run : Run (StepOf (ledger proc).perform) start history state)
    (onto : Meets (WritesOnto proc (requestOp requestId)) history)
    : OneOperation proc (requestOp requestId) history := by
  have stepOf {event : LedgerEvent} (member : event ∈ history)
      : event.after = (ledger proc).perform event.before event.action :=
    run.taken member
  constructor
  · rintro newer removal older rfl removed wasPruned
    have earlier := run.split.1
    have counted := counted_of_run earlier (meets_cons.mp onto.older).2
    refine counted.once wasPruned ?_
    -- A removal finds the record.
    unfold removes at removed
    repeat' split at removed
    all_goals simp_all
  · rintro newer older rfl
    induction newer generalizing state with
    | nil => exact (counted_of_run run onto).neverTwice
    | cons event rest ih =>
        cases run with
        | step earlier taken =>
            exact ih earlier (meets_cons.mp onto).2
              fun member => stepOf (List.mem_cons_of_mem _ member)
  · intro event member i rec same works
    rw [stepOf member] at works
    have begun := begins_of_working works
    rwa [← stepOf member, same] at begun
  · intro event member i ask r stage _
    obtain ⟨newer, older, rfl⟩ := List.append_of_mem member
    have answers := answers_of_run resting run.split.1 i
    rcases stage with testing | writing
    · rwa [testing] at answers
    · rwa [writing] at answers
  · intro event member i answer beginning returns
    rw [stepOf member] at returns
    rcases ops_perform proc _ _ i with stays | ⟨step, -, -, becomes⟩
    · rw [stays] at returns
      rw [returns] at beginning
      cases beginning
    · rw [becomes] at returns
      exact act_refused beginning returns

def oneProcess (_ : Nat) : Int × Nat := (20, 7)

def emptyLedger : LedgerState where
  world := { files := fun _ => none, procs := fun pid => if pid = 20 then some 7 else none, past := [] }
  ops _ := .idle

def createOf (network requestId : String) : Call :=
  .mutate ⟨"create", "Network/" ++ network, requestId, ""⟩ ""

/-- A call goes on for some steps at an instant. -/
def goOn (i now steps : Nat) : List LedgerAction := List.replicate steps (.op i (.go now))

/-- A `begin` up to the stage where it has pruned and is about to link. -/
def createWorks (i now : Nat) (network requestId : String) : List LedgerAction :=
  .op i (.start (createOf network requestId)) :: goOn i now 4

def workEnds (i now : Nat) : List LedgerAction :=
  [.op i (.worked (.ok "/v1/networks") now), .op i (.go now)]

/-- The same request twice, the second time after the end. -/
def sentTwice : List LedgerAction :=
  createWorks 0 1 "lab" "z" ++ workEnds 0 2
    ++ .op 1 (.start (createOf "lab" "z")) :: goOn 1 3 2

theorem one_operation_sentTwice
    : OneOperation oneProcess (requestOp "z")
        (trace (ledger oneProcess).perform emptyLedger [] sentTwice)
      ∧ ((sentTwice.foldl (ledger oneProcess).perform emptyLedger).ops 1).beginning = false := by
  refine ⟨one_operation _ _ (fun _ => rfl) (Run.start.trace _) ?_, rfl⟩
  refine meets_cons.mpr ⟨trivial, meets_cons.mpr ⟨trivial, meets_cons.mpr ⟨trivial, ?_⟩⟩⟩
  refine meets_cons.mpr ⟨fun _ _ => rfl, meets_cons.mpr ⟨trivial, ?_⟩⟩
  refine meets_cons.mpr ⟨trivial, meets_cons.mpr ⟨trivial, meets_cons.mpr ⟨trivial, ?_⟩⟩⟩
  refine meets_cons.mpr ⟨trivial, meets_cons.mpr ⟨trivial, ?_⟩⟩
  exact fun _ member => absurd member List.not_mem_nil

/-- The instant after which a record that ended at zero has expired. -/
def later : Nat := retentionSecs * 1000 + 1

/-- A `begin` that finds the record expired and is about to remove it. -/
def prunes (i now : Nat) (network requestId : String) : List LedgerAction :=
  [.op i (.start (createOf network requestId)), .op i (.go now), .op i (.visit "r-z"),
    .op i (.go now)]

/-- Two prunes find the expired record. The first removes it, the request begins anew, and the
second prune removes that record while the work goes on. The end of the work brings it back,
until a third prune removes it once more.
-/
def prunedUnderWork : List LedgerAction :=
  createWorks 0 0 "lab" "z" ++ workEnds 0 0
    ++ prunes 1 later "a" "a" ++ prunes 2 later "b" "b" ++ goOn 2 later 1
    ++ createWorks 3 later "lab" "z" ++ goOn 1 later 1 ++ workEnds 3 later
    ++ prunes 4 (2 * later + 1) "c" "c" ++ goOn 4 (2 * later + 1) 1

/-- Between two removals of the record nobody was told New. -/
theorem record_comes_back
    : Run (StepOf (ledger oneProcess).perform) emptyLedger
        (trace (ledger oneProcess).perform emptyLedger [] prunedUnderWork)
        (prunedUnderWork.foldl (ledger oneProcess).perform emptyLedger)
      ∧ ¬ OneOperation oneProcess (requestOp "z")
        (trace (ledger oneProcess).perform emptyLedger [] prunedUnderWork) := by
  refine ⟨Run.start.trace _, ?_⟩
  intro one
  have once := one.once [] _ _ rfl (by decide) (by decide)
  exact absurd once (by decide)

end Delonix.Operations
