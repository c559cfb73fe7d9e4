import Mathlib.Data.Prod.Lex
import Mathlib.Logic.Function.Basic
import Mathlib.Order.WellFounded
import Mathlib.Tactic.Common

/-! Finite runs of a labelled step relation, with their whole history.
An event keeps the state before and after its action, so a statement about a run can speak
of what an earlier step saw.
-/

namespace Delonix.Library.Runs

variable {State Action : Type}

/-- One step that was taken. -/
structure Event (State Action : Type) where
  before : State
  action : Action
  after : State

/-- The runs of `step` from `start`, newest event first. -/
inductive Run (step : State → Action → State → Prop) (start : State)
    : List (Event State Action) → State → Prop where
  | start : Run step start [] start
  | step {history : List (Event State Action)} {state next : State} {action : Action}
      (earlier : Run step start history state) (taken : step state action next)
      : Run step start (⟨state, action, next⟩ :: history) next

/-- Every step of the history was taken from a state and by an action the condition allows.
-/
def Meets (condition : State → Action → Prop) (history : List (Event State Action)) : Prop :=
  ∀ event ∈ history, condition event.before event.action

instance (condition : State → Action → Prop) [∀ state action, Decidable (condition state action)]
    (history : List (Event State Action))
    : Decidable (Meets condition history) :=
  inferInstanceAs (Decidable (∀ event ∈ history, condition event.before event.action))

theorem meets_cons {condition : State → Action → Prop} {event : Event State Action}
    {history : List (Event State Action)}
    : Meets condition (event :: history)
      ↔ condition event.before event.action ∧ Meets condition history := by
  simp [Meets]

/-- What a history meets, what it was before its newest events meets. -/
theorem Meets.older {condition : State → Action → Prop}
    {newer older : List (Event State Action)} (meets : Meets condition (newer ++ older))
    : Meets condition older :=
  fun event member => meets event (List.mem_append_right _ member)

/-- What holds at the start and survives every allowed step holds after every run of allowed
steps. The invariant may speak of the history.
-/
theorem Run.invariant {step : State → Action → State → Prop} {start state : State}
    {history : List (Event State Action)} {condition : State → Action → Prop}
    (inv : List (Event State Action) → State → Prop)
    (initial : inv [] start)
    (preserved : ∀ history state action next, inv history state → step state action next →
      condition state action → inv (⟨state, action, next⟩ :: history) next)
    (run : Run step start history state) (meets : Meets condition history)
    : inv history state := by
  induction run with
  | start => exact initial
  | step earlier taken ih =>
      obtain ⟨allowed, before⟩ := meets_cons.mp meets
      exact preserved _ _ _ _ (ih before) taken allowed

/-- What was left of a run when one of its events happened is a run itself, and the event is
one of its steps.
-/
theorem Run.split {step : State → Action → State → Prop} {start state : State}
    {newer older : List (Event State Action)} {event : Event State Action}
    (run : Run step start (newer ++ event :: older) state)
    : Run step start older event.before ∧ step event.before event.action event.after := by
  induction newer generalizing state with
  | nil =>
      cases run with
      | step earlier taken => exact ⟨earlier, taken⟩
  | cons head rest ih =>
      cases run with
      | step earlier _ => exact ih earlier

/-- A run up to and with one of its events. -/
theorem Run.upTo {step : State → Action → State → Prop} {start state : State}
    {newer older : List (Event State Action)} {event : Event State Action}
    (run : Run step start (newer ++ event :: older) state)
    : Run step start (event :: older) event.after := by
  obtain ⟨earlier, taken⟩ := run.split
  exact earlier.step taken

theorem Run.taken {step : State → Action → State → Prop} {start state : State}
    {history : List (Event State Action)} (run : Run step start history state)
    {event : Event State Action} (member : event ∈ history)
    : step event.before event.action event.after := by
  obtain ⟨newer, older, is⟩ := List.append_of_mem member
  rw [is] at run
  exact run.split.2

/-- Before each of its events a run of allowed steps is a shorter one. -/
theorem Run.upBefore {step : State → Action → State → Prop} {start state : State}
    {history : List (Event State Action)} {condition : State → Action → Prop}
    (run : Run step start history state) (meets : Meets condition history)
    {event : Event State Action} (member : event ∈ history)
    : ∃ older, Run step start older event.before ∧ Meets condition older
      ∧ step event.before event.action event.after := by
  obtain ⟨newer, older, rfl⟩ := List.append_of_mem member
  obtain ⟨earlier, taken⟩ := run.split
  exact ⟨older, earlier, (meets_cons.mp meets.older).2, taken⟩

/-- The step relation of a total transition function. -/
def StepOf (next : State → Action → State) (state : State) (action : Action)
    (result : State) : Prop :=
  result = next state action

/-- The history a list of actions leaves under a transition function, newest event first. -/
def trace (next : State → Action → State)
    : State → List (Event State Action) → List Action → List (Event State Action)
  | _, history, [] => history
  | state, history, action :: rest =>
      trace next (next state action) (⟨state, action, next state action⟩ :: history) rest

theorem Run.trace {next : State → Action → State} {start state : State}
    {history : List (Event State Action)} (run : Run (StepOf next) start history state)
    (actions : List Action)
    : Run (StepOf next) start (trace next state history actions)
      (actions.foldl next state) := by
  induction actions generalizing state history with
  | nil => exact run
  | cons action rest ih => exact ih (run.step rfl)

/-- Actions that are allowed whatever the state leave a history of allowed steps. -/
theorem meets_trace {condition : State → Action → Prop} {next : State → Action → State}
    {state : State} {history : List (Event State Action)} (older : Meets condition history)
    {actions : List Action} (allowed : ∀ action ∈ actions, ∀ state, condition state action)
    : Meets condition (trace next state history actions) := by
  induction actions generalizing state history with
  | nil => exact older
  | cons action rest ih =>
      refine ih (meets_cons.mpr ⟨allowed action List.mem_cons_self state, older⟩) ?_
      intro later member
      exact allowed later (List.mem_cons_of_mem _ member)

end Delonix.Library.Runs

/-! Operations that interleave over one shared world.
Each operation has a stage of its own; a step advances one operation, or stirs the world
from outside. The invariant rule asks for one fact about the world and one about each stage,
and that a step of one operation leaves the facts of the others standing.
-/

namespace Delonix.Library.Interleaving

open Delonix.Library.Runs

variable {World Stage Act Outside : Type}

structure State (World Stage : Type) where
  world : World
  ops : Nat → Stage

inductive Action (Act Outside : Type) where
  | op (i : Nat) (act : Act)
  | outside (event : Outside)

/-- How operations advance and what happens to the world without them. -/
structure System (World Stage Act Outside : Type) where
  advance : Nat → World → Stage → Act → World × Stage
  stir : World → Outside → World

def System.perform (system : System World Stage Act Outside) (state : State World Stage)
    : Action Act Outside → State World Stage
  | .op i act =>
      let next := system.advance i state.world (state.ops i) act
      ⟨next.1, Function.update state.ops i next.2⟩
  | .outside event => ⟨system.stir state.world event, state.ops⟩

theorem System.perform_op_self (system : System World Stage Act Outside)
    (state : State World Stage) (i : Nat) (act : Act)
    : (system.perform state (.op i act)).ops i
      = (system.advance i state.world (state.ops i) act).2 := by
  simp [System.perform]

theorem System.perform_op_other (system : System World Stage Act Outside)
    {state : State World Stage} {i j : Nat} {act : Act} (other : j ≠ i)
    : (system.perform state (.op i act)).ops j = state.ops j := by
  simp [System.perform, other]

/-- The world meets `inv`, and every operation's stage fits the world. -/
structure Fitting (inv : World → Prop) (fits : World → Nat → Stage → Prop)
    (state : State World Stage) : Prop where
  world : inv state.world
  ops : ∀ i, fits state.world i (state.ops i)

/-- What one allowed step has to keep: the world's invariant, the fit of the operation that
moved, and the fit of every other one in the world it left behind.
-/
structure Keeps (inv : World → Prop) (fits : World → Nat → Stage → Prop) (before after : World)
    (i : Nat) (stage : Stage) : Prop where
  world : inv after
  moved : fits after i stage
  others : ∀ j, j ≠ i → ∀ other, fits before j other → fits after j other

/-- A step that leaves the world as it is only has to fit where it leads. -/
theorem Keeps.unmoved {inv : World → Prop} {fits : World → Nat → Stage → Prop} {world : World}
    {i : Nat} {stage : Stage} (holds : inv world) (moved : fits world i stage)
    : Keeps inv fits world world i stage :=
  ⟨holds, moved, fun _ _ _ other => other⟩

/-- One operation moved: the world, its own stage and the stages the others are in still fit. -/
theorem Fitting.moved {system : System World Stage Act Outside} {inv : World → Prop}
    {fits : World → Nat → Stage → Prop} {state : State World Stage} {i : Nat} {act : Act}
    (world : inv (system.advance i state.world (state.ops i) act).1)
    (moved : fits (system.advance i state.world (state.ops i) act).1 i
      (system.advance i state.world (state.ops i) act).2)
    (others : ∀ j, j ≠ i →
      fits (system.advance i state.world (state.ops i) act).1 j (state.ops j))
    : Fitting inv fits (system.perform state (.op i act)) := by
  refine ⟨world, ?_⟩
  intro j
  by_cases same : j = i
  · rw [same, system.perform_op_self]
    exact moved
  · rw [system.perform_op_other same]
    exact others j same

theorem Fitting.perform {system : System World Stage Act Outside} {inv : World → Prop}
    {fits : World → Nat → Stage → Prop} {state : State World Stage}
    {action : Action Act Outside} (holds : Fitting inv fits state)
    (op : ∀ i act, action = .op i act →
      Keeps inv fits state.world (system.advance i state.world (state.ops i) act).1 i
        (system.advance i state.world (state.ops i) act).2)
    (outside : ∀ event, action = .outside event → inv (system.stir state.world event)
      ∧ ∀ j other, fits state.world j other → fits (system.stir state.world event) j other)
    : Fitting inv fits (system.perform state action) := by
  cases action with
  | op i act =>
      obtain ⟨world, moved, others⟩ := op i act rfl
      exact .moved world moved fun j same => others j same _ (holds.ops j)
  | outside event =>
      obtain ⟨world, others⟩ := outside event rfl
      exact ⟨world, fun j => others j _ (holds.ops j)⟩

end Delonix.Library.Interleaving

/-! Endless sequences of states and a measure that no step raises: such a sequence gets done, or
from some place on its measure stands.
-/

namespace Delonix.Library.Progress

/-- Where each step gets done, lowers the measure or idles, the sequence gets done at some place,
or idles from some place on. The place is the one of the least measure.
-/
theorem done_or_idle {σ μ : Type} [LinearOrder μ] [WellFoundedLT μ] {states : Nat → σ}
    {measure : σ → μ} {Done : σ → Prop} {Idle : Nat → Prop}
    (step : ∀ n, Done (states (n + 1)) ∨ measure (states (n + 1)) < measure (states n)
      ∨ Idle n ∧ measure (states (n + 1)) = measure (states n))
    : (∃ n, Done (states n)) ∨ ∃ n, ∀ i, n ≤ i → Idle i := by
  by_cases done : ∃ n, Done (states n)
  · exact .inl done
  have stands : ∀ n, measure (states (n + 1)) < measure (states n)
      ∨ Idle n ∧ measure (states (n + 1)) = measure (states n) :=
    fun n => (step n).resolve_left fun finished => done ⟨n + 1, finished⟩
  have falls : Antitone fun n => measure (states n) :=
    antitone_nat_of_succ_le fun n => (stands n).elim le_of_lt fun idle => idle.2.le
  obtain ⟨_, ⟨n, rfl⟩, least⟩ :=
    wellFounded_lt.has_min (Set.range fun n => measure (states n)) ⟨_, 0, rfl⟩
  refine .inr ⟨n, fun i le => ?_⟩
  rcases stands i with lower | idle
  · exact absurd (lower.trans_le (falls le)) (least _ ⟨i + 1, rfl⟩)
  · exact idle.1

end Delonix.Library.Progress
