import Mathlib.Tactic.Common

/-! Programs of steps any of which may fail, and which may be cut between any two of them. A
triple says what a program needs, what it leaves when it ends, and what it leaves wherever it
stops before that.
-/

namespace Delonix.Library.Faults

inductive Fault where
  | fails
  /-- The program is cut before the step. -/
  | crashes
deriving DecidableEq, Repr

/-- Which steps of a run go wrong. -/
abbrev FaultPlan (Step : Type) := Step → Option Fault

def noFaults {Step : Type} : FaultPlan Step := fun _ => none

/-- Why a program did not end. -/
inductive Stop (ε : Type) where
  | refused (reason : ε)
  | crashed
deriving DecidableEq, Repr

/-- A program on a world, with what it returns and the world it leaves. -/
def Prog (World ε α : Type) := World → Except (Stop ε) α × World

variable {World ε α β Step : Type}

namespace Prog

def bind (prog : Prog World ε α) (next : α → Prog World ε β) : Prog World ε β := fun w =>
  match prog w with
  | (.ok a, w) => next a w
  | (.error stop, w) => (.error stop, w)

instance : Monad (Prog World ε) where
  pure a := fun w => (.ok a, w)
  bind := Prog.bind

def refuse (reason : ε) : Prog World ε α := fun w => (.error (.refused reason), w)

/-- A step: what it does where it can, and what it leaves when it fails. It tells the program
whether it was done.
-/
def attempt (faults : FaultPlan Step) (step : Step) (does : World → Option (α × World))
    (left : World → World) : Prog World ε (Option α) := fun w =>
  match faults step with
  | none =>
      match does w with
      | some (a, w) => (.ok (some a), w)
      | none => (.ok none, w)
  | some .fails => (.ok none, left w)
  | some .crashes => (.error .crashed, w)

/-- Deals with a refusal; a crash leaves nobody to deal with it. -/
def onRefusal (prog : Prog World ε α) (handle : ε → Prog World ε α) : Prog World ε α := fun w =>
  match prog w with
  | (.error (.refused reason), w) => handle reason w
  | other => other

end Prog

namespace Prog

theorem bind_apply (prog : Prog World ε α) (next : α → Prog World ε β) (w : World)
    : (prog >>= next) w
      = match prog w with
        | (.ok a, w) => next a w
        | (.error stop, w) => (.error stop, w) :=
  rfl

end Prog

/-- From a world that meets `pre` the program ends in one that meets `post`, or stops in one that
meets `cut`.
-/
def Leaves (pre : World → Prop) (prog : Prog World ε α) (post : α → World → Prop)
    (cut : World → Prop) : Prop :=
  ∀ w, pre w →
    match prog w with
    | (.ok a, w') => post a w'
    | (.error _, w') => cut w'

section

variable {pre : World → Prop} {post : α → World → Prop} {cut : World → Prop}

theorem Leaves.weaken {prog : Prog World ε α} {pre' : World → Prop} {post' : α → World → Prop}
    {cut' : World → Prop} (leaves : Leaves pre' prog post' cut') (before : ∀ w, pre w → pre' w)
    (after : ∀ a w, post' a w → post a w) (stopped : ∀ w, cut' w → cut w)
    : Leaves pre prog post cut := by
  intro w holds
  have made := leaves w (before w holds)
  split at made
  · exact after _ _ made
  · exact stopped _ made

theorem Leaves.of_ok {prog : Prog World ε α} (leaves : Leaves pre prog post cut) {w w' : World}
    {a : α} (holds : pre w) (ran : prog w = (.ok a, w'))
    : post a w' := by
  have made := leaves w holds
  rw [ran] at made
  exact made

theorem Leaves.of_error {prog : Prog World ε α} (leaves : Leaves pre prog post cut) {w w' : World}
    {stop : Stop ε} (holds : pre w) (ran : prog w = (.error stop, w'))
    : cut w' := by
  have made := leaves w holds
  rw [ran] at made
  exact made

/-- A program that stops nowhere ends. -/
theorem Leaves.total {prog : Prog World ε α} (leaves : Leaves pre prog post fun _ => False)
    {w : World} (holds : pre w)
    : ∃ a, (prog w).1 = .ok a := by
  have made := leaves w holds
  split at made
  case h_1 a w' ran => exact ⟨a, by rw [ran]⟩
  case h_2 => exact made.elim

/-- What the worlds it starts in have in common can be had beforehand. -/
theorem Leaves.assume {prog : Prog World ε α} {fact : Prop} (given : ∀ w, pre w → fact)
    (leaves : fact → Leaves pre prog post cut)
    : Leaves pre prog post cut :=
  fun w holds => leaves (given w holds) w holds

/-- Nothing is said of a program that may stop anywhere. -/
theorem Leaves.any {prog : Prog World ε α} (anywhere : ∀ w, cut w)
    : Leaves pre prog (fun _ _ => True) cut := by
  intro w _
  split
  · trivial
  · exact anywhere _

/-- What has nothing to do with the world stays true. -/
theorem Leaves.fact (prog : Prog World ε α) {fact : Prop}
    : Leaves (fun _ => fact) prog (fun _ _ => fact) (fun _ => fact) := by
  intro w holds
  split <;> exact holds

theorem Leaves.pure {a : α} (holds : ∀ w, pre w → post a w)
    : Leaves pre (Pure.pure a : Prog World ε α) post cut :=
  holds

theorem Leaves.refuse {reason : ε} (holds : ∀ w, pre w → cut w)
    : Leaves pre (Prog.refuse reason : Prog World ε α) post cut :=
  holds

theorem Leaves.bind {prog : Prog World ε α} {next : α → Prog World ε β}
    (middle : α → World → Prop) {post : β → World → Prop} (first : Leaves pre prog middle cut)
    (later : ∀ a, Leaves (middle a) (next a) post cut)
    : Leaves pre (prog >>= next) post cut := by
  intro w holds
  have made := first w holds
  change match Prog.bind prog next w with
    | (.ok a, w') => post a w'
    | (.error _, w') => cut w'
  rw [Prog.bind]
  split at made
  case h_1 a w' _ => exact later a w' made
  case h_2 => exact made

theorem Leaves.attempt {faults : FaultPlan Step} {step : Step} {does : World → Option (α × World)}
    {left : World → World} {post : Option α → World → Prop}
    (done : ∀ w a w', pre w → faults step = none → does w = some (a, w') → post (some a) w')
    (undone : ∀ w, pre w → faults step = none → does w = none → post none w)
    (failed : ∀ w, pre w → faults step = some .fails → post none (left w))
    (crashed : ∀ w, pre w → faults step = some .crashes → cut w)
    : Leaves pre (Prog.attempt faults step does left : Prog World ε (Option α)) post cut := by
  intro w holds
  rw [Prog.attempt]
  cases fault : faults step with
  | none =>
      cases made : does w with
      | none => simpa only [made] using undone w holds fault made
      | some result => simpa only [made] using done w result.1 result.2 holds fault made
  | some fault' =>
      cases fault' with
      | fails => exact failed w holds fault
      | crashes => exact crashed w holds fault

theorem Leaves.onRefusal {prog : Prog World ε α} {handle : ε → Prog World ε α}
    {middle : World → Prop} (tried : Leaves pre prog post middle)
    (handled : ∀ reason, Leaves middle (handle reason) post cut)
    (crashed : ∀ w, middle w → cut w)
    : Leaves pre (prog.onRefusal handle) post cut := by
  intro w holds
  have made := tried w holds
  rw [Prog.onRefusal]
  split at made
  case h_1 a w' ran =>
    rw [ran]
    exact made
  case h_2 stop w' ran =>
    rw [ran]
    cases stop with
    | refused reason => exact handled reason w' made
    | crashed => exact crashed w' made

end

end Delonix.Library.Faults

/-! Programs whose world is the log of what they did, newest first. They only add to it, so what
every entry meets is read off from the steps they are made of.
-/

namespace Delonix.Library.Logged

open Delonix.Library.Faults

variable {Entry ε α β : Type}

abbrev LogProg (Entry ε α : Type) := Prog (List Entry) ε α

/-- A step that leaves one entry, and whose answer may depend on all of them. -/
def entry (e : Entry) (answer : List Entry → Except ε α) : LogProg Entry ε α := fun log =>
  (match answer (e :: log) with
    | .ok a => .ok a
    | .error reason => .error (.refused reason), e :: log)

/-- A step that leaves the given entries. -/
def entries (made : List Entry) (answer : List Entry → α) : LogProg Entry ε α := fun log =>
  (.ok (answer (made ++ log)), made ++ log)

/-- The program adds the entries it starts with and, after them, such as meet `each`; what it
returns meets `post`.
-/
def Adds (start : List Entry) (each : Entry → Prop) (post : α → Prop) (prog : LogProg Entry ε α)
    : Prop :=
  ∀ log, ∃ more, (prog log).2 = more ++ (start ++ log) ∧ (∀ e ∈ more, each e)
    ∧ ∀ a, (prog log).1 = .ok a → post a

section

variable {start : List Entry} {each : Entry → Prop} {post : α → Prop}

/-- Where it starts need not be said when it is like the rest. -/
theorem Adds.anywhere {prog : LogProg Entry ε α} (adds : Adds start each post prog)
    (meets : ∀ e ∈ start, each e)
    : Adds [] each post prog := by
  intro log
  obtain ⟨more, is, all, made⟩ := adds log
  refine ⟨more ++ start, by rw [is, List.append_assoc]; rfl, ?_, made⟩
  intro e member
  rcases List.mem_append.mp member with inMore | inStart
  · exact all e inMore
  · exact meets e inStart

theorem Adds.allowed {prog : LogProg Entry ε α} {e : Entry} (adds : Adds [e] each post prog)
    (meets : each e)
    : Adds [] each post prog :=
  adds.anywhere fun other member => by rw [List.mem_singleton.mp member]; exact meets

theorem Adds.mem {prog : LogProg Entry ε α} (adds : Adds start each post prog)
    (log : List Entry) {e : Entry} (member : e ∈ start)
    : e ∈ (prog log).2 := by
  obtain ⟨more, is, _⟩ := adds log
  rw [is]
  exact List.mem_append_right _ (List.mem_append_left _ member)

theorem Adds.of_nil {prog : LogProg Entry ε α} (adds : Adds [] each post prog)
    : ∀ e ∈ (prog []).2, each e := by
  obtain ⟨more, is, all, _⟩ := adds []
  rw [is, List.append_nil, List.append_nil]
  exact all

theorem Adds.pure {a : α} (holds : post a)
    : Adds [] each post (Pure.pure a : LogProg Entry ε α) := by
  intro log
  refine ⟨[], rfl, nofun, ?_⟩
  intro b ran
  cases ran
  exact holds

theorem Adds.refuse {reason : ε} : Adds [] each post (Prog.refuse reason : LogProg Entry ε α) :=
  fun _ => ⟨[], rfl, nofun, nofun⟩

theorem Adds.entry {e : Entry} {answer : List Entry → Except ε α}
    (answers : ∀ log a, answer log = .ok a → post a)
    : Adds [e] each post (entry e answer) := by
  intro log
  refine ⟨[], rfl, nofun, ?_⟩
  intro a ran
  cases given : answer (e :: log) with
  | error reason => simp [Logged.entry, given] at ran
  | ok b =>
      simp only [Logged.entry, given, Except.ok.injEq] at ran
      exact answers _ _ (ran ▸ given)

theorem Adds.entries {made : List Entry} {answer : List Entry → α}
    (answers : ∀ log, post (answer log))
    : Adds made each post (entries made answer : LogProg Entry ε α) := by
  intro log
  refine ⟨[], rfl, nofun, ?_⟩
  intro a ran
  cases ran
  exact answers _

theorem Adds.entries_any {made : List Entry} {answer : List Entry → α}
    : Adds made each (fun _ => True) (Logged.entries made answer : LogProg Entry ε α) :=
  Adds.entries fun _ => trivial

/-- What a log grew by in two steps. -/
theorem grown {more more' log log' final : List Entry}
    (one : log' = more ++ (start ++ log)) (two : final = more' ++ ([] ++ log'))
    (first : ∀ e ∈ more, each e) (second : ∀ e ∈ more', each e)
    : ∃ all, final = all ++ (start ++ log) ∧ ∀ e ∈ all, each e := by
  refine ⟨more' ++ more, by rw [two, one]; simp, ?_⟩
  intro e member
  rcases List.mem_append.mp member with new | old
  · exact second e new
  · exact first e old

theorem Adds.bind {prog : LogProg Entry ε α} {next : α → LogProg Entry ε β} {mid : α → Prop}
    {post : β → Prop} (one : Adds start each mid prog)
    (later : ∀ a, mid a → Adds [] each post (next a))
    : Adds start each post (prog >>= next) := by
  intro log
  obtain ⟨more, is, all, made⟩ := one log
  rw [Prog.bind_apply]
  cases ran : prog log with
  | mk result log' =>
      rw [ran] at is made
      cases result with
      | error => exact ⟨more, is, all, nofun⟩
      | ok a =>
          obtain ⟨more', is', all', made'⟩ := later a (made a rfl) log'
          obtain ⟨both, grows, meet⟩ := grown is is' all all'
          exact ⟨both, grows, meet, made'⟩

/-- The second step may make nothing of what the first returned. -/
theorem Adds.next {prog : LogProg Entry ε α} {next : α → LogProg Entry ε β} {post : β → Prop}
    (one : Adds start each (fun _ => True) prog) (later : ∀ a, Adds [] each post (next a))
    : Adds start each post (prog >>= next) :=
  Adds.bind one fun a _ => later a

theorem Adds.onRefusal {prog : LogProg Entry ε α} {handle : ε → LogProg Entry ε α}
    (one : Adds start each post prog) (handled : ∀ reason, Adds [] each post (handle reason))
    : Adds start each post (prog.onRefusal handle) := by
  intro log
  obtain ⟨more, is, all, made⟩ := one log
  rw [Prog.onRefusal]
  split
  case h_1 reason log' ran =>
    obtain ⟨more', is', all', made'⟩ := handled reason log'
    rw [ran] at is
    obtain ⟨both, grows, meet⟩ := grown is is' all all'
    exact ⟨both, grows, meet, made'⟩
  case h_2 => exact ⟨more, is, all, made⟩

end

end Delonix.Library.Logged
