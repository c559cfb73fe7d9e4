import Delonix.Store.Update

/-! An update acts on the container it resolved. The lock and the file are those of the id that
the first lookup resolved, so what is read and written under the lock is that record, as long as
the second lookup does not fall through to another one.
-/

namespace Delonix.Store

open Delonix.Library.Interleaving
open Delonix.Library.Runs

variable {Body : Type}

/-- What a step of the history wrote. -/
def eventWritten (event : Event (StoreState Body) (StoreAction Body))
    : Option (String × Option (Container Body)) :=
  match event.action with
  | .op i act => written event.before.world (event.before.ops i) act
  | .outside _ => none

/-- What the newest write of a history left in a file, or what the file held at the start. -/
def newestWrite (start : Files Body) (file : String) : StoreHistory Body → Option (Container Body)
  | [] => start file
  | event :: older =>
      match eventWritten event with
      | some (target, record) =>
          if target = file then record else newestWrite start file older
      | none => newestWrite start file older

/-- The process works under a lock or is about to. -/
def Stage.locked : Stage Body → Bool
  | .idle | .returned _ => false
  | _ => true

/-- Every call of `update` that resolved an id acts on the record of that id. -/
structure ActsOnResolved (start : Files Body) (history : StoreHistory Body) : Prop where
  /-- What it reads under the lock is the record of that id, as the newest write left it. -/
  reads : ∀ newer event older, history = newer ++ event :: older
    → ∀ i f id look read, event.before.ops i = .rereading (.update f) id look
    → event.after.ops i = .applying (.update f) id read
    → read.id = id
      ∧ event.before.world.files (safeKey id) = some read
      ∧ event.before.world.locks (safeKey id) = some i
      ∧ newestWrite start (safeKey id) older = some read
  /-- It succeeds only by applying `f` to what it read and, if `f` asks for it, writing the
  result to that record's file, still under the lock.
  -/
  succeeds : ∀ event ∈ history, ∀ i f id outcome,
    event.after.ops i = .releasing (.update f) id (.ok outcome)
    → event.before.ops i = event.after.ops i
      ∨ ∃ read, event.before.ops i = .applying (.update f) id read
        ∧ outcome = some (f read).1
        ∧ (f read).1.id = id
        ∧ event.before.world.locks (safeKey id) = some i
        ∧ event.after.world.files = if (f read).2 then
            Function.update event.before.world.files (safeKey id) (some (f read).1)
          else event.before.world.files
  /-- No other step of it writes anything. -/
  elsewhere : ∀ event ∈ history, ∀ i act, event.action = .op i act
    → (event.before.ops i).locked = true
    → (∀ work id read, event.before.ops i ≠ .applying work id read)
    → event.after.world.files = event.before.world.files
  /-- While it has read and not yet written, no other call under a lock changes the record. -/
  undisturbed : ∀ event ∈ history, ∀ i f id read,
    event.before.ops i = .applying (.update f) id read
    → ∀ j act, event.action = .op j act → j ≠ i → (event.before.ops j).locked = true
    → event.after.world.files (safeKey id) = event.before.world.files (safeKey id)

/-- An update whose turn it is finds what it must to stay with the id it resolved. -/
def KeepsToResolved (state : StoreState Body) (action : StoreAction Body) : Prop :=
  ∀ i, action = .op i (.go .next) → (state.ops i).KeepsTo state.world.files

instance (state : StoreState Body) : (action : StoreAction Body)
    → Decidable (KeepsToResolved state action)
  | .op i (.go .next) =>
      decidable_of_iff ((state.ops i).KeepsTo state.world.files) (by simp [KeepsToResolved])
  | .op _ (.go (.visit _)) | .op _ (.go .fail) | .op _ (.start _) | .op _ .die =>
      isTrue (by simp [KeepsToResolved])
  | .outside event => nomatch event

theorem Stage.Fits.carry {before after : StoreDir Body} {i : Nat} {stage : Stage Body}
    (fits : stage.Fits before i)
    (locks : ∀ file, before.locks file = some i → after.locks file = some i)
    : stage.Fits after i := by
  cases stage with
  | idle | resolving | locking | returned => trivial
  | rereading work id look =>
      have own := locks _ fits.lock
      rcases work with f | keep
      · rcases look with _ | found | file
        · exact own
        · exact own
        · exact ⟨own, fits.2⟩
      · exact own
  | applying work id read =>
      have own := locks _ fits.lock_of_applying
      rcases work with f | keep
      · exact ⟨own, fits.2⟩
      · exact own
  | releasing work id outcome => exact locks _ fits

/-- Every process fits the store. -/
abbrev AllFit (state : StoreState Body) : Prop :=
  Fitting (fun _ => True) (fun store i stage => stage.Fits store i) state

theorem AllFit.perform {state : StoreState Body} (fit : AllFit state)
    {action : StoreAction Body} (keeps : KeepsToResolved state action)
    : AllFit ((storeSystem Body).perform state action) := by
  refine Fitting.perform fit ?_ (fun event => event.elim)
  rintro i act rfl
  refine ⟨trivial, advance_fits (fit.ops i) act ?_, ?_⟩
  · rintro rfl
    exact keeps i rfl
  · intro j other stage fits
    exact fits.carry fun file held => advance_locks (fit.ops i) act other held

theorem allFit_of_run {files : Files Body} {history : StoreHistory Body}
    {state : StoreState Body}
    (run : Run (StepOf (storeSystem Body).perform) (StoreState.fresh files) history state)
    (keeps : Meets KeepsToResolved history)
    : AllFit state := by
  have idle : AllFit (StoreState.fresh files) := ⟨trivial, fun _ => trivial⟩
  refine run.invariant (fun _ => AllFit) idle ?_ keeps
  rintro history state action next fit rfl allowed
  exact fit.perform allowed

/-- A file holds what the newest write left there. -/
theorem files_eq_newestWrite {files : Files Body} {history : StoreHistory Body}
    {state : StoreState Body}
    (run : Run (StepOf (storeSystem Body).perform) (StoreState.fresh files) history state)
    (file : String)
    : state.world.files file = newestWrite files file history := by
  induction run with
  | start => rfl
  | @step history state next action earlier taken ih =>
      subst taken
      rcases action with ⟨i, act⟩ | event
      · have step := congrFun (advance_files i state.world (state.ops i) act) file
        simp only [newestWrite, eventWritten]
        refine step.trans ?_
        cases wrote : written state.world (state.ops i) act with
        | none => exact ih
        | some write =>
            obtain ⟨target, record⟩ := write
            by_cases same : target = file
            · simp [same]
            · simp [same, Function.update_of_ne (Ne.symm same), ih]
      · exact event.elim

theorem advance_eq_applying {i : Nat} {store : StoreDir Body} {work : Locked Body}
    {id : String} {look : LoadStage} {act : Act Body} {read : Container Body}
    (applying : (advance i store (.rereading work id look) act).2 = .applying work id read)
    : act = .go .next ∧ ∃ file, look = .read file ∧ store.files file = some read := by
  rcases act with call | act | _
  · cases applying
  · simp only [advance, proceed] at applying
    split at applying
    case h_1 => cases applying
    case h_2 c loaded =>
      obtain rfl : c = read := (Stage.applying.inj applying).2.2
      obtain ⟨rfl, file, rfl, found⟩ := load_eq_loaded loaded
      exact ⟨rfl, file, rfl, found⟩
    case h_3 => cases applying
  · cases applying

theorem advance_eq_releasing {i : Nat} {store : StoreDir Body} {stage : Stage Body}
    {act : Act Body} {f : Container Body → Container Body × Bool} {id : String}
    {outcome : Option (Container Body)}
    (releasing : (advance i store stage act).2 = .releasing (.update f) id (.ok outcome))
    : stage = .releasing (.update f) id (.ok outcome)
      ∨ ∃ read, stage = .applying (.update f) id read ∧ act = .go .next
        ∧ outcome = some (f read).1 := by
  rcases act with call | act | _
  · rcases stage with _ | _ | _ | _ | _ | _ | _
    · rcases call with _ | id | c
      · cases releasing
      · simp only [advance, begun] at releasing
        split at releasing <;> cases releasing
      · cases releasing
    all_goals exact .inl releasing
  · cases stage with
    | idle => cases releasing
    | resolving work key look =>
        simp only [advance, proceed] at releasing
        split at releasing <;> cases releasing
    | locking work id =>
        cases act with
        | visit | fail => cases releasing
        | next =>
            simp only [advance, proceed] at releasing
            split at releasing <;> cases releasing
    | rereading work id look =>
        simp only [advance, proceed] at releasing
        split at releasing <;> cases releasing
    | applying work id read =>
        cases act with
        | visit | fail => cases releasing
        | next =>
            obtain ⟨rfl, rfl, ended⟩ := Stage.releasing.inj releasing
            have ended : (.ok (some (f read).1) : Outcome Body) = .ok outcome := ended
            exact .inr ⟨read, rfl, rfl, (Except.ok.inj ended).symm⟩
    | releasing work id outcome =>
        cases act with
        | visit | fail => exact .inl releasing
        | next => cases releasing
    | returned outcome => cases act <;> cases releasing
  · cases releasing

/-- A step of a call under a lock writes only the file whose lock it holds. -/
theorem lock_of_written {i : Nat} {store : StoreDir Body} {stage : Stage Body} {act : Act Body}
    (fits : stage.Fits store i) (keeps : act = .go .next → stage.KeepsTo store.files)
    (locked : stage.locked = true) {target : String} {record : Option (Container Body)}
    (wrote : written store stage act = some (target, record))
    : store.locks target = some i := by
  rcases act with call | act | _
  · rcases stage with _ | _ | _ | _ | _ | _ | _
    · cases locked
    all_goals cases call <;> cases wrote
  · rcases act with _ | _ | _
    · cases stage with
      | idle | returned => cases locked
      | resolving | locking | rereading | releasing => cases wrote
      | applying work id read =>
          have own := fits.lock_of_applying
          rcases work with f | keep
          · have same : (f read).1.id = id := (keeps rfl).trans fits.2
            simp only [written] at wrote
            split at wrote
            · obtain ⟨rfl, _⟩ := Prod.mk.inj (Option.some.inj wrote)
              rw [same]
              exact own
            · cases wrote
          · simp only [written] at wrote
            split at wrote
            · cases wrote
            · split at wrote
              · obtain ⟨rfl, _⟩ := Prod.mk.inj (Option.some.inj wrote)
                exact own
              · cases wrote
    · cases wrote
    · cases wrote
  · cases wrote

/-- Only the work itself writes. -/
theorem written_eq_none {store : StoreDir Body} {stage : Stage Body} (act : Act Body)
    (locked : stage.locked = true) (before : ∀ work id read, stage ≠ .applying work id read)
    : written store stage act = none := by
  cases stage with
  | idle | returned => cases locked
  | applying work id read => exact absurd rfl (before work id read)
  | resolving | locking | rereading | releasing =>
      rcases act with call | act | _
      · cases call <;> rfl
      · cases act <;> rfl
      · rfl

section Steps

variable {state : StoreState Body} {action : StoreAction Body}

/-- A process whose stage changed took the step itself. -/
theorem op_of_changed {i : Nat}
    (changed : ((storeSystem Body).perform state action).ops i ≠ state.ops i)
    : ∃ act, action = .op i act
      ∧ ((storeSystem Body).perform state action).ops i
        = (advance i state.world (state.ops i) act).2 := by
  rcases action with ⟨j, act⟩ | event
  · by_cases same : i = j
    · subst same
      exact ⟨act, rfl, System.perform_op_self _ _ _ _⟩
    · exact absurd (System.perform_op_other _ same) changed
  · exact event.elim

theorem AllFit.reads (fit : AllFit state) (keeps : KeepsToResolved state action) {i : Nat}
    {f : Container Body → Container Body × Bool} {id : String} {look : LoadStage}
    {read : Container Body} (was : state.ops i = .rereading (.update f) id look)
    (is : ((storeSystem Body).perform state action).ops i = .applying (.update f) id read)
    : read.id = id ∧ state.world.files (safeKey id) = some read
      ∧ state.world.locks (safeKey id) = some i := by
  have changed : ((storeSystem Body).perform state action).ops i ≠ state.ops i := by
    simp [is, was]
  obtain ⟨act, rfl, moved⟩ := op_of_changed changed
  rw [is, was] at moved
  obtain ⟨rfl, file, rfl, found⟩ := advance_eq_applying moved.symm
  have own := fit.ops i
  have target := keeps i rfl
  simp only [was] at own target
  obtain ⟨held, rfl⟩ := own
  exact ⟨target read found, found, held⟩

theorem AllFit.succeeds (fit : AllFit state) (keeps : KeepsToResolved state action) {i : Nat}
    {f : Container Body → Container Body × Bool} {id : String}
    {outcome : Option (Container Body)}
    (is : ((storeSystem Body).perform state action).ops i
      = .releasing (.update f) id (.ok outcome))
    : state.ops i = ((storeSystem Body).perform state action).ops i
      ∨ ∃ read, state.ops i = .applying (.update f) id read
        ∧ outcome = some (f read).1
        ∧ (f read).1.id = id
        ∧ state.world.locks (safeKey id) = some i
        ∧ ((storeSystem Body).perform state action).world.files = if (f read).2 then
            Function.update state.world.files (safeKey id) (some (f read).1)
          else state.world.files := by
  by_cases changed : ((storeSystem Body).perform state action).ops i = state.ops i
  · exact .inl changed.symm
  · obtain ⟨act, rfl, moved⟩ := op_of_changed changed
    rcases advance_eq_releasing (moved.symm.trans is) with same | ⟨read, was, rfl, rfl⟩
    · exact .inl (same.trans is.symm)
    · have own := fit.ops i
      have target := keeps i rfl
      simp only [was] at own target
      have keptId : (f read).1.id = id := target.trans own.2
      refine .inr ⟨read, was, rfl, keptId, own.1, ?_⟩
      have step := advance_files i state.world (state.ops i) (.go .next)
      simp only [was, written, keptId] at step
      simp only [System.perform, storeSystem, was, step]
      cases (f read).2 <;> rfl

theorem AllFit.undisturbed (fit : AllFit state) (keeps : KeepsToResolved state action) {i : Nat}
    {f : Container Body → Container Body × Bool} {id : String} {read : Container Body}
    (was : state.ops i = .applying (.update f) id read) {j : Nat} {act : Act Body}
    (isOp : action = .op j act) (other : j ≠ i) (locked : (state.ops j).locked = true)
    : ((storeSystem Body).perform state action).world.files (safeKey id)
      = state.world.files (safeKey id) := by
  subst isOp
  have own : state.world.locks (safeKey id) = some i := by
    have fits := fit.ops i
    rw [was] at fits
    exact fits.1
  refine (congrFun (advance_files j state.world (state.ops j) act) (safeKey id)).trans ?_
  cases wrote : written state.world (state.ops j) act with
  | none => rfl
  | some write =>
      obtain ⟨target, record⟩ := write
      have held : state.world.locks target = some j :=
        lock_of_written (fit.ops j) (fun is => keeps j (is ▸ rfl)) locked wrote
      have apart : safeKey id ≠ target := by
        rintro rfl
        exact other (Option.some.inj (held.symm.trans own))
      exact Function.update_of_ne apart _ _

end Steps

/-- In every run whose re-reads keep to the resolved id, updates act on the container they
resolved.
-/
theorem actsOnResolved {files : Files Body} {history : StoreHistory Body}
    {state : StoreState Body}
    (run : Run (StepOf (storeSystem Body).perform) (StoreState.fresh files) history state)
    (keeps : Meets KeepsToResolved history)
    : ActsOnResolved files history := by
  have fits (event) (member : event ∈ history)
      : AllFit event.before
        ∧ event.after = (storeSystem Body).perform event.before event.action := by
    obtain ⟨older, earlier, allowed, taken⟩ := run.upBefore keeps member
    exact ⟨allFit_of_run earlier allowed, taken⟩
  refine ⟨?_, ?_, ?_, ?_⟩
  · intro newer event older cut i f id look read was is
    subst cut
    have member : event ∈ newer ++ event :: older := by simp
    obtain ⟨fit, taken⟩ := fits event member
    rw [taken] at is
    obtain ⟨sameId, found, held⟩ := fit.reads (keeps event member) was is
    have newest := files_eq_newestWrite run.split.1 (safeKey id)
    exact ⟨sameId, found, held, newest.symm.trans found⟩
  · intro event member i f id outcome is
    obtain ⟨fit, taken⟩ := fits event member
    rw [taken] at is ⊢
    exact fit.succeeds (keeps event member) is
  · intro event member i act isOp locked before
    obtain ⟨_, taken⟩ := fits event member
    have step := advance_files i event.before.world (event.before.ops i) act
    rw [written_eq_none act locked before] at step
    rw [taken, isOp]
    exact step
  · intro event member i f id read was j act isOp other locked
    obtain ⟨fit, taken⟩ := fits event member
    rw [taken]
    exact fit.undisturbed (keeps event member) was isOp other locked

/-- A record with a counter. -/
def counted (id name : String) (count : Nat) : Container Nat := ⟨id, name, "shop", 1, count⟩

def bump : Locked Nat := .update fun c => ({ c with body := c.body + 1 }, true)

def steps (i : Nat) (acts : List LoadAct) : List (StoreAction Nat) :=
  acts.map fun act => .op i (.go act)

def bumpCall (i : Nat) (key : String) : StoreAction Nat := .op i (.start (.locked bump key))

def oneRecord : Files Nat := fun file =>
  if file = "3f2a" then some (counted "3f2a" "web" 0) else none

/-- Both resolve; the second waits for the lock and then reads what the first wrote. -/
def twoBumps : List (StoreAction Nat) :=
  [bumpCall 1 "3f2a", bumpCall 2 "3f2a"] ++ steps 1 [.next, .next] ++ steps 2 [.next, .next]
    ++ steps 1 [.next] ++ steps 2 [.next] ++ steps 1 [.next, .next, .next, .next]
    ++ steps 2 [.next, .next, .next, .next, .next]

theorem actsOnResolved_twoBumps
    : ActsOnResolved oneRecord
      (trace (storeSystem Nat).perform (StoreState.fresh oneRecord) [] twoBumps) := by
  exact actsOnResolved (Run.start.trace twoBumps) (by decide +kernel)

/-- A second container is named like the first one's id. -/
def twoRecords : Files Nat := fun file =>
  if file = "3f2a" then some (counted "3f2a" "web" 0)
  else if file = "77c0" then some (counted "77c0" "3f2a" 5) else none

/-- The first container is removed between the lookup and the lock. -/
def removedBetween : List (StoreAction Nat) :=
  [bumpCall 1 "3f2a"] ++ steps 1 [.next, .next] ++ [.op 2 (.start (.remove "3f2a"))]
    ++ steps 1 [.next, .next, .visit "77c0", .next, .next, .next]

theorem other_container_updated
    : ¬ ActsOnResolved twoRecords
      (trace (storeSystem Nat).perform (StoreState.fresh twoRecords) [] removedBetween) := by
  intro acts
  obtain ⟨otherId, _⟩ := acts.reads [_] _ _ rfl 1 _ "3f2a" (.read "77c0")
    (counted "77c0" "3f2a" 5) rfl rfl
  exact absurd otherId (by decide)

end Delonix.Store
