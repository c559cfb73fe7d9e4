import Delonix.Lifecycle.Transitions

/-! A published process stays in its record until it exits.
Every locked writer either keeps the pid it finds or clears that of a process which no longer
runs. The one writer without a lock is the save that closes a foreground `run`: it writes the
copy of the start over whatever the record became, so it decides whether a run keeps the
promise.
-/

namespace Delonix.Lifecycle

open Delonix.Library.Runs
open Delonix.Library.Interleaving

/-- No published process is lost: while it runs the record names it, no other published one
runs beside it, and a removed record stays removed.
-/
structure KeepsProcesses (w : World) : Prop where
  named : ∀ process ∈ w.published, w.table.Running process →
    ∃ cur, w.record = some cur ∧ cur.Names process
  alone : ∀ p ∈ w.published, ∀ q ∈ w.published, w.table.Running p → w.table.Running q → p = q
  gone : w.removed = true → w.record = none

/-- No published process is lost in any state of the run. -/
def KeepsProcessesThroughout
    (history : List (Event (State World Stage) (Action Act Outside))) : Prop :=
  ∀ event ∈ history, KeepsProcesses event.after.world

/-- The closing save of a foreground `run` finds the record, and in it no process that still
runs. Every other step is free.
-/
def SafeSave (state : State World Stage) : Action Act Outside → Prop
  | .op i .save =>
      match state.ops i with
      | .saving _ =>
          ∃ cur, state.world.record = some cur ∧ cur.stillRunning state.world.table = false
      | _ => True
  | _ => True

/-- The pid is that of a process that was, with its start time. -/
def Container.Marked (born : List Process) (c : Container) : Prop :=
  c.pid = none ∨ ∃ process ∈ born, c.Names process

/-- The pid and the start time are those of a process that no longer runs. -/
def Over (w : World) (pid : Nat) (starttime : Option Nat) : Prop :=
  ∃ process ∈ w.born, pid = process.pid ∧ starttime = some process.starttime
    ∧ ¬w.table.Running process

/-- The pid and the start time are those of some process that was. -/
def Known (w : World) (pid : Nat) (starttime : Option Nat) : Prop :=
  ∃ process ∈ w.born, pid = process.pid ∧ starttime = some process.starttime

/-- What every reachable world satisfies as long as the foreground saves are safe. -/
structure Consistent (w : World) : Prop where
  named : ∀ process ∈ w.published, w.table.Running process →
    ∃ cur, w.record = some cur ∧ cur.Names process
  owned : ∀ cur process, w.record = some cur → cur.Names process → w.table.Running process →
    process ∈ w.published
  marked : ∀ cur, w.record = some cur → cur.Marked w.born
  born : ∀ process ∈ w.published, process ∈ w.born
  gone : w.removed = true → w.record = none
  kept : w.phase = .used → w.removed = false → w.record ≠ none
  untouched : w.phase ≠ .used → w.record = none ∧ w.published = [] ∧ w.removed = false

/-- What a stage knows of the world it works in. -/
def Fits (w : World) (i : Nat) : Stage → Prop
  | .launching launch _ => launch.replacesRecord = false → w.phase = .starting i
  | .cloned launch process copy =>
      (process ∈ w.born ∧ copy.Names process)
        ∧ (launch.replacesRecord = false → w.phase = .starting i)
  | .creating _ process copy => (process ∈ w.born ∧ copy.Names process) ∧ w.phase = .starting i
  | .waiting _ process copy => process ∈ w.born ∧ copy.Names process ∧ w.phase = .used
  | .saving copy => copy.pid = none ∧ w.phase = .used
  | .recording _ _ copy _ _ _ => ∀ pid, copy.pid = some pid → Over w pid copy.pidStarttime
  | .stopping copy => copy.Marked w.born
  | .stopMarked copy => copy.Marked w.born
  | .signalled pid starttime => Known w pid starttime
  | .persisting pid starttime => Over w pid starttime
  | _ => True

/-- The world moved on: processes that were are not forgotten and none runs again. -/
structure Later (w w' : World) : Prop where
  born : ∀ process ∈ w.born, process ∈ w'.born
  noRevival : NoRevival w.born w.table w'.table

theorem Later.refl (w : World) : Later w w := ⟨fun _ known => known, .refl _ _⟩

theorem Container.Marked.later {w w' : World} {c : Container} (marked : c.Marked w.born)
    (later : Later w w')
    : c.Marked w'.born := by
  rcases marked with none | ⟨process, known, names⟩
  · exact .inl none
  · exact .inr ⟨process, later.born _ known, names⟩

theorem Over.later {w w' : World} {pid : Nat} {starttime : Option Nat}
    (ended : Over w pid starttime) (later : Later w w')
    : Over w' pid starttime := by
  obtain ⟨process, known, same, started, gone⟩ := ended
  exact ⟨process, later.born _ known, same, started,
    fun runs => gone (later.noRevival _ known runs)⟩

theorem Known.later {w w' : World} {pid : Nat} {starttime : Option Nat}
    (known : Known w pid starttime) (later : Later w w')
    : Known w' pid starttime := by
  obtain ⟨process, was, same⟩ := known
  exact ⟨process, later.born _ was, same⟩

/-- A stage fits every later world in which the id is where it was. -/
theorem Fits.later {w w' : World} {i : Nat} {stage : Stage} (fits : Fits w i stage)
    (later : Later w w') (starting : w.phase = .starting i → w'.phase = .starting i)
    (used : w.phase = .used → w'.phase = .used)
    : Fits w' i stage := by
  cases stage with
  | launching launch copy => exact fun first => starting (fits first)
  | cloned launch process copy =>
      exact ⟨⟨later.born _ fits.1.1, fits.1.2⟩, fun first => starting (fits.2 first)⟩
  | creating launch process copy =>
      exact ⟨⟨later.born _ fits.1.1, fits.1.2⟩, starting fits.2⟩
  | waiting launch process copy => exact ⟨later.born _ fits.1, fits.2.1, used fits.2.2⟩
  | saving copy => exact ⟨fits.1, used fits.2⟩
  | recording policy restarts copy status oom now =>
      exact fun pid named => (fits pid named).later later
  | stopping copy => exact Container.Marked.later fits later
  | stopMarked copy => exact Container.Marked.later fits later
  | signalled pid starttime => exact Known.later fits later
  | persisting pid starttime => exact Over.later fits later
  | _ => trivial

theorem keeps_of_later {w w' : World} {i : Nat} {stage : Stage} (consistent : Consistent w')
    (later : Later w w') (phase : w'.phase = w.phase) (fits : Fits w' i stage)
    : Keeps Consistent Fits w w' i stage where
  world := consistent
  moved := fits
  others _ _ _ other :=
    other.later later (fun at' => phase.trans at') (fun at' => phase.trans at')

theorem keeps_same {w : World} {i : Nat} {stage : Stage} (consistent : Consistent w)
    (fits : Fits w i stage)
    : Keeps Consistent Fits w w i stage :=
  keeps_of_later consistent (.refl w) rfl fits

-----------------------------------------------------------------------------------------
-- Writes of the record

/-- Either an update left the world alone, or its closure wrote what it returned. -/
theorem World.update_cases (w : World) (f : Container → Option Container)
    : w.update f = w
      ∨ ∃ cur next, w.record = some cur ∧ f cur = some next
        ∧ w.update f = { w with record := some next } := by
  unfold World.update
  cases found : w.record with
  | none => exact .inl rfl
  | some cur =>
      cases wrote : f cur with
      | none => exact .inl (by simp only [wrote])
      | some next => exact .inr ⟨cur, next, rfl, wrote, by simp only [wrote]⟩

theorem World.update_rest (w : World) (f : Container → Option Container)
    : (w.update f).table = w.table ∧ (w.update f).born = w.born
      ∧ (w.update f).published = w.published ∧ (w.update f).removed = w.removed
      ∧ (w.update f).phase = w.phase := by
  rcases w.update_cases f with same | ⟨cur, next, _, _, same⟩ <;> rw [same] <;> simp

theorem later_update (w : World) (f : Container → Option Container) : Later w (w.update f) := by
  obtain ⟨table, born, _⟩ := w.update_rest f
  refine ⟨?_, ?_⟩
  · rw [born]
    exact fun _ known => known
  · rw [table]
    exact .refl _ _

theorem Consistent.used {w : World} (consistent : Consistent w) {cur : Container}
    (found : w.record = some cur)
    : w.phase = .used := by
  by_contra early
  cases (consistent.untouched early).1.symm.trans found

theorem Consistent.present {w : World} (consistent : Consistent w) {cur : Container}
    (found : w.record = some cur)
    : w.removed = false := by
  cases removed : w.removed with
  | false => rfl
  | true => cases (consistent.gone removed).symm.trans found

/-- A world with a record is consistent when the record names exactly the published processes
that run.
-/
theorem Consistent.of_record {w : World} {next : Container} {published : List Process}
    (used : w.phase = .used) (present : w.removed = false)
    (named : ∀ process ∈ published, w.table.Running process → next.Names process)
    (owned : ∀ process, next.Names process → w.table.Running process → process ∈ published)
    (marked : next.Marked w.born) (born : ∀ process ∈ published, process ∈ w.born)
    : Consistent { w with record := some next, published } where
  named process out runs := ⟨next, rfl, named process out runs⟩
  owned := by
    intro cur process is names runs
    cases is
    exact owned process names runs
  marked := by
    intro cur is
    cases is
    exact marked
  born
  gone removed := by cases present.symm.trans removed
  kept _ _ := by simp
  untouched early := absurd used early

/-- A locked write that follows the record keeps the world consistent. -/
theorem Consistent.update {w : World} (consistent : Consistent w)
    {f : Container → Option Container}
    (follows : ∀ cur next, w.record = some cur → f cur = some next → cur.Follows w.table next)
    : Consistent (w.update f) := by
  rcases w.update_cases f with same | ⟨cur, next, found, wrote, same⟩
  · rw [same]
    exact consistent
  rw [same]
  apply Consistent.of_record (consistent.used found) (consistent.present found)
  · intro process out runs
    obtain ⟨cur', found', names⟩ := consistent.named process out runs
    cases found.symm.trans found'
    rcases follows cur next found wrote with ⟨pid, starttime⟩ | ⟨_, stopped⟩
    · exact ⟨pid.trans names.1, starttime.trans names.2⟩
    · exact absurd runs (stopped process names)
  · intro process names runs
    rcases follows cur next found wrote with ⟨pid, starttime⟩ | ⟨cleared, _⟩
    · exact consistent.owned cur process found
        ⟨pid.symm.trans names.1, starttime.symm.trans names.2⟩ runs
    · cases cleared.symm.trans names.1
  · rcases follows cur next found wrote with ⟨pid, starttime⟩ | ⟨cleared, _⟩
    · rcases consistent.marked cur found with unnamed | ⟨process, known, names⟩
      · exact .inl (pid.trans unnamed)
      · exact .inr ⟨process, known, pid.trans names.1, starttime.trans names.2⟩
    · exact .inl cleared
  · exact consistent.born

theorem keeps_update {w : World} {i : Nat} {stage : Stage} {f : Container → Option Container}
    (consistent : Consistent w)
    (follows : ∀ cur next, w.record = some cur → f cur = some next → cur.Follows w.table next)
    (fits : Fits (w.update f) i stage)
    : Keeps Consistent Fits w (w.update f) i stage :=
  keeps_of_later (consistent.update follows) (later_update w f) (w.update_rest f).2.2.2.2 fits

-----------------------------------------------------------------------------------------
-- Changes of the process table

/-- The world with another table and perhaps more processes in it. -/
theorem Consistent.retable {w : World} (consistent : Consistent w) {table : Table}
    {born : List Process} (known : ∀ process ∈ w.born, process ∈ born)
    (noRevival : NoRevival w.born w.table table)
    : Consistent { w with table, born } := by
  refine ⟨?_, ?_, ?_, ?_, consistent.gone, consistent.kept, consistent.untouched⟩
  · intro process out runs
    exact consistent.named process out (noRevival _ (consistent.born _ out) runs)
  · intro cur process found names runs
    -- a named process was, so it ran before if it runs now
    have was : process ∈ w.born := by
      rcases consistent.marked cur found with unnamed | ⟨other, old, names'⟩
      · cases unnamed.symm.trans names.1
      · rw [names.unique names']
        exact old
    exact consistent.owned cur process found names (noRevival _ was runs)
  · intro cur found
    exact (consistent.marked cur found).later ⟨known, noRevival⟩
  · exact fun process out => known _ (consistent.born _ out)

theorem later_retable {w : World} {table : Table} {born : List Process}
    (known : ∀ process ∈ w.born, process ∈ born) (noRevival : NoRevival w.born w.table table)
    : Later w { w with table, born } :=
  ⟨known, noRevival⟩

theorem keeps_discard {w : World} {i : Nat} {stage : Stage} (consistent : Consistent w)
    (process : Process) (fits : Fits (w.discard process) i stage)
    : Keeps Consistent Fits w (w.discard process) i stage := by
  have still : ∀ other ∈ w.born, other ∈ w.born := fun _ was => was
  have noRevival := noRevival_release w.born w.table process
  exact keeps_of_later (consistent.retable still noRevival) (later_retable still noRevival) rfl
    fits

/-- A collected process no longer runs. -/
theorem not_running_discard {w : World} {process : Process}
    (zombie : w.table process.pid = some ⟨process.starttime, true⟩)
    : ¬(w.discard process).table.Running process := by
  simp [World.discard, Table.release, procStarttime, zombie, Table.Running]

-----------------------------------------------------------------------------------------
-- The steps of a start

/-- A publish that is not refused finds no other published process running. -/
theorem published_eq_of_not_orphan {w : World} (consistent : Consistent w) {cur : Container}
    {process other : Process} (found : w.record = some cur)
    (allowed : publishWouldOrphan w.table cur process.pid (some process.starttime) = false)
    (out : other ∈ w.published) (runs : w.table.Running other)
    : other = process := by
  obtain ⟨cur', found', names⟩ := consistent.named other out runs
  cases found.symm.trans found'
  have live := names.isLive runs
  simp only [publishWouldOrphan, live, Bool.and_true, Bool.not_eq_eq_eq_not, Bool.not_false]
    at allowed
  exact describesIncarnation_names names allowed

theorem fits_published {w : World} {launch : Launch} {process : Process} {copy : Container}
    (i : Nat) (known : process ∈ w.born) (names : copy.Names process) (used : w.phase = .used)
    : Fits w i (launch.published process copy) := by
  unfold Launch.published
  split
  · trivial
  · exact ⟨known, names, used⟩

/-- A publish that was not refused puts its own process in the place of one that is over. -/
theorem keeps_published {w : World} (consistent : Consistent w) {i : Nat} {launch : Launch}
    {process : Process} {copy cur : Container}
    (fits : Fits w i (.cloned launch process copy)) (found : w.record = some cur)
    (allowed : publishWouldOrphan w.table cur (copy.pid.getD 0) copy.pidStarttime = false)
    : Keeps Consistent Fits w
      { w with record := some copy, published := process :: w.published } i
      (launch.published process copy) := by
  obtain ⟨⟨known, names⟩, _⟩ := fits
  have used := consistent.used found
  rw [names.1, names.2] at allowed
  have sole {other : Process} (out : other ∈ process :: w.published)
      (runs : w.table.Running other)
      : other = process := by
    rcases List.mem_cons.mp out with same | out
    · exact same
    · exact published_eq_of_not_orphan consistent found allowed out runs
  refine keeps_of_later (.of_record used (consistent.present found) ?_ ?_ ?_ ?_)
    ⟨fun _ was => was, .refl _ _⟩ rfl (fits_published i known names used)
  · intro other out runs
    rw [sole out runs]
    exact names
  · intro other names' _
    rw [names'.unique names]
    exact List.mem_cons_self
  · exact .inr ⟨process, known, names⟩
  · intro other out
    rcases List.mem_cons.mp out with same | out
    · rw [same]
      exact known
    · exact consistent.born other out

/-- The first save of a record finds nothing of the container yet. -/
theorem keeps_created {w : World} (consistent : Consistent w) {i : Nat} {launch : Launch}
    {process : Process} {copy : Container} (fits : Fits w i (.creating launch process copy))
    : Keeps Consistent Fits w
      { w.save copy with published := process :: w.published, phase := .used } i
      (launch.published process copy) := by
  obtain ⟨⟨known, names⟩, phase⟩ := fits
  obtain ⟨_, nothing, present⟩ := consistent.untouched (by rw [phase]; simp)
  refine ⟨?_, fits_published i known names rfl, ?_⟩
  · apply Consistent.of_record (w := { w with phase := .used }) rfl present
    · intro other out _
      rw [nothing, List.mem_singleton] at out
      rw [out]
      exact names
    · intro other names' _
      rw [names'.unique names]
      exact List.mem_cons_self
    · exact .inr ⟨process, known, names⟩
    · intro other out
      rw [nothing, List.mem_singleton] at out
      rw [out]
      exact known
  · intro j different other fits'
    refine fits'.later ⟨fun _ was => was, .refl _ _⟩ ?_ ?_
    · intro starting
      cases phase.symm.trans starting
      exact absurd rfl different
    · intro used
      cases phase.symm.trans used

theorem keeps_placed {w : World} (consistent : Consistent w) {i : Nat} {stage : Stage}
    {process : Process} (fresh : process ∉ w.born)
    (fits : Fits { w with table := w.table.place process, born := process :: w.born } i stage)
    : Keeps Consistent Fits w
      { w with table := w.table.place process, born := process :: w.born } i stage := by
  have known : ∀ other ∈ w.born, other ∈ process :: w.born :=
    fun _ was => List.mem_cons_of_mem _ was
  have noRevival := noRevival_place w.table fresh
  exact keeps_of_later (consistent.retable known noRevival) (later_retable known noRevival) rfl
    fits

theorem fits_waited {w : World} {i : Nat} {launch : Launch} {process : Process}
    {copy : Container} (fits : Fits w i (.waiting launch process copy))
    (zombie : w.table process.pid = some ⟨process.starttime, true⟩) (status : Status)
    (oom : Bool) (now : Nat)
    : Fits (w.discard process) i (launch.waited copy status oom now) := by
  obtain ⟨known, names, used⟩ := fits
  unfold Launch.waited
  split
  case h_1 =>
    refine ⟨?_, used⟩
    unfold endForeground
    split <;> rfl
  case h_2 => trivial
  case h_3 =>
    intro pid named
    exact ⟨process, known, Option.some.inj (named.symm.trans names.1), names.2,
      not_running_discard zombie⟩

-----------------------------------------------------------------------------------------
-- The steps of `stop`, `rm` and the closing save

/-- A record that is not still running names no published process that runs. -/
theorem Consistent.idle {w : World} (consistent : Consistent w) {cur : Container}
    (found : w.record = some cur) (still : cur.stillRunning w.table = false) {process : Process}
    (out : process ∈ w.published)
    : ¬w.table.Running process := by
  intro runs
  obtain ⟨cur', found', names⟩ := consistent.named process out runs
  cases found.symm.trans found'
  rw [names.stillRunning.mpr runs] at still
  cases still

theorem keeps_saved {w : World} (consistent : Consistent w) {i : Nat} {copy cur : Container}
    (fits : Fits w i (.saving copy)) (found : w.record = some cur)
    (still : cur.stillRunning w.table = false)
    : Keeps Consistent Fits w (w.save copy) i .done := by
  refine keeps_of_later ?_ ⟨fun _ was => was, .refl _ _⟩ rfl trivial
  apply Consistent.of_record fits.2 (consistent.present found)
  · intro process out runs
    exact absurd runs (consistent.idle found still out)
  · intro process names _
    cases fits.1.symm.trans names.1
  · exact .inl fits.1
  · exact consistent.born

theorem keeps_unlinked {w : World} (consistent : Consistent w) (i : Nat) {cur : Container}
    (found : w.record = some cur) (still : cur.stillRunning w.table = false)
    : Keeps Consistent Fits w { w with record := none, removed := true } i .done := by
  refine keeps_of_later ?_ ⟨fun _ was => was, .refl _ _⟩ rfl trivial
  refine ⟨?_, ?_, ?_, consistent.born, fun _ => rfl, ?_, ?_⟩
  · intro process out runs
    exact absurd runs (consistent.idle found still out)
  · intro cur' process is
    cases is
  · intro cur' is
    cases is
  · intro _ present
    cases present
  · exact fun early => absurd (consistent.used found) early

theorem Container.Marked.known {w : World} {copy : Container} (marked : copy.Marked w.born)
    {pid : Nat} (named : copy.pid = some pid)
    : Known w pid copy.pidStarttime := by
  rcases marked with unnamed | ⟨process, was, names⟩
  · cases unnamed.symm.trans named
  · exact ⟨process, was, Option.some.inj (named.symm.trans names.1), names.2⟩

theorem Known.over_of_gone {w : World} {pid : Nat} {starttime : Option Nat}
    (known : Known w pid starttime) (gone : processGone w.table pid starttime = true)
    : Over w pid starttime := by
  obtain ⟨process, was, same, started⟩ := known
  refine ⟨process, was, same, started, ?_⟩
  intro runs
  rw [same, started, processGone_eq_false.mpr runs] at gone
  cases gone

theorem Known.over_of_unreachable {w : World} {pid : Nat} {starttime : Option Nat}
    (known : Known w pid starttime) (unreachable : safeToSignal w.table pid starttime = false)
    : Over w pid starttime :=
  known.over_of_gone (by simp [processGone, unreachable])

theorem keeps_ran {w : World} (consistent : Consistent w) (i : Nat)
    (unused : w.phase = .unused) (launch : Launch) (copy : Container)
    : Keeps Consistent Fits w { w with phase := .starting i } i (.launching launch copy) := by
  have nothing := consistent.untouched (by rw [unused]; simp)
  refine ⟨⟨consistent.named, consistent.owned, consistent.marked, consistent.born,
    consistent.gone, ?_, fun _ => nothing⟩, fun _ => rfl, ?_⟩
  · intro used
    cases used
  · intro j _ other fits
    refine fits.later ⟨fun _ was => was, .refl _ _⟩ ?_ ?_
    · intro starting
      cases unused.symm.trans starting
    · intro used
      cases unused.symm.trans used

theorem keeps_recorded {w : World} (consistent : Consistent w) (i : Nat) {stage : Stage}
    {pid : Nat} {starttime : Option Nat} (ended : Over w pid starttime)
    (f : Nat → Option Nat → Container → Option Container)
    (follows : ∀ process cur next, ¬w.table.Running process →
      f process.pid (some process.starttime) cur = some next → cur.Follows w.table next)
    (fits : Fits (w.update (f pid starttime)) i stage)
    : Keeps Consistent Fits w (w.update (f pid starttime)) i stage := by
  obtain ⟨process, _, same, started, gone⟩ := ended
  refine keeps_update consistent ?_ fits
  intro cur next _ recorded
  rw [same, started] at recorded
  exact follows process cur next gone recorded

/-- Setting a flag, a name or a setting follows the record. -/
theorem keeps_amend {w : World} (consistent : Consistent w) {i : Nat} {stage : Stage}
    {amend : Container → Container}
    (same : ∀ cur, (amend cur).pid = cur.pid ∧ (amend cur).pidStarttime = cur.pidStarttime)
    (fits : Fits (w.update (fun cur => some (amend cur))) i stage)
    : Keeps Consistent Fits w (w.update (fun cur => some (amend cur))) i stage := by
  refine keeps_update consistent ?_ fits
  intro cur next _ wrote
  cases wrote
  exact .inl (same cur)

-----------------------------------------------------------------------------------------
-- Whole runs

/-- One step of a command, with its closing save safe, keeps the world and every stage. -/
theorem Transition.keeps {i : Nat} {w next : World} {stage moved : Stage} {act : Act}
    (step : Transition i w stage act next moved) (consistent : Consistent w)
    (fits : Fits w i stage)
    (safe : ∀ copy, stage = .saving copy → act = .save →
      ∃ cur, w.record = some cur ∧ cur.stillRunning w.table = false)
    : Keeps Consistent Fits w next i moved := by
  cases step with
  | unmoved => exact keeps_same consistent fits
  | ran unused => exact keeps_ran consistent i unused _ _
  | stopFound found => exact keeps_same consistent (consistent.marked _ found)
  | reconciled =>
      refine keeps_update consistent ?_ trivial
      exact fun cur next _ wrote => reconcileStatus_follows wrote
  | reasserted =>
      refine keeps_amend consistent (fun _ => ⟨rfl, rfl⟩) ?_
      intro first
      cases first
  | cloned fresh =>
      exact keeps_placed consistent fresh ⟨⟨List.mem_cons_self, rfl, rfl⟩, fits⟩
  | refused => exact keeps_discard consistent _ trivial
  | unrecorded first => exact keeps_same consistent ⟨fits.1, fits.2 first⟩
  | published found allowed => exact keeps_published consistent fits found allowed
  | created => exact keeps_created consistent fits
  | reaped zombie next =>
      rw [next]
      exact keeps_discard consistent _ (fits_waited fits zombie _ _ _)
  | saved =>
      obtain ⟨cur, found, still⟩ := safe _ rfl rfl
      exact keeps_saved consistent fits found still
  | @recorded policy restarts copy status oom now pid named =>
      exact keeps_recorded consistent i (fits pid named)
        (fun pid starttime cur => recordExit cur pid starttime status oom now)
        (fun _ _ _ gone wrote => recordExit_follows gone wrote) trivial
  | resumed resumes =>
      refine keeps_same consistent ?_
      intro first
      cases first
  | marked =>
      exact keeps_amend consistent (fun _ => ⟨rfl, rfl⟩)
        (Container.Marked.later fits (later_update _ _))
  | signalled named => exact keeps_same consistent (Container.Marked.known fits named)
  | unreachable named silent =>
      exact keeps_same consistent ((Container.Marked.known fits named).over_of_unreachable silent)
  | settled gone => exact keeps_same consistent (Known.over_of_gone fits gone)
  | persisted =>
      exact keeps_recorded consistent i fits recordStop
        (fun _ _ _ gone wrote => recordStop_follows gone wrote) trivial
  | intended =>
      refine keeps_update consistent ?_ trivial
      exact fun cur next _ wrote => recordRemovalIntent_follows wrote
  | unlinked found still => exact keeps_unlinked consistent i found still
  | _ => exact keeps_same consistent trivial

/-- What happens outside the commands moves the table on or amends a setting. -/
theorem stir_keeps {w : World} (consistent : Consistent w) (event : Outside) (i : Nat)
    : Keeps Consistent Fits w (stir w event) i .idle := by
  have still : ∀ other ∈ w.born, other ∈ w.born := fun _ was => was
  cases event with
  | exit process =>
      have noRevival := noRevival_exit w.born w.table process
      exact keeps_of_later (consistent.retable still noRevival) (later_retable still noRevival)
        rfl trivial
  | collect process =>
      simp only [stir]
      split
      · exact keeps_discard consistent process trivial
      · exact keeps_same consistent trivial
  | occupy process =>
      simp only [stir]
      split
      case isTrue => exact keeps_same consistent trivial
      case isFalse fresh => exact keeps_placed consistent (fun was => fresh (.inl was)) trivial
  | rename name => exact keeps_amend consistent (fun _ => ⟨rfl, rfl⟩) trivial
  | configure restartPolicy settings =>
      exact keeps_amend consistent (fun _ => ⟨rfl, rfl⟩) trivial

theorem Initial.fitting {state : State World Stage} (initial : Initial state)
    : Fitting Consistent Fits state := by
  obtain ⟨ops, published, removed, fresh⟩ := initial
  refine ⟨⟨?_, ?_, ?_, ?_, ?_, ?_, ?_⟩, ?_⟩
  · simp [published]
  · intro cur process found names
    rcases fresh with ⟨_, none⟩ | ⟨_, c, some, unnamed⟩
    · cases none.symm.trans found
    · cases some.symm.trans found
      cases unnamed.symm.trans names.1
  · intro cur found
    rcases fresh with ⟨_, none⟩ | ⟨_, c, some, unnamed⟩
    · cases none.symm.trans found
    · cases some.symm.trans found
      exact .inl unnamed
  · simp [published]
  · simp [removed]
  · intro used _
    rcases fresh with ⟨unused, _⟩ | ⟨_, c, some, _⟩
    · cases unused.symm.trans used
    · simp [some]
  · intro early
    rcases fresh with ⟨_, none⟩ | ⟨used, _⟩
    · exact ⟨none, published, removed⟩
    · exact absurd used early
  · intro i
    rw [ops i]
    trivial

theorem fitting_perform {state : State World Stage} (holds : Fitting Consistent Fits state)
    {action : Action Act Outside} (safe : SafeSave state action)
    : Fitting Consistent Fits (lifecycle.perform state action) := by
  apply holds.perform
  · intro i act is
    refine (advance_transition i _ _ act).keeps holds.world (holds.ops i) ?_
    intro copy at' saves
    rw [is, saves] at safe
    simp only [SafeSave, at'] at safe
    exact safe
  · intro event _
    -- any two ids that differ from `j` would do as the operation that did not move
    refine ⟨(stir_keeps holds.world event 0).world, ?_⟩
    intro j other fits
    exact (stir_keeps holds.world event (j + 1)).others j (by omega) other fits

theorem Consistent.keepsProcesses {w : World} (consistent : Consistent w)
    : KeepsProcesses w where
  named := consistent.named
  alone := by
    intro p hp q hq runsP runsQ
    obtain ⟨cur, found, namesP⟩ := consistent.named p hp runsP
    obtain ⟨cur', found', namesQ⟩ := consistent.named q hq runsQ
    cases found.symm.trans found'
    exact namesP.unique namesQ
  gone := consistent.gone

/-- A closing save that is not safe brings a removed record back, or drops the process that
the record named.
-/
theorem not_keepsProcesses_of_not_safeSave {state : State World Stage}
    (holds : Fitting Consistent Fits state) {action : Action Act Outside}
    (bad : ¬SafeSave state action)
    : ¬KeepsProcesses (lifecycle.perform state action).world := by
  rcases action with ⟨i, act⟩ | event
  case outside => exact absurd trivial bad
  cases act with
  | save =>
      simp only [SafeSave] at bad
      split at bad
      case h_2 => exact absurd trivial bad
      case h_1 copy at' =>
        have fits := holds.ops i
        rw [at'] at fits
        intro keeps
        have after : (lifecycle.perform state (.op i .save)).world = state.world.save copy := by
          simp [System.perform, lifecycle, advance, at']
        rw [after] at keeps
        cases found : state.world.record with
        | none =>
            cases removed : state.world.removed with
            | false => exact holds.world.kept fits.2 removed found
            | true => cases keeps.gone removed
        | some cur =>
            have still : cur.stillRunning state.world.table = true := by
              by_contra idle
              exact bad ⟨cur, found, by simpa using idle⟩
            rcases holds.world.marked cur found with unnamed | ⟨process, _, names⟩
            · simp [Container.stillRunning, unnamed] at still
            · have runs := names.stillRunning.mp still
              have out := holds.world.owned cur process found names runs
              obtain ⟨saved, is, named⟩ := keeps.named process out runs
              cases is
              cases fits.1.symm.trans named.1
  | _ => exact absurd trivial bad

/-- A run keeps every published process in its record exactly when each closing save of a
foreground `run` in it finds the record there and naming nothing that runs.
-/
theorem keepsProcesses_iff_safeSave {start state : State World Stage}
    {history : List (Event (State World Stage) (Action Act Outside))} (initial : Initial start)
    (run : Run (StepOf lifecycle.perform) start history state)
    : KeepsProcessesThroughout history ↔ Meets SafeSave history := by
  constructor
  · intro keeps
    -- the invariant holds up to the first save that is not safe
    have both : Meets SafeSave history ∧ Fitting Consistent Fits state := by
      induction run with
      | start => exact ⟨by simp [Meets], initial.fitting⟩
      | @step older before next action earlier taken ih =>
          obtain ⟨meets, holds⟩ := ih (fun event member => keeps event (by simp [member]))
          have safe : SafeSave before action := by
            by_contra bad
            have last := keeps _ List.mem_cons_self
            rw [taken] at last
            exact not_keepsProcesses_of_not_safeSave holds bad last
          rw [taken]
          exact ⟨meets_cons.mpr ⟨safe, meets⟩, fitting_perform holds safe⟩
    exact both.1
  · intro meets
    have both : Fitting Consistent Fits state ∧ KeepsProcessesThroughout history := by
      refine Run.invariant (fun history state => Fitting Consistent Fits state
        ∧ KeepsProcessesThroughout history)
        ⟨initial.fitting, by simp [KeepsProcessesThroughout]⟩ ?_ run meets
      intro history state action next before taken safe
      obtain ⟨holds, kept⟩ := before
      have after := fitting_perform holds safe
      rw [← taken] at after
      refine ⟨after, ?_⟩
      intro event member
      rcases List.mem_cons.mp member with is | older
      · rw [is]
        exact after.world.keepsProcesses
      · exact kept event older
    exact both.2

/-- No container yet, on an id just generated. -/
def freshId : State World Stage :=
  ⟨⟨none, fun _ => none, [], [], false, .unused⟩, fun _ => .idle⟩

theorem freshId_initial : Initial freshId where
  ops _ := rfl
  published := rfl
  removed := rfl
  fresh := .inl ⟨rfl, rfl⟩

def firstInit : Process := ⟨41, 7, by decide⟩

/-- A `run` in the foreground, up to its wait. -/
def foregroundRun : List (Action Act Outside) :=
  [.op 0 (.run ⟨"db", "", false, false, []⟩), .op 0 (.clone firstInit false), .op 0 .publish,
    .op 0 .create]

def quietRun : List (Action Act Outside) :=
  foregroundRun ++ [.outside (.exit firstInit), .op 0 (.reap (.exited 0) none none 0),
    .op 0 .save]

theorem keepsProcesses_quietRun
    : KeepsProcessesThroughout (trace lifecycle.perform freshId [] quietRun) := by
  refine (keepsProcesses_iff_safeSave freshId_initial (Run.start.trace quietRun)).mpr ?_
  simp only [quietRun, foregroundRun, List.cons_append, List.nil_append, trace, meets_cons]
  exact ⟨⟨_, rfl, rfl⟩, trivial, trivial, trivial, trivial, trivial, trivial, by simp [Meets]⟩

/-- `rm -f` while the `run` still waits: the record goes, and the closing save writes it
again.
-/
def resurrection : List (Action Act Outside) :=
  foregroundRun ++ [.op 1 (.remove true), .op 1 .approach, .op 1 .intend,
    .outside (.exit firstInit), .op 1 .settle, .op 1 .unlink,
    .op 0 (.reap .signaled none none 0), .op 0 .save]

theorem resurrection_not_keepsProcesses
    : Initial freshId
      ∧ ∃ history state, Run (StepOf lifecycle.perform) freshId history state
        ∧ ¬KeepsProcesses state.world := by
  refine ⟨freshId_initial, _, _, Run.start.trace resurrection, ?_⟩
  intro keeps
  cases keeps.gone rfl

end Delonix.Lifecycle
