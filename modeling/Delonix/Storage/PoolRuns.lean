import Delonix.Library.Runs
import Delonix.Storage.DirRecovery
import Delonix.Storage.ThinRecovery

/-! Whole runs of a pool: calls by any owners, one after another, each of which may fail at any
step or be cut between two.
-/

namespace Delonix.Storage

open Delonix.Library.Faults
open Delonix.Library.Runs

inductive PoolRequest where
  | allocate (req : VolumeRequest)
  | release (volume : String)

def PoolRequest.volume : PoolRequest → String
  | .allocate req => req.name
  | .release volume => volume

/-- A call: what is asked, for whom, and what it meets on its host. -/
structure PoolCall (Host : Type) where
  request : PoolRequest
  owner : Owner
  host : Host

/-- How a call ended, with the allocation it made. -/
abbrev Ending := Except (Stop Error) (Option Allocation)

section

variable (pool : PoolRef) (mountRoot : String)

def PoolCall.runDir (call : PoolCall DirHost) (w : Option Node) : Ending × Option Node :=
  match call.request with
  | .allocate req => (allocateDir call.host pool req call.owner w).map (·.map some) id
  | .release volume =>
      (releaseDir call.host pool volume call.owner w).map (·.map fun _ => none) id

def PoolCall.runLvm (call : PoolCall LvmHost) (w : Vol) : Ending × Vol :=
  match call.request with
  | .allocate req => (allocateLvm call.host mountRoot pool req call.owner w).map (·.map some) id
  | .release volume =>
      (releaseLvm call.host mountRoot pool volume call.owner w).map (·.map fun _ => none) id

/-- The directories of a pool after a call. -/
def dirPool (state : String → Option Node) (call : PoolCall DirHost) : String → Option Node :=
  let name := call.request.volume
  Function.update state name (call.runDir pool (state name)).2

/-- The logical volumes of a pool after a call. -/
def thinPool (state : String → Vol) (call : PoolCall LvmHost) : String → Vol :=
  let name := call.request.volume
  Function.update state name (call.runLvm pool mountRoot (state name)).2

end

abbrev DirEvent := Event (String → Option Node) (PoolCall DirHost)

abbrev LvmEvent := Event (String → Vol) (PoolCall LvmHost)

def PoolCall.calmDir (call : PoolCall DirHost) : PoolCall DirHost :=
  { call with host := call.host.calm }

def PoolCall.calmLvm (call : PoolCall LvmHost) : PoolCall LvmHost :=
  { call with host := call.host.calm }

def Ending.isOk : Ending → Prop
  | .ok _ => True
  | .error _ => False

instance : DecidablePred Ending.isOk
  | .ok _ => .isTrue trivial
  | .error _ => .isFalse id

/-- It took a volume back. -/
def Ending.adopted : Ending → Prop
  | .ok (some allocation) => allocation.adopted = true
  | _ => False

section

variable (pool : PoolRef) (mountRoot : String)

/-- A directory that a call changes carried the caller's stamp, or was empty or not there; one
that is taken back carried the stamp.
-/
def DirSafe (event : DirEvent) : Prop :=
  (∀ name, event.after name ≠ event.before name →
    Ours pool.name name event.action.owner (event.before name) ∨ Free (event.before name))
  ∧ (Ending.adopted (event.action.runDir pool (event.before event.action.request.volume)).1 →
    Ours pool.name event.action.request.volume event.action.owner
      (event.before event.action.request.volume))

/-- A call that failed or was cut, and would have been made otherwise, is made when it is
repeated.
-/
def DirFinishes (event : DirEvent) : Prop :=
  let name := event.action.request.volume
  ¬ Ending.isOk (event.action.runDir pool (event.before name)).1 →
    Ending.isOk (event.action.calmDir.runDir pool (event.before name)).1 →
    Ending.isOk (event.action.calmDir.runDir pool (event.after name)).1

/-- A logical volume that a call changes carried the caller's stamp, or was not there; one that is
taken back carried the stamp.
-/
def LvmSafe (event : LvmEvent) : Prop :=
  (∀ name, (event.after name).lv ≠ (event.before name).lv →
    OursLv pool.name name event.action.owner (event.before name)
      ∨ (event.before name).lv = none)
  ∧ (Ending.adopted
      (event.action.runLvm pool mountRoot (event.before event.action.request.volume)).1 →
    OursLv pool.name event.action.request.volume event.action.owner
      (event.before event.action.request.volume))

def LvmFinishes (event : LvmEvent) : Prop :=
  let name := event.action.request.volume
  ¬ Ending.isOk (event.action.runLvm pool mountRoot (event.before name)).1 →
    Ending.isOk (event.action.calmLvm.runLvm pool mountRoot (event.before name)).1 →
    Ending.isOk (event.action.calmLvm.runLvm pool mountRoot (event.after name)).1

end

/-- A new stamp is written without leaving a temporary file behind, and a stamp that is removed is
removed together with its directory.
-/
def Unhurt (state : String → Option Node) (call : PoolCall DirHost) : Prop :=
  match call.request with
  | .allocate req => Free (state req.name) → Tidy call.host.faults
  | .release volume => StampLast call.host (state volume)

section

variable {pool : PoolRef} {mountRoot : String}

theorem isOk_map {α : Type} {f : α → Option Allocation} {result : Except (Stop Error) α}
    : Ending.isOk (result.map f) ↔ ∃ a, result = .ok a := by
  cases result with
  | ok a => exact ⟨fun _ => ⟨a, rfl⟩, fun _ => trivial⟩
  | error stop => exact ⟨fun impossible => impossible.elim, nofun⟩

theorem adopted_map {result : Except (Stop Error) Allocation}
    (adopted : Ending.adopted (result.map some))
    : ∃ made, result = .ok made ∧ made.adopted = true := by
  cases result with
  | ok made => exact ⟨made, rfl, adopted⟩
  | error stop => exact adopted.elim

theorem not_adopted_release {result : Except (Stop Error) Unit}
    : ¬ Ending.adopted (result.map fun _ => none) := by
  cases result <;> exact id

theorem dirSafe (state : String → Option Node) (call : PoolCall DirHost)
    : DirSafe pool ⟨state, call, dirPool pool state call⟩ := by
  obtain ⟨request, owner, host⟩ := call
  refine ⟨?_, ?_⟩
  · intro name changed
    by_cases same : name = request.volume
    case neg => exact absurd (Function.update_of_ne same _ _) changed
    subst same
    simp only [dirPool, Function.update_self] at changed
    cases request with
    | allocate req =>
        have made := @leaves_allocateDir host pool req owner _ (state req.name) rfl
        split at made
        case h_1 allocation w ran =>
          split at made
          · exact .inl made
          · exact .inr made
        case h_2 stop w ran =>
          refine made.resolve_left ?_
          rintro rfl
          exact changed (congrArg Prod.snd ran)
    | release volume =>
        have made := @leaves_releaseDir host pool owner _ volume (state volume) rfl
        split at made
        all_goals
          rename_i ran
          refine .inl (made.resolve_left ?_)
          rintro rfl
          exact changed (congrArg Prod.snd ran)
  · intro adopted
    cases request with
    | allocate req =>
        obtain ⟨made, ran, taken⟩ := adopted_map adopted
        have claimed := (@leaves_allocateDir host pool req owner _).of_ok rfl (Prod.ext ran rfl)
        rw [if_pos taken] at claimed
        exact claimed
    | release volume => exact absurd adopted not_adopted_release

theorem dirFinishes {state : String → Option Node} {call : PoolCall DirHost}
    (unhurt : Unhurt state call)
    : DirFinishes pool ⟨state, call, dirPool pool state call⟩ := by
  obtain ⟨request, owner, host⟩ := call
  intro stopped could
  simp only [dirPool, Function.update_self]
  cases request with
  | allocate req =>
      obtain ⟨askable, takeable⟩ := allocateDir_calm.mp (isOk_map.mp could)
      refine isOk_map.mpr (allocateDir_calm.mpr ⟨askable, ?_⟩)
      cases ran : (allocateDir host pool req owner (state req.name)).1 with
      | ok made => exact absurd (isOk_map.mpr ⟨made, ran⟩) stopped
      | error stop => exact (takeable_of_stop unhurt takeable).of_error rfl (Prod.ext ran rfl)
  | release volume =>
      obtain ⟨_, could⟩ := isOk_map.mp could
      obtain ⟨safe, path, releasable⟩ := releaseDir_calm.mp could
      refine isOk_map.mpr ⟨(), releaseDir_calm.mpr ⟨safe, path, ?_⟩⟩
      cases ran : (releaseDir host pool volume owner (state volume)).1 with
      | ok made => exact absurd (isOk_map.mpr ⟨made, ran⟩) stopped
      | error stop => exact (releasable_of_stop unhurt releasable).of_error rfl (Prod.ext ran rfl)

theorem lvmSafe (state : String → Vol) (call : PoolCall LvmHost)
    : LvmSafe pool mountRoot ⟨state, call, thinPool pool mountRoot state call⟩ := by
  obtain ⟨request, owner, host⟩ := call
  refine ⟨?_, ?_⟩
  · intro name changed
    by_cases same : name = request.volume
    case neg => exact absurd (congrArg Vol.lv (Function.update_of_ne same _ _)) changed
    subst same
    simp only [thinPool, Function.update_self] at changed
    cases request with
    | allocate req =>
        have made := @leaves_allocateLvm host mountRoot pool req owner _ (state req.name) rfl
        split at made
        case h_1 allocation w ran =>
          split at made
          · exact .inl made
          · exact .inr made
        case h_2 stop w ran =>
          refine made.resolve_left ?_
          rintro rfl
          exact changed (congrArg (fun made => made.2.lv) ran)
    | release volume =>
        have made := @leaves_releaseLvm host mountRoot pool owner volume _ (state volume) rfl
        split at made
        all_goals
          rename_i ran
          refine .inl (made.resolve_left ?_)
          intro is
          exact changed ((congrArg (fun made => made.2.lv) ran).trans is)
  · intro adopted
    cases request with
    | allocate req =>
        obtain ⟨made, ran, taken⟩ := adopted_map adopted
        have claimed := (@leaves_allocateLvm host mountRoot pool req owner _).of_ok rfl
          (Prod.ext ran rfl)
        rw [if_pos taken] at claimed
        exact claimed
    | release volume => exact absurd adopted not_adopted_release

theorem lvmFinishes (state : String → Vol) (call : PoolCall LvmHost)
    : LvmFinishes pool mountRoot ⟨state, call, thinPool pool mountRoot state call⟩ := by
  obtain ⟨request, owner, host⟩ := call
  intro stopped could
  simp only [thinPool, Function.update_self]
  cases request with
  | allocate req =>
      obtain ⟨askable, takeable⟩ := allocateLvm_calm.mp (isOk_map.mp could)
      refine isOk_map.mpr (allocateLvm_calm.mpr ⟨askable, ?_⟩)
      cases ran : (allocateLvm host mountRoot pool req owner (state req.name)).1 with
      | ok made => exact absurd (isOk_map.mpr ⟨made, ran⟩) stopped
      | error stop => exact (takeableLv_of_stop takeable).of_error rfl (Prod.ext ran rfl)
  | release volume =>
      obtain ⟨_, could⟩ := isOk_map.mp could
      obtain ⟨name, backed, releasable⟩ := releaseLvm_calm.mp could
      refine isOk_map.mpr ⟨(), releaseLvm_calm.mpr ⟨name, backed, ?_⟩⟩
      cases ran : (releaseLvm host mountRoot pool volume owner (state volume)).1 with
      | ok made => exact absurd (isOk_map.mpr ⟨made, ran⟩) stopped
      | error stop => exact (releasableLv_of_stop releasable).of_error rfl (Prod.ext ran rfl)

/-- In every run only a stamp makes a volume anyone's to take back or to change, and a call that
failed or was cut can be finished: in a thin pool always, in a directory pool as long as no call
leaves the stamp's temporary file, or a directory without its stamp.
-/
theorem pool_volumes {start state : String → Option Node} {history : List DirEvent}
    (run : Run (StepOf (dirPool pool)) start history state)
    {start' state' : String → Vol} {history' : List LvmEvent}
    (run' : Run (StepOf (thinPool pool mountRoot)) start' history' state')
    : (∀ event ∈ history, DirSafe pool event)
      ∧ (Meets Unhurt history → ∀ event ∈ history, DirFinishes pool event)
      ∧ ∀ event ∈ history', LvmSafe pool mountRoot event ∧ LvmFinishes pool mountRoot event := by
  refine ⟨?_, ?_, ?_⟩
  · intro event member
    obtain ⟨before, call, after⟩ := event
    have taken : after = dirPool pool before call := run.taken member
    rw [taken]
    exact dirSafe before call
  · intro unhurt event member
    have kept := unhurt event member
    obtain ⟨before, call, after⟩ := event
    have taken : after = dirPool pool before call := run.taken member
    rw [taken]
    exact dirFinishes kept
  · intro event member
    obtain ⟨before, call, after⟩ := event
    have taken : after = thinPool pool mountRoot before call := run'.taken member
    rw [taken]
    exact ⟨lvmSafe before call, lvmFinishes before call⟩

end

/-- A directory pool and a thin pool of one administrator. -/
def media : PoolRef :=
  ⟨"media", { driver := "dir", path := some "/srv/dlx", vg := some "vg0", thinPool := some "dlx" }⟩

/-- A host on which one step goes wrong. -/
def dirHost (faults : FaultPlan DirStep) : DirHost := ⟨faults, id, fun _ => "I/O error", false⟩

def lvmHost (faults : FaultPlan LvmStep) : LvmHost :=
  ⟨faults, fun _ => true, fun _ => "exit status 5", some 40, some 10⟩

def one {Step : Type} [DecidableEq Step] (step : Step) (fault : Fault) : FaultPlan Step :=
  fun other => if other = step then some fault else none

def allocateDb : PoolRequest := .allocate ⟨"db", .filesystem, 1024⟩

/-- The data directory cannot be made; then the volume is allocated, and its release is cut. -/
def dirCalls : List (PoolCall DirHost) :=
  [⟨allocateDb, .of 1000 "/home/a", dirHost (one .makeData .fails)⟩,
    ⟨allocateDb, .of 1000 "/home/a", dirHost noFaults⟩,
    ⟨.release "db", .of 1000 "/home/a", dirHost (one .dropStamp .crashes)⟩]

/-- The volume cannot be mounted and is not taken back either; then it is allocated. -/
def lvmCalls : List (PoolCall LvmHost) :=
  [⟨allocateDb, .of 1000 "/home/a", lvmHost (one .mount .fails)⟩,
    ⟨allocateDb, .of 1000 "/home/a", lvmHost noFaults⟩]

theorem pool_volumes_media
    : (∀ event ∈ trace (dirPool media) (fun _ => none) [] dirCalls, DirFinishes media event)
      ∧ ∀ event ∈ trace (thinPool media "/mnt") (fun _ => ⟨none, none⟩) [] lvmCalls,
        LvmFinishes media "/mnt" event := by
  obtain ⟨-, finishes, thin⟩ := pool_volumes (Run.start.trace dirCalls) (Run.start.trace lvmCalls)
  refine ⟨finishes ?_, fun event member => (thin event member).2⟩
  have tidy (faults : FaultPlan DirStep) (write : faults .writeTemp = none)
      (rename : faults .renameTemp = none)
      : Tidy faults := by
    refine ⟨by rw [write]; exact nofun, by rw [rename]; exact nofun, ?_⟩
    rw [write, rename]
    rintro (fails | fails) <;> cases fails
  refine meets_cons.mpr ⟨⟨rfl, nofun, nofun⟩, meets_cons.mpr ⟨fun _ => tidy _ rfl rfl,
    meets_cons.mpr ⟨fun _ => tidy _ rfl rfl, ?_⟩⟩⟩
  exact fun _ member => absurd member List.not_mem_nil

/-- The stamp is removed, and the directory is not: the next release finds no stamp. -/
def cutRelease : List (PoolCall DirHost) :=
  [⟨allocateDb, .of 1000 "/home/a", dirHost noFaults⟩,
    ⟨.release "db", .of 1000 "/home/a", dirHost (one .dropDir .crashes)⟩]

theorem release_not_finished
    : ¬ ∀ (pool : PoolRef) (start state : String → Option Node) (history : List DirEvent),
      Run (StepOf (dirPool pool)) start history state →
        ∀ event ∈ history, DirFinishes pool event := by
  intro finishes
  have cut := finishes media (fun _ => none) _ _ (Run.start.trace cutRelease) _ List.mem_cons_self
  revert cut
  unfold DirFinishes
  decide +kernel

end Delonix.Storage
