import Delonix.Library.Runs
import Delonix.Store.Lookup

/-! Updating a container record under its lock. `update` resolves a key, takes the lock of the id
it resolved and looks the id up again before it writes. Other processes update, remove and save
at the same time; a bare `save` or `remove` takes no lock.
-/

namespace Delonix.Store

open Delonix.Library.Interleaving
open Delonix.Library.Runs

variable {Body : Type}

/-- A call that works under a record's lock. -/
inductive Locked (Body : Type) where
  | update (f : Container Body → Container Body × Bool)
  | removeUnless (keep : Container Body → Bool)

inductive Call (Body : Type) where
  | locked (work : Locked Body) (key : String)
  | remove (id : String)
  | save (c : Container Body)

/-- The store directory: the records, and who holds each lock file. -/
structure StoreDir (Body : Type) where
  files : Files Body
  locks : String → Option Nat

def StoreDir.write (store : StoreDir Body) (file : String) (record : Option (Container Body))
    : StoreDir Body :=
  { store with files := Function.update store.files file record }

def StoreDir.relock (store : StoreDir Body) (file : String) (holder : Option Nat)
    : StoreDir Body :=
  { store with locks := Function.update store.locks file holder }

/-- The locks of a process that died are free. -/
def StoreDir.freed (store : StoreDir Body) (i : Nat) : StoreDir Body :=
  { store with locks := fun file =>
      if store.locks file = some i then none else store.locks file }

abbrev Outcome (Body : Type) := Except StoreError (Option (Container Body))

/-- Where a process stands in its call. -/
inductive Stage (Body : Type) where
  | idle
  | resolving (work : Locked Body) (key : String) (look : LoadStage)
  | locking (work : Locked Body) (id : String)
  | rereading (work : Locked Body) (id : String) (look : LoadStage)
  | applying (work : Locked Body) (id : String) (read : Container Body)
  | releasing (work : Locked Body) (id : String) (outcome : Outcome Body)
  | returned (outcome : Outcome Body)

/-- What a process does next. A lock that is taken makes it wait; an I/O failure ends its call,
and its death frees its locks.
-/
inductive Act (Body : Type) where
  | start (call : Call Body)
  | go (act : LoadAct)
  | die

/-- How a call begins. A bare `remove` or `save` is done with one step. -/
def begun (store : StoreDir Body) : Call Body → StoreDir Body × Stage Body
  | .locked work key => (store, .resolving work key .lookup)
  | .remove id =>
      if (store.files (safeKey id)).isSome then
        (store.write (safeKey id) none, .returned (.ok none))
      else (store, .returned (.error (.noSuchContainer id)))
  | .save c => (store.write (safeKey c.id) (some c), .returned (.ok none))

/-- The work under the lock, once the record is read again. -/
def worked (store : StoreDir Body) (id : String) (read : Container Body)
    : Locked Body → StoreDir Body × Outcome Body
  | .update f =>
      let (c, save) := f read
      (if save then store.write (safeKey c.id) (some c) else store, .ok (some c))
  | .removeUnless keep =>
      if keep read then (store, .ok (some read))
      else if (store.files (safeKey id)).isSome then (store.write (safeKey id) none, .ok none)
      else (store, .error (.noSuchContainer id))

/-- How a call goes on. -/
def proceed (i : Nat) (store : StoreDir Body) (act : LoadAct)
    : Stage Body → StoreDir Body × Stage Body
  | .idle => (store, .idle)
  | .resolving work key look =>
      match load store.files key look act with
      | .going look => (store, .resolving work key look)
      | .loaded c => (store, .locking work c.id)
      | .failed error => (store, .returned (.error error))
  | .locking work id =>
      match act with
      | .next =>
          if (store.locks (safeKey id)).isSome then (store, .locking work id)
          else (store.relock (safeKey id) (some i), .rereading work id .lookup)
      | .fail => (store, .returned (.error .lock))
      | .visit _ => (store, .locking work id)
  | .rereading work id look =>
      match load store.files id look act with
      | .going look => (store, .rereading work id look)
      | .loaded c => (store, .applying work id c)
      | .failed error => (store, .releasing work id (.error error))
  | .applying work id read =>
      match act with
      | .next =>
          let (store, outcome) := worked store id read work
          (store, .releasing work id outcome)
      | .fail => (store, .releasing work id (.error .io))
      | .visit _ => (store, .applying work id read)
  | .releasing work id outcome =>
      match act with
      | .next => (store.relock (safeKey id) none, .returned outcome)
      | _ => (store, .releasing work id outcome)
  | .returned outcome =>
      match act with
      | .next => (store, .idle)
      | _ => (store, .returned outcome)

/-- One step of a process. -/
def advance (i : Nat) (store : StoreDir Body) (stage : Stage Body)
    : Act Body → StoreDir Body × Stage Body
  | .start call =>
      match stage with
      | .idle => begun store call
      | stage => (store, stage)
  | .go act => proceed i store act stage
  | .die => (store.freed i, .idle)

/-- Any number of processes over one store. -/
def storeSystem (Body : Type) : System (StoreDir Body) (Stage Body) (Act Body) Empty where
  advance := advance
  stir _ event := nomatch event

abbrev StoreState (Body : Type) := State (StoreDir Body) (Stage Body)

abbrev StoreAction (Body : Type) := Action (Act Body) Empty

abbrev StoreHistory (Body : Type) := List (Event (StoreState Body) (StoreAction Body))

/-- No call is under way and no lock is held. -/
def StoreState.fresh (files : Files Body) : StoreState Body :=
  ⟨⟨files, fun _ => none⟩, fun _ => .idle⟩

/-- The file a step writes and what it leaves there. -/
def written (store : StoreDir Body) (stage : Stage Body)
    : Act Body → Option (String × Option (Container Body))
  | .start call =>
      match stage, call with
      | .idle, .save c => some (safeKey c.id, some c)
      | .idle, .remove id =>
          if (store.files (safeKey id)).isSome then some (safeKey id, none) else none
      | _, _ => none
  | .go .next =>
      match stage with
      | .applying (.update f) _ read =>
          if (f read).2 then some (safeKey (f read).1.id, some (f read).1) else none
      | .applying (.removeUnless keep) id read =>
          if keep read then none
          else if (store.files (safeKey id)).isSome then some (safeKey id, none) else none
      | _ => none
  | _ => none


/-- What the next step of an update must find. At the re-read under the lock, the file that is
read holds the resolved id, and where the directory is walked it singles out no other container.
The change itself keeps the id.
-/
def Stage.KeepsTo (files : Files Body) : Stage Body → Prop
  | .rereading (.update _) id (.scan found) => ∀ hit, found.pick id = .ok hit → hit.id = id
  | .rereading (.update _) id (.read file) => ∀ c, files file = some c → c.id = id
  | .applying (.update f) _ read => (f read).1.id = read.id
  | _ => True

instance (files : Files Body) : (stage : Stage Body) → Decidable (stage.KeepsTo files)
  | .rereading (.update _) id (.scan found) =>
      match picked : found.pick id with
      | .ok hit => decidable_of_iff (hit.id = id) (by simp [Stage.KeepsTo, picked])
      | .error _ => isTrue (by simp [Stage.KeepsTo, picked])
  | .rereading (.update _) id (.read file) =>
      match found : files file with
      | some c => decidable_of_iff (c.id = id) (by simp [Stage.KeepsTo, found])
      | none => isTrue (by simp [Stage.KeepsTo, found])
  | .applying (.update f) _ read => inferInstanceAs (Decidable ((f read).1.id = read.id))
  | .idle | .resolving _ _ _ | .locking _ _ | .rereading (.removeUnless _) _ _
  | .rereading (.update _) _ .lookup | .applying (.removeUnless _) _ _ | .releasing _ _ _
  | .returned _ => isTrue trivial

/-- What a stage of the process `i` relies on: its lock, and that an update stays with the id
it resolved.
-/
def Stage.Fits (store : StoreDir Body) (i : Nat) : Stage Body → Prop
  | .rereading (.update _) id (.read file) =>
      store.locks (safeKey id) = some i ∧ file = safeKey id
  | .rereading _ id _ => store.locks (safeKey id) = some i
  | .applying (.update _) id read => store.locks (safeKey id) = some i ∧ read.id = id
  | .applying _ id _ => store.locks (safeKey id) = some i
  | .releasing _ id _ => store.locks (safeKey id) = some i
  | _ => True

/-- The files after a step are those before with what the step writes. -/
theorem advance_files (i : Nat) (store : StoreDir Body) (stage : Stage Body) (act : Act Body)
    : (advance i store stage act).1.files
      = match written store stage act with
        | some (file, record) => Function.update store.files file record
        | none => store.files := by
  cases act with
  | die => rfl
  | start call =>
      cases stage with
      | idle =>
          cases call with
          | locked | save => rfl
          | remove id =>
              simp only [advance, begun, written]
              split <;> rfl
      | _ => rfl
  | go act =>
      cases stage with
      | idle => cases act <;> rfl
      | resolving work key look =>
          simp only [advance, proceed]
          cases act <;> split <;> rfl
      | locking work id =>
          cases act with
          | next =>
              simp only [advance, proceed, written]
              split <;> rfl
          | visit | fail => rfl
      | rereading work id look =>
          simp only [advance, proceed]
          cases act <;> split <;> rfl
      | applying work id read =>
          cases act with
          | visit | fail => rfl
          | next =>
              cases work with
              | update f =>
                  simp only [advance, proceed, worked, written]
                  split <;> rfl
              | removeUnless keep =>
                  simp only [advance, proceed, worked, written]
                  split
                  · rfl
                  · split <;> rfl
      | releasing work id outcome => cases act <;> rfl
      | returned outcome => cases act <;> rfl

theorem worked_locks (store : StoreDir Body) (id : String) (read : Container Body)
    (work : Locked Body)
    : (worked store id read work).1.locks = store.locks := by
  cases work with
  | update f =>
      simp only [worked]
      split <;> rfl
  | removeUnless keep =>
      simp only [worked]
      split
      · rfl
      · split <;> rfl

theorem begun_locks (store : StoreDir Body) (call : Call Body)
    : (begun store call).1.locks = store.locks := by
  cases call with
  | locked | save => rfl
  | remove id =>
      simp only [begun]
      split <;> rfl

theorem relock_other {store : StoreDir Body} {file : String} {j : Nat}
    (held : store.locks file = some j) {target : String}
    (apart : store.locks target ≠ some j) (holder : Option Nat)
    : (store.relock target holder).locks file = some j := by
  have ne : file ≠ target := by
    rintro rfl
    exact apart held
  simp [StoreDir.relock, ne, held]

/-- A process keeps its lock while others move. -/
theorem advance_locks {i j : Nat} {store : StoreDir Body} {stage : Stage Body}
    (fits : stage.Fits store i) (act : Act Body) (other : j ≠ i) {file : String}
    (held : store.locks file = some j)
    : (advance i store stage act).1.locks file = some j := by
  cases act with
  | die => simp [advance, StoreDir.freed, held, other]
  | start call =>
      cases stage with
      | idle => simpa only [advance, begun_locks] using held
      | _ => exact held
  | go act =>
      cases stage with
      | idle => exact held
      | resolving work key look =>
          simp only [advance, proceed]
          split <;> exact held
      | locking work id =>
          cases act with
          | visit | fail => exact held
          | next =>
              simp only [advance, proceed]
              split
              case isTrue => exact held
              case isFalse free =>
                  refine relock_other held ?_ _
                  intro taken
                  simp [taken] at free
      | rereading work id look =>
          simp only [advance, proceed]
          split <;> exact held
      | applying work id read =>
          cases act with
          | visit | fail => exact held
          | next => simpa only [advance, proceed, worked_locks] using held
      | releasing work id outcome =>
          cases act with
          | visit | fail => exact held
          | next =>
              refine relock_other held ?_ _
              have own : store.locks (safeKey id) = some i := fits
              rw [own]
              simpa using other.symm
      | returned outcome => cases act <;> exact held

/-- A stage that goes on under its lock. -/
theorem Stage.Fits.lock {i : Nat} {store : StoreDir Body} {work : Locked Body} {id : String}
    {look : LoadStage} (fits : (Stage.rereading work id look).Fits store i)
    : store.locks (safeKey id) = some i := by
  rcases work with f | keep
  · rcases look with _ | found | file
    · exact fits
    · exact fits
    · exact fits.1
  · exact fits

theorem Stage.Fits.lock_of_applying {i : Nat} {store : StoreDir Body} {work : Locked Body}
    {id : String} {read : Container Body} (fits : (Stage.applying work id read).Fits store i)
    : store.locks (safeKey id) = some i := by
  rcases work with f | keep
  · exact fits.1
  · exact fits

/-- The lookup of a re-read keeps to the resolved id. -/
theorem rereading_fits {i : Nat} {store : StoreDir Body} {work : Locked Body} {id : String}
    {look after : LoadStage} {act : LoadAct}
    (fits : (Stage.rereading work id look).Fits store i)
    (keeps : act = .next → (Stage.rereading work id look).KeepsTo store.files)
    (going : load store.files id look act = .going after)
    : (Stage.rereading work id after).Fits store i := by
  rcases work with f | keep
  · rcases after with _ | found | file
    · exact fits.lock
    · exact fits.lock
    · refine ⟨fits.lock, ?_⟩
      rcases load_eq_going_read going with exact | ⟨found, hit, rfl, rfl, picked, rfl⟩ | rfl
      · exact exact
      · rw [keeps rfl hit picked]
      · exact fits.2
  · exact fits.lock

theorem advance_fits {i : Nat} {store : StoreDir Body} {stage : Stage Body}
    (fits : stage.Fits store i) (act : Act Body)
    (keeps : act = .go .next → stage.KeepsTo store.files)
    : (advance i store stage act).2.Fits (advance i store stage act).1 i := by
  cases act with
  | die => trivial
  | start call =>
      cases stage with
      | idle =>
          cases call with
          | locked | save => trivial
          | remove id =>
              simp only [advance, begun]
              split <;> trivial
      | _ => exact fits
  | go act =>
      cases stage with
      | idle => trivial
      | resolving work key look =>
          simp only [advance, proceed]
          split <;> trivial
      | locking work id =>
          cases act with
          | visit | fail => trivial
          | next =>
              simp only [advance, proceed]
              split
              · trivial
              · have own : (store.relock (safeKey id) (some i)).locks (safeKey id) = some i := by
                  simp [StoreDir.relock]
                rcases work with f | keep <;> exact own
      | rereading work id look =>
          simp only [advance, proceed]
          split
          case h_1 after going => exact rereading_fits fits (fun is => keeps (is ▸ rfl)) going
          case h_2 c loaded =>
            obtain ⟨rfl, file, rfl, found⟩ := load_eq_loaded loaded
            rcases work with f | keep
            · exact ⟨fits.lock, keeps rfl c found⟩
            · exact fits
          case h_3 => exact fits.lock
      | applying work id read =>
          cases act with
          | visit => exact fits
          | fail => exact fits.lock_of_applying
          | next =>
              simp only [advance, proceed, Stage.Fits, worked_locks]
              exact fits.lock_of_applying
      | releasing work id outcome =>
          cases act with
          | visit | fail => exact fits
          | next => trivial
      | returned outcome => cases act <;> trivial

end Delonix.Store
