import Delonix.Library.Collections
import Delonix.Secrets.Processes

/-! The store stays in order as long as no process acts on what another is replacing: the key file
that is being created, the names a rotation is going through, and the record an `update` or a
`save` has read.
-/

namespace Delonix.Secrets

open Delonix.Library.Collections
open Delonix.Library.Interleaving
open Delonix.Library.Runs

variable {Key : Type}

-----------------------------------------------------------------------------------------
-- The condition
-----------------------------------------------------------------------------------------

/-- The key file is still missing when it is created. No record is read for a write, written or
removed while a rotation is under way; a write is made with the key that is on disk; a `save` or
`remove` is made while no `update` of the name is under way, and a `save` while the record is as it
read it. One rotation is made at a time, with a key no process has, and of secrets that it may
write.
-/
def Allowed (state : State (World Key) (Stage Key)) : Action (Act Key) Empty → Prop
  | .outside _ => True
  | .op i act =>
      match state.ops i, act with
      | .creating _, .go => state.world.key = none
      | .locked _ _ _, .go => state.world.rotation = .none
      | .saving _ _ _, .go => state.world.rotation = .none
      | .writing key origin s seen, .go =>
          state.world.rotation = .none ∧ state.world.key = some key
            ∧ match origin with
              | .save => state.world.locks s.name = none ∧ state.world.secrets.lookup s.name = seen
              | .update _ _ => True
      | .ready _, .remove name => state.world.rotation = .none ∧ state.world.locks name = none
      | .ready _, .rotate _ => state.world.rotation = .none
      | .reading _ new [] loaded, .go =>
          (∀ j, (state.ops j).key ≠ some new) ∧ ∀ s ∈ loaded, checkSecret s = .ok ()
      | _, _ => True

-----------------------------------------------------------------------------------------
-- The invariant
-----------------------------------------------------------------------------------------

def Blob.content : Blob Key Secret → Option Secret
  | .sealed _ s => some s
  | .plain s => some s
  | .corrupt => none

/-- The file opens under the key on disk. -/
def Opens (w : World Key) : Blob Key Secret → Prop
  | .sealed key _ => w.key = some key
  | .plain _ => True
  | .corrupt => False

/-- What the ledger says of a name is what its secret holds. -/
def Holds (w : World Key) (name : String) (s : Secret) : Prop :=
  ∃ pairs, w.ledger name = some pairs ∧ ∀ key, s.data.lookup key = pairs key

structure Inv (w : World Key) : Prop where
  files : ∀ name blob, w.secrets.lookup name = some blob → validName name = true
    ∧ ∃ s, blob.content = some s ∧ s.name = name ∧ Holds w name s
      ∧ (Opens w blob ∨ ∃ i left, w.rotation = .resealing i left ∧ name ∈ left)
  absent : ∀ name, w.secrets.lookup name = none → w.ledger name = none

/-- The pairs an `update` read are the ones in the file. -/
def ReadIs (w : World Key) (name : String) (read : Pairs) : Prop :=
  match w.secrets.lookup name with
  | none => read = []
  | some blob => ∃ s, blob.content = some s ∧ s.data = read

/-- A process that makes no rotation, with a store that is open. -/
structure Open (w : World Key) (i : Nat) : Prop where
  aside : w.rotation.owner ≠ some i
  keyed : w.key.isSome

/-- A write under way: an `update` has its lock and, while its key is the one on disk, has read
what is stored.
-/
def Writes (w : World Key) (i : Nat) (key : Key) : Origin → Secret → Prop
  | .save, _ => True
  | .update lock read, s => w.locks lock = some i ∧ s.name = lock
      ∧ (w.key = some key → (∀ j left, w.rotation ≠ .resealing j left) ∧ ReadIs w lock read)

/-- The files hold the secrets that were loaded. -/
def Loaded (w : World Key) (secrets : List Secret) : Prop :=
  ∀ s ∈ secrets, ∃ blob, w.secrets.lookup s.name = some blob ∧ blob.content = some s

def Fits (w : World Key) (i : Nat) : Stage Key → Prop
  | .idle => w.rotation.owner ≠ some i
  | .creating _ => w.rotation.owner ≠ some i
  | .ready _ => Open w i
  | .locking _ _ _ => Open w i
  | .locked _ name _ => Open w i ∧ w.locks name = some i
  | .saving key origin s => Open w i ∧ Writes w i key origin s
  | .writing key origin s seen => Open w i ∧ Writes w i key origin s ∧ checkSecret s = .ok ()
      ∧ (origin ≠ .save → w.key = some key → w.secrets.lookup s.name = seen)
  | .unlocking _ name => Open w i ∧ w.locks name = some i
  | .reading _ _ todo loaded => w.rotation = .reading i ∧ w.key.isSome ∧ Loaded w loaded
      ∧ (loaded.map Secret.name ++ todo).Nodup
      ∧ ∀ name, (w.secrets.lookup name).isSome → name ∈ loaded.map Secret.name ++ todo
  | .resealing new left => w.rotation = .resealing i (left.map Secret.name) ∧ w.key = some new
      ∧ Loaded w left ∧ (left.map Secret.name).Nodup ∧ ∀ s ∈ left, checkSecret s = .ok ()

-----------------------------------------------------------------------------------------
-- What a change of the world leaves standing
-----------------------------------------------------------------------------------------

/-- A change of the world that leaves the process `j` where it stands: it keeps its locks, and
while the key it has in memory is the one on disk, the files it has a lock for.
-/
structure Spares (j : Nat) (mine : Option Key) (w w' : World Key) : Prop where
  before : w.rotation.owner ≠ some j
  aside : w'.rotation.owner ≠ some j
  keyed : w.key.isSome → w'.key.isSome
  locks : ∀ name, w.locks name = some j → w'.locks name = some j
  current : ∀ key, mine = some key → w'.key = some key → w.key = some key
    ∧ ((∀ k left, w.rotation ≠ .resealing k left) → (∀ k left, w'.rotation ≠ .resealing k left)
      ∧ ∀ name, w.locks name = some j → w'.secrets.lookup name = w.secrets.lookup name)

theorem readIs_congr {w w' : World Key} {name : String} {read : Pairs}
    (same : w'.secrets.lookup name = w.secrets.lookup name) (before : ReadIs w name read)
    : ReadIs w' name read := by
  unfold ReadIs at before ⊢
  rw [same]
  exact before

section

variable {j : Nat} {w w' : World Key}

theorem Spares.open_ {mine : Option Key} (spares : Spares j mine w w') (before : Open w j)
    : Open w' j :=
  ⟨spares.aside, spares.keyed before.keyed⟩

theorem Spares.writes {key : Key} (spares : Spares j (some key) w w') {origin : Origin}
    {s : Secret} (before : Writes w j key origin s)
    : Writes w' j key origin s := by
  cases origin with
  | save => trivial
  | update lock read =>
      obtain ⟨held, named, reads⟩ := before
      refine ⟨spares.locks lock held, named, ?_⟩
      intro keyed
      obtain ⟨keyed, rest⟩ := spares.current key rfl keyed
      obtain ⟨quiet, is⟩ := reads keyed
      obtain ⟨quiet, files⟩ := rest quiet
      exact ⟨quiet, readIs_congr (files lock held) is⟩

theorem Spares.fits {stage : Stage Key} (spares : Spares j stage.key w w')
    (before : Fits w j stage)
    : Fits w' j stage := by
  cases stage with
  | idle => exact spares.aside
  | creating key => exact spares.aside
  | ready key => exact spares.open_ before
  | locking key name change => exact spares.open_ before
  | locked key name change => exact ⟨spares.open_ before.1, spares.locks name before.2⟩
  | saving key origin s => exact ⟨spares.open_ before.1, spares.writes before.2⟩
  | writing key origin s seen =>
      obtain ⟨opened, writes, checked, current⟩ := before
      refine ⟨spares.open_ opened, spares.writes writes, checked, ?_⟩
      intro updates keyed
      cases origin with
      | save => exact absurd rfl updates
      | update lock read =>
          obtain ⟨held, named, reads⟩ := writes
          obtain ⟨keyed, rest⟩ := spares.current key rfl keyed
          rw [← named] at held
          rw [(rest (reads keyed).1).2 s.name held]
          exact current updates keyed
  | unlocking key name => exact ⟨spares.open_ before.1, spares.locks name before.2⟩
  | reading key new todo loaded =>
      have owner := spares.before
      rw [before.1] at owner
      exact absurd rfl owner
  | resealing new left =>
      have owner := spares.before
      rw [before.1] at owner
      exact absurd rfl owner

/-- A process that makes no rotation. -/
theorem aside_of_fits {stage : Stage Key} (fits : Fits w j stage)
    : w.rotation.owner ≠ some j ∨ w.key.isSome := by
  cases stage with
  | idle => exact .inl fits
  | creating key => exact .inl fits
  | ready key => exact .inl fits.aside
  | locking key name change => exact .inl fits.aside
  | locked key name change => exact .inl fits.1.aside
  | saving key origin s => exact .inl fits.1.aside
  | writing key origin s seen => exact .inl fits.1.aside
  | unlocking key name => exact .inl fits.1.aside
  | reading key new todo loaded => exact .inr fits.2.1
  | resealing new left => exact .inr (by rw [fits.2.1]; rfl)

/-- A change of locks alone leaves every process that keeps its own. -/
theorem fits_of_locks {stage : Stage Key} (key : w'.key = w.key) (secrets : w'.secrets = w.secrets)
    (rotation : w'.rotation = w.rotation)
    (locks : ∀ name, w.locks name = some j → w'.locks name = some j) (before : Fits w j stage)
    : Fits w' j stage := by
  by_cases own : w.rotation.owner = some j
  · -- Only a rotation has it, and a rotation takes no locks.
    cases stage with
    | reading k new todo loaded =>
        simp only [Fits, Loaded, key, secrets, rotation] at before ⊢
        exact before
    | resealing new left =>
        simp only [Fits, Loaded, key, secrets, rotation] at before ⊢
        exact before
    | idle => exact absurd own before
    | creating k => exact absurd own before
    | ready k => exact absurd own before.aside
    | locking k name change => exact absurd own before.aside
    | locked k name change => exact absurd own before.1.aside
    | saving k origin s => exact absurd own before.1.aside
    | writing k origin s seen => exact absurd own before.1.aside
    | unlocking k name => exact absurd own before.1.aside
  · have spares : Spares j stage.key w w' := by
      refine ⟨own, by rw [rotation]; exact own, by rw [key]; exact id, locks, ?_⟩
      intro k _ keyed
      rw [key] at keyed
      refine ⟨keyed, ?_⟩
      intro quiet
      refine ⟨by rw [rotation]; exact quiet, ?_⟩
      intro name _
      rw [secrets]
    exact spares.fits before

end

-----------------------------------------------------------------------------------------
-- One step
-----------------------------------------------------------------------------------------

/-- What a step of `i` has to leave: the files in order, its own stage and those of the others. -/
structure Keeps (ops : Nat → Stage Key) (i : Nat) (w : World Key) (stage : Stage Key) : Prop where
  inv : Inv w
  moved : Fits w i stage
  others : ∀ j, j ≠ i → Fits w j (ops j)

section

variable {ops : Nat → Stage Key} {i : Nat} {w : World Key}

theorem keeps_create (key : Key) (inv : Inv w) (fits : ∀ j, Fits w j (ops j))
    (none : w.key = none)
    : Keeps ops i { w with key := some key } (.ready key) := by
  have aside (j : Nat) : w.rotation.owner ≠ some j := by
    refine (aside_of_fits (fits j)).resolve_right ?_
    rw [none]
    exact Bool.false_ne_true
  refine ⟨⟨?_, inv.absent⟩, ⟨aside i, rfl⟩, ?_⟩
  · intro name blob file
    obtain ⟨valid, s, content, named, holds, opens⟩ := inv.files name blob file
    refine ⟨valid, s, content, named, holds, opens.imp_left ?_⟩
    intro opens
    cases blob with
    | sealed under s => cases none.symm.trans opens
    | plain s => trivial
    | corrupt => exact opens
  · intro j _
    have keyless {stage : Stage Key} (opened : Open w j) : Fits { w with key := some key } j stage := by
      have keyed := opened.keyed
      rw [none] at keyed
      cases keyed
    have before := fits j
    cases at_j : ops j with
    | idle => exact aside j
    | creating key => exact aside j
    | ready k => rw [at_j] at before; exact keyless before
    | locking k name change => rw [at_j] at before; exact keyless before
    | locked k name change => rw [at_j] at before; exact keyless before.1
    | saving k origin s => rw [at_j] at before; exact keyless before.1
    | writing k origin s seen => rw [at_j] at before; exact keyless before.1
    | unlocking k name => rw [at_j] at before; exact keyless before.1
    | reading k new todo loaded =>
        rw [at_j] at before
        have owner := aside j
        rw [before.1] at owner
        exact absurd rfl owner
    | resealing new left =>
        rw [at_j] at before
        have owner := aside j
        rw [before.1] at owner
        exact absurd rfl owner

/-- Outside a rotation the files of a name may change when no other process has its lock. -/
theorem spares_of_files {w' : World Key} {j : Nat} {name : String} {mine : Option Key}
    (none : w.rotation = .none) (rotation : w'.rotation = .none) (key : w'.key = w.key)
    (locks : w'.locks = w.locks) (unlocked : w.locks name ≠ some j)
    (files : ∀ other, other ≠ name → w'.secrets.lookup other = w.secrets.lookup other)
    : Spares j mine w w' := by
  refine ⟨by rw [none]; exact (Option.some_ne_none j).symm,
    by rw [rotation]; exact (Option.some_ne_none j).symm,
    by rw [key]; exact id, by rw [locks]; exact fun _ held => held, ?_⟩
  intro k _ keyed
  rw [key] at keyed
  refine ⟨keyed, ?_⟩
  intro _
  refine ⟨?_, ?_⟩
  · intro k left resealing
    cases rotation.symm.trans resealing
  · intro other held
    apply files
    rintro rfl
    exact unlocked held

theorem keeps_remove {key : Key} {name : String} (inv : Inv w) (fits : ∀ j, Fits w j (ops j))
    (at_ : ops i = .ready key) (rotation : w.rotation = .none) (unlocked : w.locks name = none)
    : Keeps ops i { w with
        secrets := w.secrets.erase name
        ledger := Function.update w.ledger name none } (.ready key) := by
  have spares (j : Nat) (mine : Option Key) : Spares j mine w { w with
      secrets := w.secrets.erase name
      ledger := Function.update w.ledger name none } := by
    refine spares_of_files rotation rotation rfl rfl
      (by rw [unlocked]; exact (Option.some_ne_none j).symm) ?_
    intro other different
    exact AList.lookup_erase_ne different
  refine ⟨⟨?_, ?_⟩, ?_, ?_⟩
  · intro other blob file
    rw [lookup_erase_ite] at file
    split at file
    · cases file
    case isFalse different =>
      obtain ⟨valid, s, content, named, ⟨pairs, ledger, same⟩, opens⟩ := inv.files other blob file
      refine ⟨valid, s, content, named, ⟨pairs, ?_, same⟩, ?_⟩
      · rw [← ledger]
        exact Function.update_of_ne different _ _
      · exact opens
  · intro other missing
    rw [lookup_erase_ite] at missing
    by_cases same : other = name
    · subst same
      exact Function.update_self ..
    · rw [if_neg same] at missing
      exact (Function.update_of_ne same _ _).trans (inv.absent other missing)
  · have before := fits i
    rw [at_] at before
    refine Spares.fits ?_ before
    exact spares i (some key)
  · intro j _
    exact (spares j _).fits (fits j)

/-- A secret that passed its check has a valid name. -/
theorem validName_of_check {s : Secret} (checked : checkSecret s = .ok ())
    : validName s.name = true := by
  by_contra invalid
  rw [checkSecret, if_neg invalid] at checked
  cases checked

/-- What an `update` writes are the pairs the ledger has, with its own changes. -/
theorem holds_note {key : Key} {origin : Origin} {s : Secret} (inv : Inv w)
    (writes : Writes w i key origin s) (keyed : w.key = some key)
    : Holds (w.note origin s) s.name s := by
  cases origin with
  | save => exact ⟨fun key => s.data.lookup key, Function.update_self .., fun _ => rfl⟩
  | update lock read =>
      obtain ⟨-, named, reads⟩ := writes
      have read_is := (reads keyed).2
      rw [← named] at read_is
      refine ⟨_, Function.update_self .., ?_⟩
      intro pair
      dsimp only
      split
      case isFalse => rfl
      case isTrue unchanged =>
        rw [unchanged]
        unfold ReadIs at read_is
        split at read_is
        case h_1 missing =>
          rw [read_is, inv.absent s.name missing]
          rfl
        case h_2 blob file =>
          obtain ⟨stored, content, rfl⟩ := read_is
          obtain ⟨-, s', content', -, ⟨pairs, ledger, same⟩, -⟩ := inv.files s.name blob file
          cases content.symm.trans content'
          rw [ledger]
          exact same pair

theorem keeps_write {key : Key} {origin : Origin} {s : Secret} (version : Nat) (inv : Inv w)
    (fits : ∀ j, Fits w j (ops j)) (opened : Open w i) (writes : Writes w i key origin s)
    (checked : checkSecret s = .ok ()) (rotation : w.rotation = .none) (keyed : w.key = some key)
    (alone : ∀ j, j ≠ i → w.locks s.name ≠ some j)
    : Keeps ops i ((w.note origin s).put s.name (.sealed key { s with version }))
      (origin.leave key) := by
  have others (j : Nat) (other : j ≠ i) (mine : Option Key)
      : Spares j mine w ((w.note origin s).put s.name (.sealed key { s with version })) := by
    refine spares_of_files rotation rotation rfl rfl (alone j other) ?_
    intro name different
    exact AList.lookup_insert_ne different
  refine ⟨⟨?_, ?_⟩, ?_, fun j other => (others j other _).fits (fits j)⟩
  · intro name blob file
    rw [World.put, lookup_insert_ite] at file
    split at file
    case isTrue same =>
      subst same
      cases file
      refine ⟨validName_of_check checked, _, rfl, rfl, ?_, .inl keyed⟩
      exact holds_note inv writes keyed
    case isFalse different =>
      obtain ⟨valid, s', content, named, ⟨pairs, ledger, same⟩, opens⟩ := inv.files name blob file
      refine ⟨valid, s', content, named, ⟨pairs, ?_, same⟩, ?_⟩
      · rw [← ledger]
        exact Function.update_of_ne different _ _
      · refine .inl (opens.resolve_right ?_)
        rintro ⟨_, _, resealing, -⟩
        cases rotation.symm.trans resealing
  · intro name missing
    rw [World.put, lookup_insert_ite] at missing
    split at missing
    · cases missing
    case isFalse different =>
      exact (Function.update_of_ne different _ _).trans (inv.absent name missing)
  · cases origin with
    | save => exact ⟨opened.aside, opened.keyed⟩
    | update lock read => exact ⟨⟨opened.aside, opened.keyed⟩, writes.1⟩

theorem keeps_locks {w' : World Key} {stage : Stage Key} (inv : Inv w)
    (fits : ∀ j, Fits w j (ops j)) (key : w'.key = w.key) (secrets : w'.secrets = w.secrets)
    (ledger : w'.ledger = w.ledger) (rotation : w'.rotation = w.rotation)
    (locks : ∀ j, j ≠ i → ∀ name, w.locks name = some j → w'.locks name = some j)
    (moved : Fits w' i stage)
    : Keeps ops i w' stage := by
  refine ⟨⟨?_, ?_⟩, moved, ?_⟩
  · intro name blob file
    rw [secrets] at file
    obtain ⟨valid, s, content, named, holds, opens⟩ := inv.files name blob file
    refine ⟨valid, s, content, named, ?_, ?_⟩
    · unfold Holds
      rw [ledger]
      exact holds
    · rw [rotation]
      refine opens.imp_left ?_
      intro opens
      cases blob with
      | sealed under s => exact key.trans opens
      | plain s => trivial
      | corrupt => exact opens
  · rw [secrets, ledger]
    exact inv.absent
  · intro j other
    exact fits_of_locks key secrets rotation (locks j other) (fits j)

/-- A step that leaves the world as it is. -/
theorem keeps_still {stage : Stage Key} (inv : Inv w) (fits : ∀ j, Fits w j (ops j))
    (moved : Fits w i stage)
    : Keeps ops i w stage :=
  ⟨inv, moved, fun j _ => fits j⟩

/-- A rotation starts: it is at nobody's expense. -/
theorem keeps_start {key new : Key} (inv : Inv w) (fits : ∀ j, Fits w j (ops j))
    (at_ : ops i = .ready key) (none : w.rotation = .none)
    : Keeps ops i { w with rotation := .reading i } (.reading key new w.secrets.keys []) := by
  have ready := fits i
  rw [at_] at ready
  refine ⟨⟨?_, inv.absent⟩, ?_, ?_⟩
  · intro name blob file
    obtain ⟨valid, s, content, named, holds, opens⟩ := inv.files name blob file
    refine ⟨valid, s, content, named, holds, .inl (opens.resolve_right ?_)⟩
    rintro ⟨_, _, resealing, -⟩
    cases none.symm.trans resealing
  · refine ⟨rfl, ready.keyed, ?_, ?_, ?_⟩
    · intro s member
      cases member
    · exact w.secrets.keys_nodup
    · intro name stored
      exact AList.mem_keys.mp (AList.lookup_isSome.mp stored)
  · intro j other
    have spares : Spares j (ops j).key w { w with rotation := .reading i } := by
      refine ⟨by rw [none]; exact (Option.some_ne_none j).symm, ?_, id, fun _ held => held, ?_⟩
      · intro own
        cases own
        exact other rfl
      · intro k _ keyed
        refine ⟨keyed, fun _ => ⟨?_, fun _ _ => rfl⟩⟩
        intro k left resealing
        cases resealing
    exact spares.fits (fits j)

/-- The end of a rotation, or of its reading. -/
theorem keeps_end {key : Key} (inv : Inv w) (fits : ∀ j, Fits w j (ops j))
    (owner : w.rotation.owner = some i) (keyed : w.key.isSome)
    (nothing : ∀ k left, w.rotation = .resealing k left → left = [])
    : Keeps ops i { w with rotation := .none } (.ready key) := by
  refine ⟨⟨?_, inv.absent⟩, ⟨(Option.some_ne_none i).symm, keyed⟩, ?_⟩
  · intro name blob file
    obtain ⟨valid, s, content, named, holds, opens⟩ := inv.files name blob file
    refine ⟨valid, s, content, named, holds, .inl (opens.resolve_right ?_)⟩
    rintro ⟨k, left, resealing, member⟩
    rw [nothing k left resealing] at member
    cases member
  · intro j other
    have spares : Spares j (ops j).key w { w with rotation := .none } := by
      refine ⟨?_, (Option.some_ne_none j).symm, id, fun _ held => held, ?_⟩
      · intro own
        cases owner.symm.trans own
        exact other rfl
      · intro k _ keyed
        refine ⟨keyed, fun _ => ⟨?_, fun _ _ => rfl⟩⟩
        intro k left resealing
        cases resealing
    exact spares.fits (fits j)

/-- The new key is on disk: every name is under the old one, and nobody has the new one. -/
theorem keeps_rekey {key new : Key} {loaded : List Secret} (inv : Inv w)
    (fits : ∀ j, Fits w j (ops j)) (at_ : ops i = .reading key new [] loaded)
    (fresh : ∀ j, (ops j).key ≠ some new) (checked : ∀ s ∈ loaded, checkSecret s = .ok ())
    : Keeps ops i
      { w with key := some new, rotation := .resealing i (loaded.map Secret.name) }
      (.resealing new loaded) := by
  have reading := fits i
  rw [at_] at reading
  obtain ⟨rotation, -, load, distinct, all⟩ := reading
  rw [List.append_nil] at distinct all
  refine ⟨⟨?_, inv.absent⟩, ⟨rfl, rfl, load, distinct, checked⟩, ?_⟩
  · intro name blob file
    obtain ⟨valid, s, content, named, holds, -⟩ := inv.files name blob file
    exact ⟨valid, s, content, named, holds, .inr ⟨_, _, rfl, all name (by rw [file]; rfl)⟩⟩
  · intro j other
    have spares : Spares j (ops j).key w
        { w with key := some new, rotation := .resealing i (loaded.map Secret.name) } := by
      refine ⟨?_, ?_, fun _ => rfl, fun _ held => held, ?_⟩
      · intro own
        rw [rotation] at own
        cases own
        exact other rfl
      · intro own
        cases own
        exact other rfl
      · intro k mine keyed
        cases keyed
        exact absurd mine (fresh j)
    exact spares.fits (fits j)

/-- One secret under the new key. -/
theorem keeps_reseal {new : Key} {s : Secret} {left : List Secret} (version : Nat) (inv : Inv w)
    (fits : ∀ j, Fits w j (ops j)) (at_ : ops i = .resealing new (s :: left))
    : Keeps ops i
      { w.put s.name (.sealed new { s with version }) with
        rotation := .resealing i (left.map Secret.name) }
      (.resealing new left) := by
  have resealing := fits i
  rw [at_] at resealing
  obtain ⟨rotation, keyed, load, distinct, checked⟩ := resealing
  rw [List.map_cons, List.nodup_cons] at distinct
  refine ⟨⟨?_, ?_⟩, ⟨rfl, keyed, ?_, distinct.2, ?_⟩, ?_⟩
  · intro name blob file
    rw [World.put, lookup_insert_ite] at file
    split at file
    case isTrue same =>
      subst same
      cases file
      obtain ⟨blob, file, content⟩ := load s List.mem_cons_self
      obtain ⟨valid, s', content', -, holds, -⟩ := inv.files s.name blob file
      cases content.symm.trans content'
      exact ⟨valid, _, rfl, rfl, holds, .inl keyed⟩
    case isFalse different =>
      obtain ⟨valid, s', content, named, holds, opens⟩ := inv.files name blob file
      refine ⟨valid, s', content, named, holds, opens.imp ?_ ?_⟩
      · exact id
      · rintro ⟨k, left', is, member⟩
        cases rotation.symm.trans is
        exact ⟨i, _, rfl, (List.mem_cons.mp member).resolve_left different⟩
  · intro name missing
    rw [World.put, lookup_insert_ite] at missing
    split at missing
    · cases missing
    · exact inv.absent name missing
  · intro s' member
    obtain ⟨blob, file, content⟩ := load s' (List.mem_cons_of_mem _ member)
    refine ⟨blob, ?_, content⟩
    have different : s'.name ≠ s.name := by
      intro same
      apply distinct.1
      rw [← same]
      exact List.mem_map_of_mem member
    rw [World.put, AList.lookup_insert_ne different, file]
  · exact fun s' member => checked s' (List.mem_cons_of_mem _ member)
  · intro j other
    have spares : Spares j (ops j).key w { w.put s.name (.sealed new { s with version }) with
        rotation := .resealing i (left.map Secret.name) } := by
      refine ⟨?_, ?_, id, fun _ held => held, ?_⟩
      · intro own
        rw [rotation] at own
        cases own
        exact other rfl
      · intro own
        cases own
        exact other rfl
      · intro k _ keyed
        refine ⟨keyed, ?_⟩
        intro quiet
        exact absurd rotation (quiet _ _)
    exact spares.fits (fits j)

end

-----------------------------------------------------------------------------------------
-- Every step
-----------------------------------------------------------------------------------------

section

variable [DecidableEq Key] {ops : Nat → Stage Key} {i : Nat} {w : World Key}

theorem load_disk (w : World Key) (key : Key) (name : String)
    : load w.disk key name = loadFile key name (w.secrets.lookup name) :=
  rfl

/-- What opens holds what it should. -/
theorem content_of_decode {key : Key} {blob : Blob Key Secret} {s : Secret}
    (decoded : decode key blob = .ok s)
    : blob.content = some s := by
  cases blob with
  | sealed under s' =>
      rw [decode] at decoded
      split at decoded
      · cases decoded
        rfl
      · cases decoded
  | plain s' =>
      cases decoded
      rfl
  | corrupt => cases decoded

theorem file_of_load {key : Key} {name : String} {s : Secret} (loads : load w.disk key name = .ok s)
    : ∃ blob, w.secrets.lookup name = some blob ∧ decode key blob = .ok s := by
  rw [load_disk] at loads
  unfold loadFile at loads
  split at loads
  · split at loads
    · cases loads
    case h_2 blob file => exact ⟨blob, file, loads⟩
  · cases loads

/-- Outside a rotation every file opens under the key on disk. -/
theorem decode_of_quiet {key : Key} {blob : Blob Key Secret} {s : Secret} (opens : Opens w blob)
    (keyed : w.key = some key) (content : blob.content = some s)
    : decode key blob = .ok s := by
  cases blob with
  | sealed under s' =>
      cases keyed.symm.trans opens
      cases content
      rw [decode, if_pos rfl]
  | plain s' =>
      cases content
      rfl
  | corrupt => cases content

theorem load_of_quiet {key : Key} {name : String} {blob : Blob Key Secret} (inv : Inv w)
    (quiet : ∀ k left, w.rotation ≠ .resealing k left) (keyed : w.key = some key)
    (file : w.secrets.lookup name = some blob)
    : ∃ s, blob.content = some s ∧ load w.disk key name = .ok s := by
  obtain ⟨valid, s, content, -, -, opens⟩ := inv.files name blob file
  refine ⟨s, content, ?_⟩
  have opens : Opens w blob := by
    refine opens.resolve_right ?_
    rintro ⟨k, left, resealing, -⟩
    exact quiet k left resealing
  rw [load_disk, file]
  unfold loadFile
  rw [if_pos valid]
  exact decode_of_quiet opens keyed content

/-- What an `update` reads, and the write it goes on to. -/
theorem writes_of_read {key : Key} {name : String} (inv : Inv w) (held : w.locks name = some i)
    (rotation : w.rotation = .none) (data : Pairs) {s : Secret}
    (reads : load w.disk key name = .ok s ∨ (∃ refusal, load w.disk key name = .error refusal)
      ∧ s = ⟨name, [], 0⟩)
    : Writes w i key (.update name s.data) { s with data } := by
  have quiet (k : Nat) (left : List String) : w.rotation ≠ .resealing k left := by
    rw [rotation]
    exact nofun
  rcases reads with loads | ⟨⟨refusal, fails⟩, rfl⟩
  · obtain ⟨blob, file, decoded⟩ := file_of_load loads
    obtain ⟨-, s', content, named, -, -⟩ := inv.files name blob file
    cases content.symm.trans (content_of_decode decoded)
    refine ⟨held, named, fun _ => ⟨quiet, ?_⟩⟩
    rw [ReadIs, file]
    exact ⟨s, content, rfl⟩
  · refine ⟨held, rfl, ?_⟩
    intro keyed
    refine ⟨quiet, ?_⟩
    unfold ReadIs
    split
    · rfl
    case h_2 blob file =>
      obtain ⟨_, -, loads⟩ := load_of_quiet inv quiet keyed file
      cases fails.symm.trans loads

theorem keeps_advance {stage : Stage Key} (inv : Inv w) (fits : ∀ j, Fits w j (ops j))
    (at_ : ops i = stage) {act : Act Key} (allowed : Allowed ⟨w, ops⟩ (.op i act))
    : Keeps ops i (advance i w stage act).1 (advance i w stage act).2 := by
  have mine := fits i
  rw [at_] at mine
  simp only [Allowed, at_] at allowed
  cases stage with
  | idle =>
      cases act with
      | opens fresh =>
          rw [advance]
          cases keyed : w.key with
          | some key => exact keeps_still inv fits ⟨mine, by rw [keyed]; rfl⟩
          | none => exact keeps_still inv fits mine
      | _ => exact keeps_still inv fits mine
  | creating key =>
      cases act with
      | go => exact keeps_create key inv fits allowed
      | _ => exact keeps_still inv fits mine
  | ready key =>
      cases act with
      | update name change =>
          rw [advance]
          split
          · exact keeps_still inv fits mine
          · exact keeps_still inv fits mine
      | save s => exact keeps_still inv fits ⟨mine, trivial⟩
      | remove name =>
          rw [advance]
          split
          · exact keeps_remove inv fits at_ allowed.1 allowed.2
          · exact keeps_still inv fits mine
      | rotate new => exact keeps_start inv fits at_ allowed
      | _ => exact keeps_still inv fits mine
  | locking key name change =>
      cases act with
      | go =>
          rw [advance]
          cases held : w.locks name with
          | some j => exact keeps_still inv fits mine
          | none =>
              refine keeps_locks inv fits rfl rfl rfl rfl ?_
                ⟨⟨mine.aside, mine.keyed⟩, Function.update_self ..⟩
              intro j other name' holds
              have different : name' ≠ name := by
                rintro rfl
                cases held.symm.trans holds
              exact (Function.update_of_ne different _ _).trans holds
      | _ => exact keeps_still inv fits mine
  | locked key name change =>
      cases act with
      | go =>
          rw [advance]
          split
          · exact keeps_still inv fits mine
          case h_2 data changed =>
            refine keeps_still inv fits ⟨mine.1, writes_of_read inv mine.2 allowed data ?_⟩
            cases reads : load w.disk key name with
            | ok s => exact .inl rfl
            | error refusal => exact .inr ⟨⟨refusal, rfl⟩, rfl⟩
      | _ => exact keeps_still inv fits mine
  | saving key origin s =>
      cases act with
      | go =>
          rw [advance]
          split
          · refine keeps_still inv fits ?_
            cases origin with
            | save => exact mine.1
            | update lock read => exact ⟨mine.1, mine.2.1⟩
          case h_2 checked => exact keeps_still inv fits ⟨mine.1, mine.2, checked, fun _ _ => rfl⟩
      | _ => exact keeps_still inv fits mine
  | writing key origin s seen =>
      cases act with
      | go =>
          obtain ⟨opened, writes, checked, -⟩ := mine
          obtain ⟨rotation, keyed, alone⟩ := allowed
          refine keeps_write _ inv fits opened writes checked rotation keyed ?_
          intro j other held
          cases origin with
          | save => cases alone.1.symm.trans held
          | update lock read =>
              rw [writes.2.1] at held
              cases writes.1.symm.trans held
              exact other rfl
      | _ => exact keeps_still inv fits mine
  | unlocking key name =>
      cases act with
      | go =>
          refine keeps_locks inv fits rfl rfl rfl rfl ?_ ⟨mine.1.aside, mine.1.keyed⟩
          intro j other name' holds
          have different : name' ≠ name := by
            rintro rfl
            cases mine.2.symm.trans holds
            exact other rfl
          exact (Function.update_of_ne different _ _).trans holds
      | _ => exact keeps_still inv fits mine
  | reading key new todo loaded =>
      cases act with
      | go =>
          cases todo with
          | nil => exact keeps_rekey inv fits at_ allowed.1 allowed.2
          | cons name todo =>
              obtain ⟨rotation, keyed, load_, distinct, all⟩ := mine
              rw [advance]
              split
              case h_1 s loads =>
                obtain ⟨blob, file, decoded⟩ := file_of_load loads
                have content := content_of_decode decoded
                obtain ⟨-, s', content', named, -, -⟩ := inv.files name blob file
                cases content.symm.trans content'
                refine keeps_still inv fits ⟨rotation, keyed, ?_, ?_, ?_⟩
                · intro s' member
                  rcases List.mem_append.mp member with older | newest
                  · exact load_ s' older
                  · rw [List.mem_singleton.mp newest, named]
                    exact ⟨blob, file, content⟩
                · rw [List.map_append, List.map_singleton, named, List.append_assoc]
                  exact distinct
                · rw [List.map_append, List.map_singleton, named, List.append_assoc]
                  exact all
              case h_2 refusal fails =>
                refine keeps_end inv fits (by rw [rotation]; rfl) keyed ?_
                intro k left resealing
                cases rotation.symm.trans resealing
      | _ => cases todo <;> exact keeps_still inv fits mine
  | resealing new left =>
      cases act with
      | go =>
          cases left with
          | nil =>
              refine keeps_end inv fits (by rw [mine.1]; rfl) (by rw [mine.2.1]; rfl) ?_
              intro k left resealing
              cases mine.1.symm.trans resealing
              rfl
          | cons s left =>
              have checked := mine.2.2.2.2 s List.mem_cons_self
              rw [advance, checked]
              exact keeps_reseal _ inv fits at_
      | _ => cases left <;> exact keeps_still inv fits mine

/-- A file is replaced by one with no lower version. -/
def Grows (before after : World Key) : Prop :=
  ∀ name blob blob' s s', before.secrets.lookup name = some blob →
    after.secrets.lookup name = some blob' → blob.content = some s → blob'.content = some s' →
    s.version ≤ s'.version

omit [DecidableEq Key] in
theorem grows_same {w' : World Key} (same : w'.secrets = w.secrets) : Grows w w' := by
  intro name blob blob' s s' file file' content content'
  rw [same] at file'
  cases file.symm.trans file'
  cases content.symm.trans content'
  exact Nat.le_refl _

omit [DecidableEq Key] in
/-- Only the file that is written has a new version. -/
theorem grows_put {w' : World Key} {name : String} {written : Secret} {key : Key}
    (put : ∀ other, w'.secrets.lookup other
      = if other = name then some (.sealed key written) else w.secrets.lookup other)
    (higher : ∀ blob s, w.secrets.lookup name = some blob → blob.content = some s →
      s.version ≤ written.version)
    : Grows w w' := by
  intro other blob blob' s s' file file' content content'
  rw [put] at file'
  split at file'
  case isTrue same =>
    subst same
    cases file'
    cases content'
    exact higher blob s file content
  case isFalse =>
    cases file.symm.trans file'
    cases content.symm.trans content'
    exact Nat.le_refl _

theorem le_assignVersion (prev s : Secret) : prev.version ≤ assignVersion none (.ok prev) s := by
  rw [assignVersion]
  split <;> omega

theorem grows_advance {stage : Stage Key} (inv : Inv w) (mine : Fits w i stage)
    (at_ : ops i = stage) {act : Act Key} (allowed : Allowed ⟨w, ops⟩ (.op i act))
    : Grows w (advance i w stage act).1 := by
  simp only [Allowed, at_] at allowed
  cases stage with
  | idle =>
      cases act with
      | opens fresh =>
          rw [advance]
          split <;> exact grows_same rfl
      | _ => exact grows_same rfl
  | creating key => cases act <;> exact grows_same rfl
  | ready key =>
      cases act with
      | remove name =>
          rw [advance]
          split
          · intro other blob blob' s s' file file' content content'
            rw [lookup_erase_ite] at file'
            split at file'
            · cases file'
            · cases file.symm.trans file'
              cases content.symm.trans content'
              exact Nat.le_refl _
          · exact grows_same rfl
      | update name change =>
          rw [advance]
          split <;> exact grows_same rfl
      | _ => exact grows_same rfl
  | locking key name change =>
      cases act with
      | go =>
          rw [advance]
          split <;> exact grows_same rfl
      | _ => exact grows_same rfl
  | locked key name change =>
      cases act with
      | go =>
          rw [advance]
          split <;> exact grows_same rfl
      | _ => exact grows_same rfl
  | saving key origin s =>
      cases act with
      | go =>
          rw [advance]
          split <;> exact grows_same rfl
      | _ => exact grows_same rfl
  | writing key origin s seen =>
      cases act with
      | go =>
          obtain ⟨opened, writes, checked, current⟩ := mine
          obtain ⟨rotation, keyed, alone⟩ := allowed
          refine grows_put (fun other => lookup_insert_ite w.secrets s.name other _) ?_
          intro blob stored file content
          -- It has read the file that is there, and that file opens.
          have is : w.secrets.lookup s.name = seen := by
            cases origin with
            | save => exact alone.2
            | update lock read => exact current nofun keyed
          have quiet (k : Nat) (left : List String) : w.rotation ≠ .resealing k left := by
            rw [rotation]
            exact nofun
          obtain ⟨stored', content', loads⟩ := load_of_quiet inv quiet keyed file
          cases content.symm.trans content'
          rw [load_disk, is] at loads
          dsimp only
          rw [loads]
          exact le_assignVersion stored s
      | _ => exact grows_same rfl
  | unlocking key name => cases act <;> exact grows_same rfl
  | reading key new todo loaded =>
      cases todo with
      | nil => cases act <;> exact grows_same rfl
      | cons name todo =>
          cases act with
          | go =>
              rw [advance]
              split <;> exact grows_same rfl
          | _ => exact grows_same rfl
  | resealing new left =>
      cases left with
      | nil => cases act <;> exact grows_same rfl
      | cons s left =>
          cases act with
          | go =>
              obtain ⟨rotation, keyed, load_, distinct, checked⟩ := mine
              rw [advance, checked s List.mem_cons_self]
              refine grows_put (fun other => lookup_insert_ite w.secrets s.name other _) ?_
              intro blob stored file content
              obtain ⟨blob', file', content'⟩ := load_ s List.mem_cons_self
              cases file.symm.trans file'
              cases content.symm.trans content'
              exact Nat.le_max_left ..
          | _ => exact grows_same rfl

-----------------------------------------------------------------------------------------
-- Whole runs
-----------------------------------------------------------------------------------------

/-- A store in order: every file has a valid name, holds the secret of that name, and opens under
the key on disk.
-/
def InOrder (key : Option Key) (secrets : AList fun _ : String => Blob Key Secret) : Prop :=
  ∀ name blob, secrets.lookup name = some blob → validName name = true
    ∧ ∃ s, blob.content = some s ∧ s.name = name
      ∧ match blob with
        | .sealed under _ => key = some under
        | _ => True

/-- Before any process has come. -/
def untouched (key : Option Key) (secrets : AList fun _ : String => Blob Key Secret)
    : State (World Key) (Stage Key) where
  world := {
    key
    secrets
    locks := fun _ => none
    ledger := fun name => ((secrets.lookup name).bind Blob.content).map fun s pair =>
      s.data.lookup pair
    rotation := .none }
  ops := fun _ => .idle

/-- Every stored secret decrypts under the key on disk and holds the pairs of the ledger, and what
is not stored is not in the ledger.
-/
structure Coherent (w : World Key) : Prop where
  stored : ∀ name blob, w.secrets.lookup name = some blob →
    ∃ s, (∀ key, w.key = some key → load w.disk key name = .ok s) ∧ Holds w name s
  absent : ∀ name, w.secrets.lookup name = none → w.ledger name = none

omit [DecidableEq Key] in
theorem fitting_untouched {key : Option Key} {secrets : AList fun _ : String => Blob Key Secret}
    (order : InOrder key secrets)
    : Fitting Inv Fits (untouched key secrets) := by
  refine ⟨⟨?_, ?_⟩, fun i => (Option.some_ne_none i).symm⟩
  · intro name blob file
    obtain ⟨valid, s, content, named, opens⟩ := order name blob file
    have file : secrets.lookup name = some blob := file
    refine ⟨valid, s, content, named, ⟨fun pair => s.data.lookup pair, ?_, fun _ => rfl⟩, .inl ?_⟩
    · simp [untouched, file, content]
    · cases blob with
      | sealed under s => exact opens
      | plain s => trivial
      | corrupt => cases content
  · intro name missing
    have missing : secrets.lookup name = none := missing
    simp [untouched, missing]

theorem fitting_run {start state : State (World Key) (Stage Key)}
    {history : List (Event (State (World Key) (Stage Key)) (Action (Act Key) Empty))}
    (run : Run (StepOf processes.perform) start history state) (allowed : Meets Allowed history)
    (before : Fitting Inv Fits start)
    : Fitting Inv Fits state := by
  refine Run.invariant (fun _ state => Fitting Inv Fits state) before ?_ run allowed
  rintro _ state action _ fitting rfl allowed
  cases action with
  | outside event => cases event
  | op i act =>
      have keeps := keeps_advance fitting.world fitting.ops rfl allowed
      exact .moved keeps.inv keeps.moved keeps.others

omit [DecidableEq Key] in
theorem rotation_of_rest {state : State (World Key) (Stage Key)}
    (fitting : Fitting Inv Fits state) (rest : ∀ i, (state.ops i).AtRest)
    : state.world.rotation = .none := by
  have idle (i : Nat) : state.world.rotation.owner ≠ some i := by
    have fits := fitting.ops i
    have rests := rest i
    cases at_ : state.ops i with
    | idle =>
        rw [at_] at fits
        exact fits
    | ready key =>
        rw [at_] at fits
        exact fits.aside
    | _ =>
        rw [at_] at rests
        cases rests
  cases rotation : state.world.rotation with
  | none => rfl
  | reading i =>
      have own := idle i
      rw [rotation] at own
      exact absurd rfl own
  | resealing i left =>
      have own := idle i
      rw [rotation] at own
      exact absurd rfl own

/-- In every run whose steps are allowed, the store is coherent whenever all the operations have
ended, and no step lowers the version of a name that stays.
-/
theorem store_coherent {key : Option Key} {secrets : AList fun _ : String => Blob Key Secret}
    (order : InOrder key secrets) {state : State (World Key) (Stage Key)}
    {history : List (Event (State (World Key) (Stage Key)) (Action (Act Key) Empty))}
    (run : Run (StepOf processes.perform) (untouched key secrets) history state)
    (allowed : Meets Allowed history)
    : ((∀ i, (state.ops i).AtRest) → Coherent state.world)
      ∧ ∀ event ∈ history, Grows event.before.world event.after.world := by
  constructor
  · intro rest
    have fitting := fitting_run run allowed (fitting_untouched order)
    have rotation := rotation_of_rest fitting rest
    refine ⟨?_, fitting.world.absent⟩
    intro name blob file
    obtain ⟨valid, s, content, -, holds, opens⟩ := fitting.world.files name blob file
    refine ⟨s, ?_, holds⟩
    intro key keyed
    have quiet (k : Nat) (left : List String) : state.world.rotation ≠ .resealing k left := by
      rw [rotation]
      exact nofun
    obtain ⟨s', content', loads⟩ := load_of_quiet fitting.world quiet keyed file
    cases content.symm.trans content'
    exact loads
  · intro event member
    obtain ⟨older, earlier, meets, taken⟩ := run.upBefore allowed member
    have fitting := fitting_run earlier meets (fitting_untouched order)
    have allowed := allowed event member
    obtain ⟨before, action, after⟩ := event
    have taken : after = processes.perform before action := taken
    subst taken
    cases action with
    | outside event => cases event
    | op i act => exact grows_advance fitting.world (fitting.ops i) rfl allowed

end

/-- One process opens a new store and updates a name, while another that has found the key rotates
it.
-/
def updateThenRotate : List (Action (Act Nat) Empty) :=
  [.op 0 (.opens 1), .op 0 .go, .op 1 (.opens 9),
    .op 0 (.update "db" fun read => some (("PASS", "x") :: read)), .op 0 .go, .op 0 .go, .op 0 .go,
    .op 0 .go, .op 0 .go, .op 1 (.rotate 2), .op 1 .go, .op 1 .go, .op 1 .go, .op 1 .go]

theorem store_coherent_updateThenRotate
    : (updateThenRotate.foldl processes.perform (untouched none ∅)).world.key = some 2
      ∧ Coherent (updateThenRotate.foldl processes.perform (untouched none ∅)).world := by
  have valid : validName "db" = true := by decide +kernel
  have checked (version : Nat) : checkSecret ⟨"db", [("PASS", "x")], version⟩ = .ok () := by
    have env : validEnvKey "PASS" = true := by decide +kernel
    simp [checkSecret, valid, env]
  have empty : InOrder (none : Option Nat) ∅ := by
    intro name blob file
    cases file
  have stored (file : Blob Nat Secret)
      : @AList.lookup String (fun _ => Blob Nat Secret) _ "db" (AList.singleton "db" file)
        = some file := by
    rw [← AList.insert_empty, AList.lookup_insert]
  refine ⟨by decide +kernel, (store_coherent empty (Run.start.trace _) ?_).1 ?_⟩
  · iterate 14
      refine meets_cons.mpr ⟨?_, ?_⟩
      · simp [Allowed, processes, System.perform, advance, untouched, valid, checked, stored, load,
          World.disk, World.put, World.note, Origin.leave, decode, assignVersion, loadFile,
          Function.update_apply]
        -- The new key is in no memory yet.
        try
          intro j
          rcases j with _ | _ | j <;> simp [Stage.key]
    exact fun _ member => absurd member List.not_mem_nil
  · intro i
    rcases i with _ | _ | i
    · trivial
    · trivial
    · trivial

/-- Two processes open a new store at once; the second writes its key over the key of the first,
which goes on with its own.
-/
def twoFirstUses : List (Action (Act Nat) Empty) :=
  [.op 0 (.opens 1), .op 1 (.opens 2), .op 0 .go, .op 1 .go,
    .op 0 (.save ⟨"db", [("PASS", "x")], 0⟩), .op 0 .go, .op 0 .go]

/-- The first process has written a secret that the key on disk does not open. -/
theorem store_not_coherent
    : ¬ ∀ (key : Option Nat) (secrets : AList fun _ : String => Blob Nat Secret),
      InOrder key secrets → ∀ history state,
        Run (StepOf processes.perform) (untouched key secrets) history state →
        (∀ i, (state.ops i).AtRest) → Coherent state.world := by
  intro coherent
  have empty : InOrder (none : Option Nat) ∅ := by
    intro name blob file
    cases file
  have ended (i : Nat)
      : ((twoFirstUses.foldl processes.perform (untouched none ∅)).ops i).AtRest := by
    rcases i with _ | _ | i
    · trivial
    · trivial
    · trivial
  have claimed := coherent none ∅ empty _ _ (Run.start.trace twoFirstUses) ended
  have present : ((twoFirstUses.foldl processes.perform (untouched none ∅)).world.secrets.lookup
      "db").isSome := by decide +kernel
  obtain ⟨file, is⟩ := Option.isSome_iff_exists.mp present
  obtain ⟨s, loads, -⟩ := claimed.stored "db" file is
  have refuses : load (twoFirstUses.foldl processes.perform (untouched none ∅)).world.disk 2 "db"
      = .error .vault := by decide +kernel
  cases refuses.symm.trans (loads 2 rfl)

end Delonix.Secrets
