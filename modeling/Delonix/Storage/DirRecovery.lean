import Delonix.Storage.DirPool

/-! A directory that carries no stamp of the caller is left alone, and what a failure or a crash
leaves, the same call can finish.
-/

namespace Delonix.Storage

open Delonix.Library.Faults

section

variable {host : DirHost} {α : Type} {pre : Option Node → Prop} {cut : Option Node → Prop}

theorem leaves_look {step : DirStep} {default : α} {see : Option Node → α}
    {post : α → Option Node → Prop}
    (seen : ∀ w, pre w → host.faults step = none → post (see w) w)
    (blind : ∀ w, pre w → host.faults step = some .fails → post default w)
    (stopped : ∀ w, pre w → host.faults step = some .crashes → cut w)
    : Leaves pre (host.look step default see) post cut := by
  refine .bind (fun a w => post (a.getD default) w) (.attempt ?_ nofun blind stopped)
    fun a => .pure fun _ holds => holds
  intro w a w' holds calm done
  cases done
  exact seen w holds calm

theorem leaves_tryTo {step : DirStep} {does : Option Node → Option (Unit × Option Node)}
    {left : Option Node → Option Node} {post : Bool → Option Node → Prop}
    (done : ∀ w w', pre w → host.faults step = none → does w = some ((), w') → post true w')
    (undone : ∀ w, pre w → host.faults step = none → does w = none → post false w)
    (failed : ∀ w, pre w → host.faults step = some .fails → post false (left w))
    (stopped : ∀ w, pre w → host.faults step = some .crashes → cut w)
    : Leaves pre (host.tryTo step does left) post cut :=
  .bind (fun a w => post a.isSome w) (.attempt (fun w _ w' => done w w') undone failed stopped)
    fun _ => .pure fun _ holds => holds

theorem leaves_must {step : DirStep} {error : String → Error}
    {does : Option Node → Option (Unit × Option Node)} {left : Option Node → Option Node}
    {post : Unit → Option Node → Prop}
    (done : ∀ w w', pre w → host.faults step = none → does w = some ((), w') → post () w')
    (undone : ∀ w, pre w → host.faults step = none → does w = none → cut w)
    (failed : ∀ w, pre w → host.faults step = some .fails → cut (left w))
    (stopped : ∀ w, pre w → host.faults step = some .crashes → cut w)
    : Leaves pre (host.must step error does left) post cut := by
  refine .bind (fun a w => a.elim (cut w) fun _ => post () w)
    (.attempt (fun w _ w' => done w w') undone failed stopped) ?_
  rintro (_ | _)
  · exact .refuse fun _ holds => holds
  · exact .pure fun _ holds => holds

theorem leaves_look_of_calm {step : DirStep} {default : α} {see : Option Node → α}
    {post : α → Option Node → Prop} (seen : ∀ w, pre w → post (see w) w)
    : Leaves pre (host.calm.look step default see) post cut := by
  refine leaves_look (fun w holds _ => seen w holds) ?_ ?_
  · intro _ _ fails
    cases fails
  · intro _ _ crashes
    cases crashes

theorem leaves_must_of_calm {step : DirStep} {error : String → Error}
    {does : Option Node → Option (Unit × Option Node)} {left : Option Node → Option Node}
    {post : Unit → Option Node → Prop}
    (done : ∀ w w', pre w → does w = some ((), w') → post () w')
    (undone : ∀ w, pre w → does w = none → cut w)
    : Leaves pre (host.calm.must step error does left) post cut := by
  refine leaves_must (fun w w' holds _ => done w w' holds) (fun w holds _ => undone w holds) ?_ ?_
  · intro _ _ fails
    cases fails
  · intro _ _ crashes
    cases crashes

end

-----------------------------------------------------------------------------------------
-- Whose a directory is
-----------------------------------------------------------------------------------------

/-- The directory carries the owner's stamp for this volume. -/
def Ours (pool volume : String) (owner : Owner) (w : Option Node) : Prop :=
  ∃ s, Node.stamp w = some s ∧ s.isFor pool volume owner = true

/-- There is nothing under the name, or an empty directory. -/
def Free (w : Option Node) : Prop := w = none ∨ Node.isEmptyDir w = true

def emptyDir : Option Node := some (.dir ⟨none, none, 0, []⟩)

theorem eq_emptyDir {w : Option Node} (empty : Node.isEmptyDir w = true) : w = emptyDir := by
  match w with
  | some (.dir ⟨stamp, data, temps, rest⟩) =>
      simp only [Node.isEmptyDir, Dir.isEmpty, Bool.and_eq_true, Option.isNone_iff_eq_none,
        beq_iff_eq, List.isEmpty_iff] at empty
      obtain ⟨⟨⟨rfl, rfl⟩, rfl⟩, rfl⟩ := empty
      rfl

section

variable {host : DirHost} {pool : PoolRef} {name : String} {owner : Owner} {dir : String}
variable {w0 : Option Node}

/-- A directory is claimed by its stamp, or as nobody's; otherwise nothing is done. -/
theorem leaves_claimDir
    : Leaves (· = w0) (claimDir host pool name owner dir)
      (fun adopted w => if adopted then w = w0 ∧ Ours pool.name name owner w0
        else Free w0 ∧ w = emptyDir)
      (· = w0) := by
  refine .bind (fun _ w => w = w0) (leaves_look ?_ ?_ ?_) ?_
  · exact fun w is _ => is
  · exact fun w is _ => is
  · exact fun w is _ => is
  rintro (_ | _)
  · -- It was not seen: it is made, unless it is there after all.
    refine .bind (fun _ w => w = emptyDir ∧ w0 = none) (leaves_must ?_ ?_ ?_ ?_) fun _ => .pure ?_
    · rintro w w' rfl _ made
      cases w with
      | none =>
          cases made
          exact ⟨rfl, rfl⟩
      | some node => cases made
    · exact fun w is _ _ => is
    · exact fun w is _ => is
    · exact fun w is _ => is
    · rintro w ⟨is, rfl⟩
      exact ⟨.inl rfl, is⟩
  · refine .bind (fun stamp w => w = w0 ∧ (stamp = none ∨ stamp = Node.stamp w0))
      (leaves_look ?_ ?_ ?_) ?_
    · rintro w rfl _
      exact ⟨rfl, .inr rfl⟩
    · exact fun w is _ => ⟨is, .inl rfl⟩
    · exact fun w is _ => is
    rintro (_ | s)
    · refine .bind (fun empty w => w = w0 ∧ (empty = true → Node.isEmptyDir w0 = true))
        (leaves_look ?_ ?_ ?_) ?_
      · rintro w ⟨rfl, -⟩ _
        exact ⟨rfl, id⟩
      · exact fun w holds _ => ⟨holds.1, nofun⟩
      · exact fun w holds _ => holds.1
      rintro (_ | _)
      · exact .refuse fun w holds => holds.1
      · refine .pure ?_
        rintro w ⟨rfl, empty⟩
        exact ⟨.inr (empty rfl), eq_emptyDir (empty rfl)⟩
    · dsimp only
      split
      case isTrue own =>
        refine .pure ?_
        rintro w ⟨rfl, stamped⟩
        exact ⟨rfl, s, (stamped.resolve_left nofun).symm, own⟩
      case isFalse => exact .refuse fun w holds => holds.1

/-- The steps of writing the stamp leave no temporary file behind: no crash while it is there, and
when something failed it is removed.
-/
structure Tidy (faults : FaultPlan DirStep) : Prop where
  write : faults .writeTemp ≠ some .crashes
  rename : faults .renameTemp ≠ some .crashes
  drop : faults .writeTemp = some .fails ∨ faults .renameTemp = some .fails →
    faults .dropTemp = none

def tempDir : Option Node := some (.dir ⟨none, none, 1, []⟩)

def stampedDir (stamp : Stamp) : Option Node := some (.dir ⟨some (some stamp), none, 0, []⟩)

/-- What was begun is taken back. -/
theorem leaves_dropTemp {reason : Error} (drops : host.faults .dropTemp = none)
    : Leaves (· = tempDir) (host.tryTo .dropTemp dropTemp id >>= fun _ => Prog.refuse reason)
      (fun (_ : Unit) _ => False) (· = emptyDir) := by
  refine .bind (fun _ w => w = emptyDir) (leaves_tryTo ?_ ?_ ?_ ?_) fun _ => .refuse fun _ is => is
  · rintro w w' rfl _ dropped
    cases dropped
    rfl
  · rintro w rfl _ undone
    cases undone
  · intro w _ fault
    cases drops.symm.trans fault
  · intro w _ fault
    cases drops.symm.trans fault

theorem leaves_writeStamp {stamp : Stamp} (tidy : Tidy host.faults)
    : Leaves (· = emptyDir) (writeStamp host dir stamp) (fun _ w => w = stampedDir stamp)
      (· = emptyDir) := by
  refine .bind (fun made w => w = if made then tempDir else emptyDir) (leaves_tryTo ?_ ?_ ?_ ?_) ?_
  · rintro w w' rfl _ made
    cases made
    rfl
  · rintro w rfl _ undone
    cases undone
  · rintro w rfl _
    rfl
  · exact fun w is _ => is
  rintro (_ | _)
  · exact .refuse fun _ is => is
  refine .bind (fun wrote w => w = tempDir ∧ (wrote = false → host.faults .dropTemp = none))
    (leaves_tryTo ?_ nofun ?_ ?_) ?_
  · rintro w w' rfl _ wrote
    cases wrote
    exact ⟨rfl, nofun⟩
  · rintro w rfl fails
    exact ⟨rfl, fun _ => tidy.drop (.inl fails)⟩
  · exact fun w _ crashes => absurd crashes tidy.write
  rintro (_ | _)
  · intro w holds
    exact (leaves_dropTemp (holds.2 rfl)).weaken (fun _ is => is) nofun (fun _ is => is) w holds.1
  refine .bind (fun renamed w => (renamed = true → w = stampedDir stamp)
      ∧ (renamed = false → w = tempDir ∧ host.faults .dropTemp = none))
    (leaves_tryTo ?_ ?_ ?_ ?_) ?_
  · rintro w w' ⟨rfl, -⟩ _ renamed
    cases renamed
    exact ⟨fun _ => rfl, nofun⟩
  · rintro w ⟨rfl, -⟩ _ undone
    cases undone
  · rintro w ⟨rfl, -⟩ fails
    exact ⟨nofun, fun _ => ⟨rfl, tidy.drop (.inr fails)⟩⟩
  · exact fun w _ crashes => absurd crashes tidy.rename
  rintro (_ | _)
  · intro w holds
    obtain ⟨rfl, drops⟩ := holds.2 rfl
    exact (leaves_dropTemp drops).weaken (fun _ is => is) nofun (fun _ is => is) _ rfl
  · exact .pure fun w holds => holds.1 rfl

end

-----------------------------------------------------------------------------------------
-- Allocating
-----------------------------------------------------------------------------------------

section

variable {host : DirHost} {pool : PoolRef} {req : VolumeRequest} {owner : Owner}
variable {w0 : Option Node}

/-- What an allocation is asked for can be given by this driver. -/
structure Askable (pool : PoolRef) (req : VolumeRequest) : Prop where
  shape : req.shape = .filesystem
  name : safeComponent req.name = true
  path : pool.entry.path.isSome = true

/-- A directory is handed out as taken back by its stamp only, and one that is neither the owner's
nor nobody's is left as it is.
-/
theorem leaves_allocateDir
    : Leaves (· = w0) (allocateDir host pool req owner)
      (fun made _ => if made.adopted then Ours pool.name req.name owner w0 else Free w0)
      (fun w => w = w0 ∨ Ours pool.name req.name owner w0 ∨ Free w0) := by
  rw [allocateDir]
  split
  case isTrue => exact .refuse fun _ is => .inl is
  split
  case isTrue => exact .refuse fun _ is => .inl is
  refine .bind (fun _ w => w = w0) ?_ fun root => ?_
  · rw [rootOf]
    split
    · exact .pure fun _ is => is
    · exact .refuse fun _ is => .inl is
  refine .bind (fun adopted _ => if adopted then Ours pool.name req.name owner w0 else Free w0)
    (leaves_claimDir.weaken (fun _ is => is) ?_ ?_) ?_
  · rintro (_ | _) w claimed
    · exact claimed.1
    · exact claimed.2
  · exact fun w is => .inl is
  intro adopted
  have later {α : Type} (prog : DirProg α)
      : Leaves (fun _ => if adopted then Ours pool.name req.name owner w0 else Free w0) prog
        (fun _ _ => if adopted then Ours pool.name req.name owner w0 else Free w0)
        (fun w => w = w0 ∨ Ours pool.name req.name owner w0 ∨ Free w0) := by
    refine (Leaves.fact prog).weaken (fun _ is => is) (fun _ _ is => is) ?_
    intro w is
    cases adopted with
    | true => exact .inr (.inl is)
    | false => exact .inr (.inr is)
  refine .bind _ (later _) fun _ => .bind _ (later _) fun _ => .pure fun _ is => is

theorem not_free_of_ours {pool volume : String} {owner : Owner} {w : Option Node}
    (ours : Ours pool volume owner w)
    : ¬ Free w := by
  obtain ⟨s, stamped, -⟩ := ours
  rintro (rfl | empty)
  · cases stamped
  · rw [eq_emptyDir empty] at stamped
    cases stamped

/-- What the same owner's allocation can take or finish. -/
def Takeable (pool volume : String) (owner : Owner) (w : Option Node) : Prop :=
  Free w ∨ Ours pool volume owner w ∧ Node.data w ≠ some .other

theorem ours_stampedDir {pool volume : String} {owner : Owner}
    : Ours pool volume owner (stampedDir ⟨pool, volume, owner.id⟩) :=
  ⟨_, rfl, by simp [Stamp.isFor]⟩

theorem leaves_ensureData {volume : String}
    : Leaves (fun w => Ours pool.name volume owner w ∧ Node.data w ≠ some .other)
      (ensureData host) (fun _ _ => True) (Takeable pool.name volume owner) := by
  refine .bind (fun _ w => Ours pool.name volume owner w ∧ Node.data w ≠ some .other)
    (leaves_look ?_ ?_ ?_) ?_
  · exact fun w holds _ => holds
  · exact fun w holds _ => holds
  · exact fun w holds _ => .inr holds
  rintro (_ | _)
  · refine leaves_must ?_ ?_ ?_ ?_
    · exact fun _ _ _ _ _ => trivial
    · exact fun w holds _ _ => .inr holds
    · exact fun w holds _ => .inr holds
    · exact fun w holds _ => .inr holds
  · exact .pure fun _ _ => trivial

/-- An allocation that could be made can be made again, wherever it stopped. -/
theorem takeable_of_stop (tidy : Free w0 → Tidy host.faults)
    (before : Takeable pool.name req.name owner w0)
    : Leaves (· = w0) (allocateDir host pool req owner) (fun _ _ => True)
      (Takeable pool.name req.name owner) := by
  rw [allocateDir]
  split
  case isTrue =>
    refine .refuse ?_
    rintro w rfl
    exact before
  split
  case isTrue =>
    refine .refuse ?_
    rintro w rfl
    exact before
  refine .bind (fun _ w => w = w0) ?_ fun root => ?_
  · rw [rootOf]
    split
    · exact .pure fun _ is => is
    · refine .refuse ?_
      rintro w rfl
      exact before
  refine .bind _ (leaves_claimDir.weaken (fun _ is => is) (fun _ _ claimed => claimed) ?_) ?_
  · rintro w rfl
    exact before
  intro adopted
  refine .bind (fun _ w => Ours pool.name req.name owner w ∧ Node.data w ≠ some .other) ?_ fun _ =>
    .bind (fun _ _ => True) leaves_ensureData fun _ => .pure fun _ _ => trivial
  cases adopted with
  | true =>
      refine .pure ?_
      rintro w ⟨rfl, ours⟩
      exact before.resolve_left (not_free_of_ours ours)
  | false =>
      intro w claimed
      obtain ⟨free, rfl⟩ := claimed
      refine (leaves_writeStamp (tidy free)).weaken (fun _ is => is) ?_ ?_ _ rfl
      · rintro _ w rfl
        exact ⟨ours_stampedDir, nofun⟩
      · rintro w rfl
        exact .inl (.inr rfl)

theorem look_calm {α : Type} (step : DirStep) (default : α) (see : Option Node → α)
    (w : Option Node)
    : host.calm.look step default see w = (.ok (see w), w) :=
  rfl

theorem claimDir_of_free {name dir : String} (free : Free w0)
    : claimDir host.calm pool name owner dir w0 = (.ok false, emptyDir) := by
  rcases free with rfl | empty
  · rfl
  · rw [eq_emptyDir empty]
    rfl

theorem claimDir_of_ours {name dir : String} (ours : Ours pool.name name owner w0)
    : claimDir host.calm pool name owner dir w0 = (.ok true, w0) := by
  obtain ⟨s, stamped, own⟩ := ours
  have there : w0.isSome = true := by
    cases w0 with
    | none => cases stamped
    | some node => rfl
  rw [claimDir, Prog.bind_apply, look_calm]
  simp only [there, ↓reduceIte]
  rw [Prog.bind_apply, look_calm]
  simp only [stamped, own, ↓reduceIte]
  rfl

variable (host owner w0) in
theorem allocateDir_of_askable (askable : Askable pool req)
    : ∃ root, allocateDir host.calm pool req owner w0
      = (claimDir host.calm pool req.name owner (root ++ "/" ++ req.name) >>= fun adopted => do
          (if adopted then pure ()
            else writeStamp host.calm (root ++ "/" ++ req.name) ⟨pool.name, req.name, owner.id⟩)
          ensureData host.calm
          return ⟨pool.name, req.name, .filesystem, root ++ "/" ++ req.name ++ "/_data", adopted⟩)
        w0 := by
  obtain ⟨shape, name, path⟩ := askable
  obtain ⟨root, is⟩ := Option.isSome_iff_exists.mp path
  refine ⟨root, ?_⟩
  simp only [allocateDir, shape, name, rootOf, is, reduceCtorEq, Bool.not_true, Bool.false_eq_true,
    ↓reduceIte]
  rfl

theorem askable_of_ok {host' : DirHost} {made : Allocation} {w : Option Node}
    (ran : allocateDir host' pool req owner w0 = (.ok made, w))
    : Askable pool req := by
  rw [allocateDir] at ran
  split at ran
  case isTrue => cases ran
  case isFalse shape =>
    split at ran
    case isTrue => cases ran
    case isFalse name =>
      cases path : pool.entry.path with
      | none =>
          rw [Prog.bind_apply, rootOf, path] at ran
          cases ran
      | some root =>
          refine ⟨?_, by simpa using name, by rw [path]; rfl⟩
          cases is : req.shape with
          | filesystem => rfl
          | block => exact absurd is shape

/-- When nothing goes wrong, what can be taken is handed out. -/
theorem allocateDir_of_takeable (askable : Askable pool req)
    (takeable : Takeable pool.name req.name owner w0)
    : ∃ made, (allocateDir host.calm pool req owner w0).1 = .ok made := by
  obtain ⟨root, ran⟩ := allocateDir_of_askable host owner w0 askable
  rw [ran, Prog.bind_apply]
  rcases takeable with free | ⟨ours, data⟩
  · rw [claimDir_of_free free]
    exact ⟨_, rfl⟩
  · rw [claimDir_of_ours ours]
    obtain ⟨s, stamped, -⟩ := ours
    match w0 with
    | some (.dir ⟨stamp, content, temps, rest⟩) =>
        rcases content with _ | content | _
        · exact ⟨_, rfl⟩
        · exact ⟨_, rfl⟩
        · exact absurd rfl data

/-- And nothing else is. -/
theorem takeable_of_ok {made : Allocation} {w : Option Node}
    (ran : allocateDir host.calm pool req owner w0 = (.ok made, w))
    : Takeable pool.name req.name owner w0 := by
  have claimed := leaves_allocateDir.of_ok rfl ran
  split at claimed
  case isFalse => exact .inl claimed
  case isTrue =>
    refine .inr ⟨claimed, ?_⟩
    intro other
    obtain ⟨root, is⟩ := allocateDir_of_askable host owner w0 (askable_of_ok ran)
    rw [is, Prog.bind_apply, claimDir_of_ours claimed] at ran
    match w0 with
    | some (.dir ⟨stamp, content, temps, rest⟩) =>
        cases other
        cases ran

theorem allocateDir_calm
    : (∃ made, (allocateDir host.calm pool req owner w0).1 = .ok made)
      ↔ Askable pool req ∧ Takeable pool.name req.name owner w0 := by
  constructor
  · rintro ⟨made, ok⟩
    have ran : allocateDir host.calm pool req owner w0
        = (.ok made, (allocateDir host.calm pool req owner w0).2) := Prod.ext ok rfl
    exact ⟨askable_of_ok ran, takeable_of_ok ran⟩
  · exact fun ⟨askable, takeable⟩ => allocateDir_of_takeable askable takeable

-----------------------------------------------------------------------------------------
-- Releasing
-----------------------------------------------------------------------------------------

/-- The stamp is not removed before the directory can be: the directory's own removal does not go
wrong, and no look at the data fails while there is some.
-/
structure StampLast (host : DirHost) (w : Option Node) : Prop where
  drop : host.faults .dropDir = none
  look : host.faults .lookData = some .fails → Node.data w = none
  again : host.faults .lookDataAgain = some .fails →
    host.faults .clearData = none ∧ Node.data w ≠ some .other

/-- A release leaves alone what is not the owner's. -/
theorem leaves_releaseDir {volume : String}
    : Leaves (· = w0) (releaseDir host pool volume owner)
      (fun _ w => w = w0 ∨ Ours pool.name volume owner w0)
      (fun w => w = w0 ∨ Ours pool.name volume owner w0) := by
  rw [releaseDir]
  split
  case isTrue => exact .refuse fun _ is => .inl is
  refine .bind (fun _ w => w = w0) ?_ fun root => ?_
  · rw [rootOf]
    split
    · exact .pure fun _ is => is
    · exact .refuse fun _ is => .inl is
  refine .bind (fun _ w => w = w0) (leaves_look ?_ ?_ ?_) ?_
  · exact fun _ is _ => is
  · exact fun _ is _ => is
  · exact fun _ is _ => .inl is
  rintro (_ | _)
  · exact .pure fun _ is => .inl is
  refine .bind (fun stamp w => w = w0 ∧ (stamp = none ∨ stamp = Node.stamp w0))
    (leaves_look ?_ ?_ ?_) ?_
  · rintro w rfl _
    exact ⟨rfl, .inr rfl⟩
  · exact fun w is _ => ⟨is, .inl rfl⟩
  · exact fun w is _ => .inl is
  intro stamp
  split
  case isTrue => exact .refuse fun _ holds => .inl holds.1
  case isFalse own =>
    simp only [Bool.not_eq_true', Bool.not_eq_false, Option.any_eq_true] at own
    obtain ⟨s, rfl, own⟩ := own
    refine .assume (fun w holds => (holds.2.resolve_left (Option.some_ne_none s)).symm) fun stamped => ?_
    have ours : Ours pool.name volume owner w0 := ⟨s, stamped, own⟩
    exact (Leaves.fact _).weaken (fun _ _ => ours) (fun _ _ => .inr) (fun _ => .inr)

/-- What the same owner's release can finish. -/
def Releasable (host : DirHost) (pool volume : String) (owner : Owner) (w : Option Node) : Prop :=
  w = none ∨ Ours pool volume owner w ∧ ∃ stamp data, w = some (.dir ⟨stamp, data, 0, []⟩)
    ∧ (data = some .other → host.rmtree = true)

/-- A directory with nothing but a stamp and data. -/
def Plain (host : DirHost) (stamp : Option (Option Stamp)) (data : Option Data)
    (w : Option Node) : Prop :=
  w = some (.dir ⟨stamp, data, 0, []⟩) ∧ (data = some .other → host.rmtree = true)

theorem Plain.leaves {stamp : Option (Option Stamp)} {data : Option Data} {w : Option Node}
    (plain : Plain host stamp data w)
    : ∃ left, Plain host stamp left (host.leaves w) ∧ (data = none → left = none) := by
  obtain ⟨rfl, clears⟩ := plain
  rcases data with _ | content | _
  · exact ⟨none, ⟨rfl, nofun⟩, fun _ => rfl⟩
  · exact ⟨some (.folder (host.remains content)), ⟨rfl, nofun⟩, nofun⟩
  · exact ⟨some .other, ⟨rfl, clears⟩, nofun⟩

/-- What is left of the data when its removal is over; the look that follows sees it. -/
theorem leaves_removeData {stamp : Option (Option Stamp)} {data : Option Data}
    (again : host.faults .lookDataAgain = some .fails →
      host.faults .clearData = none ∧ data ≠ some .other)
    : Leaves (Plain host stamp data) (removeData host)
      (fun _ w => ∃ left, Plain host stamp left w
        ∧ (host.faults .lookDataAgain = some .fails → left = none))
      (fun w => ∃ left, Plain host stamp left w) := by
  refine .bind (fun removed w => ∃ left, Plain host stamp left w
    ∧ (host.faults .lookDataAgain = some .fails → left = none)) (leaves_tryTo ?_ ?_ ?_ ?_) ?_
  · rintro w w' ⟨rfl, -⟩ _ cleared
    rcases data with _ | content | _
    · cases cleared
    · cases cleared
      exact ⟨none, ⟨rfl, nofun⟩, fun _ => rfl⟩
    · cases cleared
  · rintro w plain _ undone
    refine ⟨data, plain, ?_⟩
    intro blind
    obtain ⟨rfl, -⟩ := plain
    rcases data with _ | content | _
    · rfl
    · cases undone
    · exact absurd rfl (again blind).2
  · intro w plain fails
    obtain ⟨left, plain, -⟩ := plain.leaves
    refine ⟨left, plain, ?_⟩
    intro blind
    cases fails.symm.trans (again blind).1
  · exact fun w plain _ => ⟨data, plain⟩
  rintro (_ | _)
  · simp only [Bool.false_eq_true, ↓reduceIte]
    split
    · refine leaves_tryTo ?_ ?_ ?_ ?_
      · rintro w w' ⟨left, ⟨rfl, -⟩, -⟩ _ cleared
        cases cleared
        exact ⟨none, ⟨rfl, nofun⟩, fun _ => rfl⟩
      · rintro w ⟨left, ⟨rfl, -⟩, -⟩ _ undone
        cases undone
      · rintro w ⟨left, plain, gone⟩ _
        obtain ⟨left', plain', none⟩ := plain.leaves
        exact ⟨left', plain', fun blind => none (gone blind)⟩
      · rintro w ⟨left, plain, -⟩ _
        exact ⟨left, plain⟩
    · exact .pure fun _ holds => holds
  · exact .pure fun _ holds => holds

theorem leaves_clearAll {stamp : Option (Option Stamp)} {data : Option Data}
    (last : StampLast host (some (.dir ⟨stamp, data, 0, []⟩)))
    : Leaves (Plain host stamp data) (clearAll host) (fun _ w => Plain host stamp none w)
      (fun w => ∃ left, Plain host stamp left w) := by
  refine .bind (fun there w => Plain host stamp data w ∧ (there = false → data = none))
    (leaves_look ?_ ?_ ?_) ?_
  · rintro w plain _
    refine ⟨plain, ?_⟩
    rw [plain.1]
    rintro absent
    cases data with
    | none => rfl
    | some data => cases absent
  · exact fun w plain fails => ⟨plain, fun _ => last.look fails⟩
  · exact fun w plain _ => ⟨data, plain⟩
  rintro (_ | _)
  · refine .pure ?_
    rintro w ⟨plain, absent⟩
    rw [absent rfl] at plain
    exact plain
  refine .bind _ ((leaves_removeData last.again).weaken (fun _ holds => holds.1)
    (fun _ _ holds => holds) (fun _ holds => holds)) fun _ => ?_
  refine .bind (fun there w => ∃ left, Plain host stamp left w ∧ (there = false → left = none))
    (leaves_look ?_ ?_ ?_) ?_
  · rintro w ⟨left, plain, -⟩ _
    refine ⟨left, plain, ?_⟩
    rw [plain.1]
    rintro absent
    cases left with
    | none => rfl
    | some left => cases absent
  · rintro w ⟨left, plain, gone⟩ fails
    exact ⟨left, plain, fun _ => gone fails⟩
  · rintro w ⟨left, plain, -⟩ _
    exact ⟨left, plain⟩
  rintro (_ | _)
  · refine .pure ?_
    rintro w ⟨left, plain, absent⟩
    rw [absent rfl] at plain
    exact plain
  · refine leaves_must ?_ ?_ ?_ ?_
    · rintro w w' ⟨left, ⟨rfl, -⟩, -⟩ _ cleared
      rcases left with _ | content | _
      · cases cleared
      · cases cleared
        exact ⟨rfl, nofun⟩
      · cases cleared
    · rintro w ⟨left, plain, -⟩ _ _
      exact ⟨left, plain⟩
    · rintro w ⟨left, plain, -⟩ _
      obtain ⟨left', plain', -⟩ := plain.leaves
      exact ⟨left', plain'⟩
    · rintro w ⟨left, plain, -⟩ _
      exact ⟨left, plain⟩

theorem releasable_of_plain {volume : String} {s : Stamp} {data : Option Data} {w : Option Node}
    (own : s.isFor pool.name volume owner = true) (plain : Plain host (some (some s)) data w)
    : Releasable host pool.name volume owner w := by
  obtain ⟨rfl, clears⟩ := plain
  exact .inr ⟨⟨s, rfl, own⟩, _, data, rfl, clears⟩

/-- A release that could be made can be finished, wherever it stopped. -/
theorem releasable_of_stop {volume : String} (last : StampLast host w0)
    (before : Releasable host pool.name volume owner w0)
    : Leaves (· = w0) (releaseDir host pool volume owner) (fun _ _ => True)
      (Releasable host pool.name volume owner) := by
  have still : ∀ w, w = w0 → Releasable host pool.name volume owner w := by
    rintro w rfl
    exact before
  rw [releaseDir]
  split
  case isTrue => exact .refuse still
  refine .bind (fun _ w => w = w0) ?_ fun root => ?_
  · rw [rootOf]
    split
    · exact .pure fun _ is => is
    · exact .refuse still
  refine .bind (fun there w => w = w0 ∧ (there = true → w0 ≠ none)) (leaves_look ?_ ?_ ?_) ?_
  · rintro w rfl _
    refine ⟨rfl, ?_⟩
    rintro there rfl
    cases there
  · exact fun w is _ => ⟨is, nofun⟩
  · exact fun w is _ => still w is
  rintro (_ | _)
  · exact .pure fun _ _ => trivial
  refine .assume (fun w holds => holds.2 rfl) fun there => ?_
  obtain ⟨⟨s, stamped, own⟩, stamp, data, rfl, clears⟩ := before.resolve_left there
  have stamped : stamp = some (some s) := by
    cases stamp with
    | none => cases stamped
    | some stamp => exact congrArg some stamped
  subst stamped
  refine .bind (fun _ w => Plain host (some (some s)) data w) (leaves_look ?_ ?_ ?_) ?_
  · exact fun _ holds _ => ⟨holds.1, clears⟩
  · exact fun _ holds _ => ⟨holds.1, clears⟩
  · exact fun _ holds _ => releasable_of_plain own ⟨holds.1, clears⟩
  intro stamp
  split
  case isTrue => exact .refuse fun _ plain => releasable_of_plain own plain
  refine .bind _ ((leaves_clearAll last).weaken (fun _ plain => plain) (fun _ _ plain => plain) ?_)
    fun _ => ?_
  · rintro w ⟨left, plain⟩
    exact releasable_of_plain own plain
  refine .bind (fun _ w => w = emptyDir) (leaves_must ?_ ?_ ?_ ?_) fun _ => leaves_must ?_ ?_ ?_ ?_
  · rintro w w' ⟨rfl, -⟩ _ dropped
    cases dropped
    rfl
  · exact fun _ plain _ _ => releasable_of_plain own plain
  · exact fun _ plain _ => releasable_of_plain own plain
  · exact fun _ plain _ => releasable_of_plain own plain
  · exact fun _ _ _ _ _ => trivial
  · rintro w rfl _ undone
    cases undone
  · exact fun _ _ fails => nomatch last.drop.symm.trans fails
  · exact fun _ _ crashes => nomatch last.drop.symm.trans crashes

theorem leaves_clearAll_calm {stamp : Option (Option Stamp)} {data : Option Data} {temps : Nat}
    {rest : List String}
    : Leaves (· = some (.dir ⟨stamp, data, temps, rest⟩)) (clearAll host.calm)
      (fun _ w => w = some (.dir ⟨stamp, none, temps, rest⟩)
        ∧ (data = some .other → host.rmtree = true))
      (fun _ => data = some .other ∧ host.rmtree = false) := by
  obtain ⟨faults, remains, why, rmtree⟩ := host
  rintro w rfl
  rcases data with _ | content | _
  · exact ⟨rfl, nofun⟩
  · exact ⟨rfl, nofun⟩
  · cases rmtree with
    | true => exact ⟨rfl, fun _ => rfl⟩
    | false => exact ⟨rfl, rfl⟩

theorem dir_of_stamp {w : Option Node} {s : Stamp} (stamped : Node.stamp w = some s)
    : ∃ data temps rest, w = some (.dir ⟨some (some s), data, temps, rest⟩) := by
  rcases w with _ | ⟨⟨_ | _ | stamp, data, temps, rest⟩⟩ | _
  · cases stamped
  · cases stamped
  · cases stamped
  · obtain rfl := Option.some.inj stamped
    exact ⟨data, temps, rest, rfl⟩
  · cases stamped

/-- When nothing goes wrong, the owner's release is made, and no other. -/
theorem leaves_releaseDir_calm {volume : String}
    : Leaves (· = w0) (releaseDir host.calm pool volume owner)
      (fun _ _ => safeComponent volume = true ∧ pool.entry.path.isSome = true
        ∧ Releasable host pool.name volume owner w0)
      (fun _ => ¬ (safeComponent volume = true ∧ pool.entry.path.isSome = true
        ∧ Releasable host pool.name volume owner w0)) := by
  rw [releaseDir]
  split
  case isTrue unsafe_ =>
    refine .refuse fun _ _ good => ?_
    rw [good.1] at unsafe_
    cases unsafe_
  case isFalse safe =>
    have safe : safeComponent volume = true := by simpa using safe
    cases path : pool.entry.path with
    | none =>
        refine .bind (fun _ _ => False) ?_ fun _ => fun _ impossible => impossible.elim
        rw [rootOf, path]
        exact .refuse fun _ _ good => absurd good.2.1 (by simp)
    | some root =>
        refine .bind (fun _ w => w = w0) ?_ fun root => ?_
        · rw [rootOf, path]
          exact .pure fun _ is => is
        refine .bind (fun there w => w = w0 ∧ there = w0.isSome) (leaves_look_of_calm ?_) ?_
        · rintro w rfl
          exact ⟨rfl, rfl⟩
        rintro (_ | _)
        · refine .pure fun w holds => ⟨safe, rfl, .inl ?_⟩
          simpa using holds.2.symm
        refine .bind (fun stamp w => w = w0 ∧ stamp = Node.stamp w0 ∧ w0.isSome = true)
          (leaves_look_of_calm ?_) ?_
        · rintro w ⟨rfl, there⟩
          exact ⟨rfl, rfl, there.symm⟩
        intro stamp
        split
        case isTrue foreign =>
          refine .refuse fun w holds good => ?_
          obtain ⟨-, rfl, there⟩ := holds
          obtain rfl | ⟨⟨s, stamped, own⟩, -⟩ := good.2.2
          · cases there
          · simp [stamped, own] at foreign
        case isFalse own =>
          simp only [Bool.not_eq_true', Bool.not_eq_false, Option.any_eq_true] at own
          obtain ⟨s, rfl, own⟩ := own
          refine .assume (fun w holds => holds.2.1.symm) fun stamped => ?_
          obtain ⟨data, temps, rest, rfl⟩ := dir_of_stamp stamped
          have ours : Ours pool.name volume owner
              (some (.dir ⟨some (some s), data, temps, rest⟩)) := ⟨s, rfl, own⟩
          refine .bind _ (leaves_clearAll_calm.weaken (fun _ holds => holds.1)
            (fun _ _ holds => holds) ?_) fun _ => ?_
          · rintro w ⟨rfl, bare⟩ ⟨-, -, none | ⟨-, _, _, is, clears⟩⟩
            · cases none
            · cases is
              cases bare.symm.trans (clears rfl)
          refine .assume (fun w holds => holds.2) fun clears => ?_
          refine .bind (fun _ w => w = some (.dir ⟨none, none, temps, rest⟩))
            (leaves_must_of_calm ?_ ?_) fun _ => leaves_must_of_calm ?_ ?_
          · rintro w w' ⟨rfl, -⟩ dropped
            cases dropped
            rfl
          · rintro w ⟨rfl, -⟩ undone
            cases undone
          · rintro w w' rfl dropped
            simp only [dropDir, Dir.isEmpty, Option.isNone_none, Bool.true_and,
              Bool.and_eq_true, beq_iff_eq, List.isEmpty_iff] at dropped
            split at dropped
            case isFalse => cases dropped
            case isTrue empty =>
              obtain ⟨rfl, rfl⟩ := empty
              exact ⟨safe, rfl, .inr ⟨ours, _, data, rfl, clears⟩⟩
          · rintro w rfl undone ⟨-, -, none | ⟨-, _, _, is, -⟩⟩
            · cases none
            · cases is
              cases undone

theorem releaseDir_calm {volume : String}
    : (releaseDir host.calm pool volume owner w0).1 = .ok ()
      ↔ safeComponent volume = true ∧ pool.entry.path.isSome = true
        ∧ Releasable host pool.name volume owner w0 := by
  have made := @leaves_releaseDir_calm host pool owner w0 volume w0 rfl
  split at made
  case h_1 w' ran => simp [ran, made]
  case h_2 stop w' ran => simp [ran, made]

end

end Delonix.Storage
