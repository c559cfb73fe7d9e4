import Delonix.Volumes.Removal
import Mathlib.Data.List.Dedup

/-! What a removal unlinks. The deletion changes no mount, so what it may reach is settled when it
begins: everything of an entry that no mount point stands in the way of, and the record and the
directory after all of those.
-/

namespace Delonix.Volumes

open Delonix.Library.Faults Delonix.Library.FileTree

-----------------------------------------------------------------------------------------
-- Looking and unlinking
-----------------------------------------------------------------------------------------

theorem mem_keys {tree : Tree} {location : Location}
    : location ∈ tree.map Prod.fst ↔ (tree.lookup location).isSome = true := by
  rw [List.lookup_isSome_iff, List.mem_map]
  constructor
  · rintro ⟨entry, member, is⟩
    exact ⟨entry, member, beq_iff_eq.mpr is.symm⟩
  · rintro ⟨entry, member, is⟩
    exact ⟨entry, member, (beq_iff_eq.mp is).symm⟩

namespace World

variable {w : World}

theorem lookup_unlink (w : World) (chosen : Location → Bool) (location : Location)
    : (w.unlink chosen).tree.lookup location
      = if chosen location && !w.busy location then none else w.tree.lookup location :=
  lookup_without w.tree (fun location => chosen location && !w.busy location) location

theorem mem_unlinked {chosen : Location → Bool} {event : Location × List Location}
    : event ∈ (w.unlink chosen).unlinked
      ↔ (w.seen event.1 = true ∧ chosen event.1 = true ∧ w.busy event.1 = false
          ∧ event.2 = w.mounted)
        ∨ event ∈ w.unlinked := by
  obtain ⟨location, mounts⟩ := event
  simp only [unlink, List.mem_append, List.mem_map, List.mem_filter, Bool.and_eq_true,
    Bool.not_eq_true', Prod.mk.injEq, seen, ← mem_keys]
  constructor
  · rintro (⟨_, ⟨there, picked, free⟩, rfl, rfl⟩ | old)
    · exact .inl ⟨there, picked, free, rfl⟩
    · exact .inr old
  · rintro (⟨there, picked, free, rfl⟩ | old)
    · exact .inl ⟨location, ⟨there, picked, free⟩, rfl, rfl⟩
    · exact .inr old

theorem mem_entries {directory : Location} {name : String}
    : name ∈ w.entries directory ↔ w.seen (directory ++ [name]) = true := by
  rw [entries, List.mem_dedup, List.mem_filterMap, seen, ← mem_keys, List.mem_map]
  constructor
  · rintro ⟨entry, member, is⟩
    refine ⟨entry, member, ?_⟩
    split at is
    case isTrue parent =>
      rw [← parent]
      exact (List.dropLast_append_getLast? name is).symm
    case isFalse => cases is
  · rintro ⟨entry, member, is⟩
    refine ⟨entry, member, ?_⟩
    simp [is]

theorem seen_of_lookup {location : Location} {node : Node}
    (found : w.tree.lookup location = some node)
    : w.seen location = true := by
  rw [seen, found]
  rfl

end World

-----------------------------------------------------------------------------------------
-- What the deletion may reach
-----------------------------------------------------------------------------------------

/-- Nothing busy keeps an entry that is data. -/
def Empties (w : World) (directory : Location) : Prop :=
  ∀ entry, entry ≠ "meta.json" → w.seen (directory ++ [entry]) = true →
    w.busy (directory ++ [entry]) = false

/-- From this world a removal of the directory may unlink the location: as part of one of its
entries, or as its record or itself when all of those can go.
-/
inductive Reach (w : World) (directory : Location) : Location → Prop where
  | data {entry : String} {location : Location} (isData : entry ≠ "meta.json")
      (inside : directory ++ [entry] <+: location)
      (whole : location = directory ++ [entry]
        ∨ w.tree.lookup (directory ++ [entry]) = some .dir)
      (seen : w.seen location = true) (free : w.busy location = false)
      : Reach w directory location
  | record (seen : w.seen (directory ++ ["meta.json"]) = true)
      (plain : w.tree.lookup (directory ++ ["meta.json"]) ≠ some .dir)
      (free : w.busy (directory ++ ["meta.json"]) = false) (empties : Empties w directory)
      : Reach w directory (directory ++ ["meta.json"])
  | itself (isDir : w.tree.lookup directory = some .dir)
      (plain : w.tree.lookup (directory ++ ["meta.json"]) ≠ some .dir)
      (free : w.busy directory = false) (empties : Empties w directory)
      : Reach w directory directory

/-- The deletion is under way, and what was gone before stays so. -/
structure Deleting (first : World) (directory : Location) (gone : Location → Prop) (w : World)
    : Prop where
  mounted : w.mounted = first.mounted
  fewer : ∀ location node, w.tree.lookup location = some node →
    first.tree.lookup location = some node
  freed : ∀ location, first.seen location = true → w.seen location = false →
    first.busy location = false
  events : ∀ event ∈ w.unlinked, event.2 = first.mounted ∧ Reach first directory event.1
  kept : first.seen (directory ++ ["meta.json"]) = true →
    w.seen (directory ++ ["meta.json"]) = true
  stays : ∀ location, gone location → w.seen location = false

section

variable {first w : World} {directory : Location} {gone : Location → Prop}

theorem Deleting.busy (deleting : Deleting first directory gone w) (location : Location)
    : w.busy location = first.busy location := by
  rw [World.busy, World.busy, deleting.mounted]

theorem Deleting.seen (deleting : Deleting first directory gone w) {location : Location}
    (there : w.seen location = true)
    : first.seen location = true := by
  obtain ⟨node, found⟩ := Option.isSome_iff_exists.mp there
  exact World.seen_of_lookup (deleting.fewer _ _ found)

theorem Deleting.begin (fresh : w.unlinked = [])
    : Deleting w directory (fun _ => False) w where
  mounted := rfl
  fewer _ _ found := found
  freed location there gone := by
    rw [there] at gone
    cases gone
  events event member := by
    rw [fresh] at member
    cases member
  kept there := there
  stays _ impossible := impossible.elim

/-- What is gone now may be counted with what was. -/
theorem Deleting.now (deleting : Deleting first directory gone w)
    : Deleting first directory (fun location => w.seen location = false) w :=
  { deleting with stays := fun _ unseen => unseen }

theorem Deleting.since {w' : World}
    (later : Deleting first directory (fun location => w.seen location = false) w')
    (deleting : Deleting first directory gone w)
    : Deleting first directory gone w' where
  mounted := later.mounted
  fewer := later.fewer
  freed := later.freed
  events := later.events
  kept := later.kept
  stays location wasGone := later.stays location (deleting.stays location wasGone)

theorem unseen_unlink {w : World} {chosen : Location → Bool} {location : Location}
    (unseen : w.seen location = false)
    : (w.unlink chosen).seen location = false := by
  rw [World.seen, World.lookup_unlink]
  split
  · rfl
  · exact unseen

/-- Unlinking parts of one entry that is data. -/
theorem Deleting.unlink (deleting : Deleting first directory gone w) {entry : String}
    {chosen : Location → Bool} (isData : entry ≠ "meta.json")
    (inside : ∀ location, chosen location = true → directory ++ [entry] <+: location
      ∧ (location = directory ++ [entry] ∨ first.tree.lookup (directory ++ [entry]) = some .dir))
    : Deleting first directory gone (w.unlink chosen) where
  mounted := deleting.mounted
  fewer location node found := by
    rw [World.lookup_unlink] at found
    split at found
    · cases found
    · exact deleting.fewer _ _ found
  freed location there gone := by
    rw [World.seen, World.lookup_unlink] at gone
    split at gone
    case isTrue unlinked =>
      simp only [Bool.and_eq_true, Bool.not_eq_true'] at unlinked
      rw [← deleting.busy]
      exact unlinked.2
    case isFalse => exact deleting.freed _ there gone
  events event member := by
    rcases World.mem_unlinked.mp member with ⟨there, picked, free, mounts⟩ | old
    · obtain ⟨below, whole⟩ := inside _ picked
      refine ⟨mounts.trans deleting.mounted, ?_⟩
      refine .data isData below whole (deleting.seen there) ?_
      rw [← deleting.busy]
      exact free
    · exact deleting.events event old
  kept there := by
    rw [World.seen, World.lookup_unlink, if_neg]
    · exact deleting.kept there
    · intro unlinked
      simp only [Bool.and_eq_true] at unlinked
      have same := (inside _ unlinked.1).1.eq_of_length (by simp)
      exact isData (List.cons.inj (List.append_cancel_left same)).1
  stays location wasGone := unseen_unlink (deleting.stays location wasGone)

-----------------------------------------------------------------------------------------
-- One entry, and all of them
-----------------------------------------------------------------------------------------

/-- A removal leaves what it does, or what it does when it fails. -/
theorem leaves_removing {pre : World → Prop} {post : World → Prop} {host : Host} {step : Step}
    {does : World → Bool × World} {left : World → World} {cut : World → Prop}
    (done : ∀ w, pre w → (does w).1 = true → post (does w).2)
    (undone : ∀ w, pre w → (does w).1 = false → cut (does w).2)
    (failed : ∀ w, pre w → cut (left w)) (crashed : ∀ w, pre w → cut w)
    : Leaves pre (Scene.removing host step does left) (fun _ w => post w) cut := by
  refine Leaves.bind
    (fun result w => if result = some true then post w else cut w) ?_ ?_
  · refine Leaves.attempt ?_ ?_ ?_ ?_
    · intro w result w' holds _ made
      obtain ⟨rfl, rfl⟩ := Prod.mk.inj (Option.some.inj made.symm)
      cases good : (does w).1
      · exact undone w holds good
      · exact done w holds good
    · rintro w _ _ ⟨⟩
    · exact fun w holds _ => failed w holds
    · exact fun w holds _ => crashed w holds
  · rintro (_ | _ | _)
    · exact Leaves.refuse fun _ holds => holds
    · exact Leaves.refuse fun _ holds => holds
    · exact Leaves.pure fun _ holds => holds

theorem part_inside {w : World} {picks : Location → Bool} {top location : Location}
    (chosen : w.part picks top location = true)
    : top <+: location := by
  simp only [World.part, Bool.and_eq_true] at chosen
  exact of_decide_eq_true chosen.1

theorem fileRemoved_done {w : World} {path : Path} (done : (Scene.fileRemoved path w).1 = true)
    : w.busy path = false ∧ w.tree.lookup path ≠ some .dir
      ∧ (Scene.fileRemoved path w).2 = w.unlink (· == path) := by
  rw [Scene.fileRemoved] at done ⊢
  cases found : w.tree.lookup path with
  | none => simp [found] at done
  | some node => cases node <;> cases free : w.busy path <;> simp_all

theorem fileRemoved_undone {w : World} {path : Path}
    (undone : (Scene.fileRemoved path w).1 = false)
    : (Scene.fileRemoved path w).2 = w := by
  rw [Scene.fileRemoved] at undone ⊢
  cases found : w.tree.lookup path with
  | none => rfl
  | some node =>
      cases node <;> cases free : w.busy path <;> simp_all

/-- The injected remover takes any part of a directory. -/
theorem leaves_removeMapped {host : Host} {entry : String} (isData : entry ≠ "meta.json")
    (whole : first.tree.lookup (directory ++ [entry]) = some .dir)
    : Leaves
        (fun w => Deleting first directory gone w
          ∧ (true = true → w.tree.lookup (directory ++ [entry]) = some .dir))
        (Fs.removeMapped (Scene.rmtree host) (directory ++ [entry]))
        (fun _ => Deleting first directory gone) (Deleting first directory gone) := by
  rintro w ⟨deleting, _⟩
  rw [Scene.rmtree]
  cases host.mapped with
  | none => exact deleting
  | some picks =>
      refine deleting.unlink isData fun location chosen => ⟨?_, .inr whole⟩
      exact part_inside chosen

theorem leaves_removeTree {host : Host} {entry : String} (isData : entry ≠ "meta.json")
    (whole : first.tree.lookup (directory ++ [entry]) = some .dir)
    : Leaves
        (fun w => Deleting first directory gone w ∧ w.seen (directory ++ [entry]) = true)
        (Scene.removing host (.removeTree (directory ++ [entry]))
          (Scene.treeRemoved host (directory ++ [entry]))
          fun w => w.unlink (w.part host.picks (directory ++ [entry])))
        (fun _ w => Deleting first directory gone w ∧ w.seen (directory ++ [entry]) = false)
        (Deleting first directory gone) := by
  have partly : ∀ w, Deleting first directory gone w →
      Deleting first directory gone (w.unlink (w.part host.picks (directory ++ [entry]))) :=
    fun w deleting => deleting.unlink isData fun location chosen =>
      ⟨part_inside chosen, .inr whole⟩
  refine leaves_removing ?_ ?_ (fun w holds => partly w holds.1) fun w holds => holds.1
  · rintro w ⟨deleting, _⟩ done
    rw [Scene.treeRemoved] at done ⊢
    cases free : w.busy (directory ++ [entry])
    case true => simp [free] at done
    case false =>
      simp only [Bool.false_eq_true, if_false]
      refine ⟨deleting.unlink isData fun location chosen =>
        ⟨of_decide_eq_true chosen, .inr whole⟩, ?_⟩
      simp [World.seen, World.lookup_unlink, free]
  · rintro w ⟨deleting, _⟩ undone
    rw [Scene.treeRemoved] at undone ⊢
    split at undone
    case isTrue busy => simpa [busy] using partly w deleting
    case isFalse => cases undone

/-- Anything but a directory. -/
theorem leaves_removeFile {host : Host} {entry : String} (isData : entry ≠ "meta.json")
    : Leaves
        (fun w => Deleting first directory gone w
          ∧ (false = true → w.tree.lookup (directory ++ [entry]) = some .dir))
        (Scene.removing host (.removeFile (directory ++ [entry]))
          (Scene.fileRemoved (directory ++ [entry])) id)
        (fun _ w => Deleting first directory gone w ∧ w.seen (directory ++ [entry]) = false)
        (Deleting first directory gone) := by
  refine leaves_removing ?_ ?_ (fun w holds => holds.1) fun w holds => holds.1
  · rintro w ⟨deleting, _⟩ done
    obtain ⟨free, _, is⟩ := fileRemoved_done done
    rw [is]
    refine ⟨deleting.unlink isData fun location chosen => ?_, ?_⟩
    · rw [beq_iff_eq.mp chosen]
      exact ⟨List.prefix_rfl, .inl rfl⟩
    · simp [World.seen, World.lookup_unlink, free]
  · rintro w ⟨deleting, _⟩ undone
    rw [fileRemoved_undone undone]
    exact deleting

/-- An entry that is data goes, or the deletion stops. -/
theorem leaves_removeEntry (scene : Scene) (host : Host) (gone : Location → Prop) {entry : String}
    (isData : entry ≠ "meta.json")
    : Leaves (Deleting first directory gone)
        ((scene.fs host).removeEntry (Scene.rmtree host) (directory ++ [entry]))
        (fun _ w => Deleting first directory gone w ∧ w.seen (directory ++ [entry]) = false)
        (Deleting first directory gone) := by
  refine Leaves.bind (fun isDir w => Deleting first directory gone w
    ∧ (isDir = true → w.tree.lookup (directory ++ [entry]) = some .dir)) ?_ ?_
  · intro w deleting
    exact ⟨deleting, by simp⟩
  · intro isDir
    cases isDir
    case false => exact leaves_removeFile isData
    case true =>
      refine Leaves.assume (fun w holds => holds.1.fewer _ _ (holds.2 rfl)) fun whole => ?_
      refine Leaves.bind (fun _ => Deleting first directory gone) ?_ fun _ => ?_
      · exact leaves_removeMapped isData whole
      · refine Leaves.bind (fun left w => Deleting first directory gone w
          ∧ w.seen (directory ++ [entry]) = left) (fun w deleting => ⟨deleting, rfl⟩) ?_
        intro left
        cases left
        · exact Leaves.pure fun w holds => holds
        · exact leaves_removeTree isData whole

/-- What is still to come of the entries that are there. -/
def Ahead (directory : Location) (rest : List (Option String)) (w : World) : Prop :=
  none ∈ rest ∨ ∀ entry, w.seen (directory ++ [entry]) = true →
    entry = "meta.json" ∨ some entry ∈ rest

/-- When all entries were gone through only the record is left, by induction over them. -/
theorem leaves_removeEntries (scene : Scene) (host : Host) (rest : List (Option String))
    : Leaves (fun w => Deleting first directory gone w ∧ Ahead directory rest w)
        ((scene.fs host).removeEntries (Scene.rmtree host) directory rest)
        (fun _ w => Deleting first directory gone w
          ∧ ∀ entry, w.seen (directory ++ [entry]) = true → entry = "meta.json")
        (Deleting first directory gone) := by
  induction rest with
  | nil =>
      refine Leaves.pure fun w holds => ⟨holds.1, ?_⟩
      intro entry there
      simpa [Ahead] using holds.2.resolve_left (by simp) entry there
  | cons head rest ih =>
      cases head with
      | none => exact Leaves.refuse fun w holds => holds.1
      | some entry =>
          refine Leaves.bind (fun _ w => Deleting first directory gone w ∧ Ahead directory rest w)
            ?_ fun _ => ih
          split
          case isTrue isMeta =>
            refine Leaves.pure fun w holds => ⟨holds.1, ?_⟩
            refine holds.2.imp (by simp) fun all other there => ?_
            rcases all other there with isMeta' | listed
            · exact .inl isMeta'
            · rcases List.mem_cons.mp listed with same | later
              · exact .inl ((Option.some.inj same).trans isMeta)
              · exact .inr later
          case isFalse isData =>
            rintro w ⟨deleting, ahead⟩
            have made := leaves_removeEntry scene host _ isData w deleting.now
            cases ran : (scene.fs host).removeEntry (Scene.rmtree host) (directory ++ [entry]) w with
            | mk result w' =>
                rw [ran] at made
                cases result with
                | error stop => exact made.since deleting
                | ok done =>
                    obtain ⟨after, removed⟩ := made
                    refine ⟨after.since deleting, ?_⟩
                    refine ahead.imp (by simp) fun all other there => ?_
                    have before : w.seen (directory ++ [other]) = true := by
                      by_contra unseen
                      rw [after.stays _ (by simpa using unseen)] at there
                      cases there
                    refine (all other before).imp_right fun listed => ?_
                    rcases List.mem_cons.mp listed with same | later
                    · rw [Option.some.inj same, removed] at there
                      cases there
                    · exact later

-----------------------------------------------------------------------------------------
-- The record and the directory
-----------------------------------------------------------------------------------------

/-- Only what can be reached was unlinked. -/
def Reached (first : World) (directory : Location) (w : World) : Prop :=
  ∀ event ∈ w.unlinked, event.2 = first.mounted ∧ Reach first directory event.1

/-- Where a removal may stop. -/
structure Stopped (first : World) (directory : Location) (w : World) : Prop where
  events : Reached first directory w
  recorded : w.seen (directory ++ ["meta.json"]) = true ∨ w.entries directory = []

/-- All entries are gone, the record last. -/
structure Emptied (first : World) (directory : Location) (w : World) : Prop where
  mounted : w.mounted = first.mounted
  fewer : ∀ location node, w.tree.lookup location = some node →
    first.tree.lookup location = some node
  events : Reached first directory w
  empties : Empties first directory
  plain : first.tree.lookup (directory ++ ["meta.json"]) ≠ some .dir
  empty : w.entries directory = []

/-- A directory that had its record, or nothing at all, when the deletion began. -/
def Begun (first : World) (directory : Location) : Prop :=
  first.seen (directory ++ ["meta.json"]) = true ∨ first.entries directory = []

theorem Deleting.stopped (deleting : Deleting first directory gone w)
    (begun : Begun first directory)
    : Stopped first directory w := by
  refine ⟨deleting.events, begun.imp deleting.kept fun none => ?_⟩
  rw [List.eq_nil_iff_forall_not_mem] at none ⊢
  intro entry member
  exact none entry (World.mem_entries.mpr (deleting.seen (World.mem_entries.mp member)))

theorem Emptied.stopped (emptied : Emptied first directory w) : Stopped first directory w :=
  ⟨emptied.events, .inr emptied.empty⟩

/-- Only the record is left. -/
structure Cleared (first : World) (directory : Location) (w : World) : Prop where
  deleting : Deleting first directory (fun _ => False) w
  only : ∀ entry, w.seen (directory ++ [entry]) = true → entry = "meta.json"

theorem Cleared.empties (cleared : Cleared first directory w) : Empties first directory := by
  intro entry isData there
  refine cleared.deleting.freed _ there ?_
  by_contra still
  exact isData (cleared.only entry (by simpa using still))

theorem reached_unlink (reached : Reached first directory w) {path : Location}
    (mounts : w.mounted = first.mounted)
    (reach : w.seen path = true → w.busy path = false → Reach first directory path)
    : Reached first directory (w.unlink (· == path)) := by
  intro event member
  rcases World.mem_unlinked.mp member with ⟨there, picked, free, mounts'⟩ | old
  · rw [beq_iff_eq.mp picked] at there free ⊢
    exact ⟨mounts'.trans mounts, reach there free⟩
  · exact reached event old

theorem seen_of_unlink {chosen : Location → Bool} {location : Location}
    (there : (w.unlink chosen).seen location = true)
    : w.seen location = true := by
  by_contra unseen
  rw [unseen_unlink (by simpa using unseen)] at there
  cases there

theorem Cleared.emptied (cleared : Cleared first directory w)
    (missing : w.seen (directory ++ ["meta.json"]) = false)
    : Emptied first directory w where
  mounted := cleared.deleting.mounted
  fewer := cleared.deleting.fewer
  events := cleared.deleting.events
  empties := cleared.empties
  plain isDir := by
    rw [cleared.deleting.kept (World.seen_of_lookup isDir)] at missing
    cases missing
  empty := by
    rw [List.eq_nil_iff_forall_not_mem]
    intro entry member
    have there := World.mem_entries.mp member
    rw [cleared.only entry there, missing] at there
    cases there

theorem Cleared.unlinked (cleared : Cleared first directory w)
    (there : w.seen (directory ++ ["meta.json"]) = true)
    (free : w.busy (directory ++ ["meta.json"]) = false)
    (plain : w.tree.lookup (directory ++ ["meta.json"]) ≠ some .dir)
    : Emptied first directory (w.unlink (· == directory ++ ["meta.json"])) := by
  have deleting := cleared.deleting
  obtain ⟨node, found⟩ := Option.isSome_iff_exists.mp there
  have plain' : first.tree.lookup (directory ++ ["meta.json"]) ≠ some .dir := by
    rw [deleting.fewer _ _ found, ← found]
    exact plain
  refine
    { mounted := deleting.mounted
      fewer := ?_
      events := reached_unlink deleting.events deleting.mounted ?_
      empties := cleared.empties
      plain := plain'
      empty := ?_ }
  · intro location node kept
    rw [World.lookup_unlink] at kept
    split at kept
    · cases kept
    · exact deleting.fewer _ _ kept
  · intro _ _
    rw [deleting.busy] at free
    exact .record (deleting.seen there) plain' free cleared.empties
  · rw [List.eq_nil_iff_forall_not_mem]
    intro entry member
    have after := World.mem_entries.mp member
    rw [cleared.only entry (seen_of_unlink after)] at after
    simp [World.seen, World.lookup_unlink, free] at after

theorem leaves_removeMeta (scene : Scene) (host : Host) (begun : Begun first directory)
    : Leaves (Cleared first directory)
        ((scene.fs host).removeMeta (directory ++ ["meta.json"]))
        (fun _ => Emptied first directory) (Stopped first directory) := by
  refine Leaves.bind (fun left w => Cleared first directory w
    ∧ w.seen (directory ++ ["meta.json"]) = left) (fun w cleared => ⟨cleared, rfl⟩) ?_
  intro left
  cases left
  case false => exact Leaves.pure fun w ⟨cleared, missing⟩ => cleared.emptied missing
  case true =>
    refine leaves_removing ?_ ?_ (fun w holds => holds.1.deleting.stopped begun)
      fun w holds => holds.1.deleting.stopped begun
    · rintro w ⟨cleared, there⟩ done
      obtain ⟨free, plain, is⟩ := fileRemoved_done done
      rw [is]
      exact cleared.unlinked there free plain
    · rintro w ⟨cleared, _⟩ undone
      rw [fileRemoved_undone undone]
      exact cleared.deleting.stopped begun

theorem leaves_removeDir (scene : Scene) (host : Host)
    : Leaves (Emptied first directory) ((scene.fs host).removeDir directory)
        (fun _ => Reached first directory) (Stopped first directory) := by
  refine leaves_removing ?_ ?_ (fun w emptied => emptied.stopped) fun w emptied => emptied.stopped
  · intro w emptied done
    rw [Scene.dirRemoved] at done ⊢
    split at done
    case isFalse => cases done
    case isTrue can =>
      rw [if_pos can]
      refine reached_unlink emptied.events emptied.mounted ?_
      intro _ free
      rw [World.busy, emptied.mounted] at free
      exact .itself (emptied.fewer _ _ can.1) emptied.plain free emptied.empties
  · intro w emptied undone
    rw [Scene.dirRemoved] at undone ⊢
    split at undone
    case isTrue => cases undone
    case isFalse cannot =>
      rw [if_neg cannot]
      exact emptied.stopped

end

-----------------------------------------------------------------------------------------
-- A whole removal
-----------------------------------------------------------------------------------------

namespace Scene

variable (scene : Scene)

/-- What follows the unmounting. -/
def deletion (host : Host) : WorldProg Unit := do
  let entries ← (scene.fs host).listing scene.volumeDir
  (scene.fs host).removeEntries (rmtree host) scene.volumeDir entries
  (scene.fs host).removeMeta scene.record
  (scene.fs host).removeDir scene.volumeDir

theorem removeWith_eq (host : Host)
    : scene.removeWith host = scene.deletion host scene.found := by
  have stands : (scene.fs host).stands (dir scene.store scene.name) scene.start
      = (.ok true, scene.start) := by
    simp [fs, World.seen, start, scene.standing]
  rw [removeWith, Fs.removeWith, Prog.bind_apply, stands]
  simp only [if_true]
  rw [Prog.bind_apply, unmount_found]
  rfl

theorem ahead_listed {host : Host} {directory : Location} {names : List String} {w : World}
    (all : ∀ entry, w.seen (directory ++ [entry]) = true → entry ∈ names)
    : Ahead directory (listed host names) w := by
  rw [listed]
  cases host.breaks with
  | some count => exact .inl (by simp)
  | none =>
      refine .inr fun entry there => .inr ?_
      exact List.mem_map_of_mem ((host.perm names).mem_iff.mpr (all entry there))

theorem leaves_listing (host : Host) {first : World} {directory : Location}
    (begun : Begun first directory) (fresh : first.unlinked = [])
    : Leaves (fun w => w = first) ((scene.fs host).listing directory)
        (fun entries w => Deleting first directory (fun _ => False) w
          ∧ Ahead directory entries w)
        (Stopped first directory) := by
  have stops : ∀ w, w = first → Stopped first directory w := by
    rintro w rfl
    exact (Deleting.begin fresh).stopped begun
  refine Leaves.bind
    (fun names w => w = first ∧ ∀ all, names = some all → all = first.entries directory) ?_ ?_
  · refine Leaves.attempt ?_ ?_ ?_ ?_
    · rintro w _ _ rfl _ ⟨⟩
      exact ⟨rfl, fun all is => (Option.some.inj is).symm⟩
    · rintro _ _ _ ⟨⟩
    · rintro w rfl _
      exact ⟨rfl, nofun⟩
    · exact fun w is _ => stops w is
  · rintro (_ | names)
    · exact Leaves.refuse fun w holds => stops w holds.1
    · refine Leaves.pure ?_
      rintro w ⟨rfl, all⟩
      refine ⟨Deleting.begin fresh, ahead_listed ?_⟩
      intro entry there
      rw [all names rfl]
      exact World.mem_entries.mpr there

theorem leaves_deletion (host : Host) (begun : Begun scene.found scene.volumeDir)
    (fresh : scene.found.unlinked = [])
    : Leaves (fun w => w = scene.found) (scene.deletion host)
        (fun _ => Reached scene.found scene.volumeDir)
        (Stopped scene.found scene.volumeDir) := by
  refine Leaves.bind _ (scene.leaves_listing host begun fresh) fun entries => ?_
  refine Leaves.bind (fun _ => Cleared scene.found scene.volumeDir) ?_ fun _ => ?_
  · refine (leaves_removeEntries scene host entries).weaken (fun _ holds => holds)
      (fun _ w holds => ⟨holds.1, holds.2⟩) fun w deleting => deleting.stopped begun
  · refine Leaves.bind _ (leaves_removeMeta scene host begun) fun _ => ?_
    exact leaves_removeDir scene host

/-- What the deletion finds is safe to delete: nothing that can be reached below the mountpoint
while something is mounted there, and the record, or nothing, in the directory.
-/
structure Clean : Prop where
  unmounted : scene.mountpoint ∈ scene.found.mounted →
    ∀ location, Reach scene.found scene.volumeDir location →
      ¬ Below scene.mountpoint location
  recorded : Begun scene.found scene.volumeDir

theorem found_fresh : scene.found.unlinked = [] := by
  rw [found]
  split <;> rfl

theorem ownData_of_clean (clean : scene.Clean) (host : Host) : scene.OwnData host := by
  have made := scene.leaves_deletion host clean.recorded scene.found_fresh scene.found rfl
  have events : Reached scene.found scene.volumeDir (scene.removeWith host).2 := by
    rw [removeWith_eq]
    split at made
    case h_1 done w ran => rwa [ran]
    case h_2 stop w ran =>
      rw [ran]
      exact made.events
  refine ⟨?_, ?_⟩
  · intro event member below mounted
    obtain ⟨mounts, reach⟩ := events event member
    rw [mounts] at mounted
    exact clean.unmounted mounted _ reach below
  · intro stop stopped
    rw [removeWith_eq] at stopped ⊢
    cases ran : scene.deletion host scene.found with
    | mk result w =>
        rw [ran] at made stopped
        cases result with
        | ok => cases stopped
        | error => exact made.recorded

end Scene

end Delonix.Volumes
