import Delonix.Volumes.OwnData

/-! When a removal keeps to the volume's own data. The failure of `umount` is passed over, and a
mount that the record does not speak of is not looked for: whatever can be reached through it is
deleted by some run.
-/

namespace Delonix.Volumes

open Delonix.Library.Faults Delonix.Library.FileTree

namespace Scene

variable (scene : Scene)

/-- A listing that fails at once. -/
def failingHost : Host where
  faults step := if step = .list then some .fails else none
  order := id
  perm _ := .refl _
  breaks := none
  picks _ := true
  mapped := none

/-- Nothing fails, and the given entry comes first. -/
def calmHost (entry : String) : Host where
  faults := noFaults
  order names := names.filter (· == entry) ++ names.filter (· != entry)
  perm names := List.filter_append_perm _ names
  breaks := none
  picks _ := true
  mapped := none

theorem begun_of_ownData (own : scene.OwnData failingHost)
    : Begun scene.found scene.volumeDir := by
  have ran : scene.removeWith failingHost
      = (.error (.refused (.engine "read_dir")), scene.found) := by
    rw [removeWith_eq]
    rfl
  have kept := own.recorded _ (by rw [ran])
  rw [ran] at kept
  exact kept

section

variable {scene} {event : Location × List Location}

/-- What was unlinked stays recorded. -/
abbrev Unlinked (event : Location × List Location) (w : World) : Prop := event ∈ w.unlinked

theorem unlinked_unlink {w : World} (old : Unlinked event w) (chosen : Location → Bool)
    : Unlinked event (w.unlink chosen) :=
  World.mem_unlinked.mpr (.inr old)

theorem keeps_removing {host : Host} {step : Step} {does : World → Bool × World}
    {left : World → World} (done : ∀ w, Unlinked event w → Unlinked event (does w).2)
    (failed : ∀ w, Unlinked event w → Unlinked event (left w))
    : Leaves (Unlinked event) (removing host step does left) (fun _ => Unlinked event)
        (Unlinked event) :=
  leaves_removing (fun w old _ => done w old) (fun w old _ => done w old) failed fun _ old => old

theorem keeps_removeFile (host : Host) (path : Path)
    : Leaves (Unlinked event) ((scene.fs host).removeFile path) (fun _ => Unlinked event)
        (Unlinked event) := by
  refine keeps_removing ?_ fun _ old => old
  intro w old
  rw [fileRemoved]
  split
  · exact old
  · exact old
  · split
    · exact old
    · exact unlinked_unlink old _

theorem keeps_removeTree (host : Host) (path : Path)
    : Leaves (Unlinked event) ((scene.fs host).removeTree path) (fun _ => Unlinked event)
        (Unlinked event) := by
  refine keeps_removing ?_ fun _ old => unlinked_unlink old _
  intro w old
  rw [treeRemoved]
  split <;> exact unlinked_unlink old _

theorem keeps_removeDir (host : Host) (path : Path)
    : Leaves (Unlinked event) ((scene.fs host).removeDir path) (fun _ => Unlinked event)
        (Unlinked event) := by
  refine keeps_removing ?_ fun _ old => old
  intro w old
  rw [dirRemoved]
  split
  · exact unlinked_unlink old _
  · exact old

theorem keeps_removeEntry (host : Host) (path : Path)
    : Leaves (Unlinked event) ((scene.fs host).removeEntry (rmtree host) path)
        (fun _ => Unlinked event) (Unlinked event) := by
  refine Leaves.bind (fun _ => Unlinked event) (fun w old => old) fun isDir => ?_
  cases isDir
  case false => exact keeps_removeFile host path
  case true =>
    refine Leaves.bind (fun _ => Unlinked event) ?_ fun _ => ?_
    · intro w old
      rw [rmtree]
      cases host.mapped with
      | none => exact old
      | some picks => exact unlinked_unlink old _
    · refine Leaves.bind (fun _ => Unlinked event) (fun w old => old) fun left => ?_
      cases left
      · exact Leaves.pure fun _ old => old
      · exact keeps_removeTree host path

theorem keeps_removeEntries (host : Host) (directory : Path) (rest : List (Option String))
    : Leaves (Unlinked event) ((scene.fs host).removeEntries (rmtree host) directory rest)
        (fun _ => Unlinked event) (Unlinked event) := by
  induction rest with
  | nil => exact Leaves.pure fun _ old => old
  | cons head rest ih =>
      cases head with
      | none => exact Leaves.refuse fun _ old => old
      | some entry =>
          refine Leaves.bind (fun _ => Unlinked event) ?_ fun _ => ih
          split
          · exact Leaves.pure fun _ old => old
          · exact keeps_removeEntry host _

theorem keeps_removeMeta (host : Host) (path : Path)
    : Leaves (Unlinked event) ((scene.fs host).removeMeta path) (fun _ => Unlinked event)
        (Unlinked event) := by
  refine Leaves.bind (fun _ => Unlinked event) (fun w old => old) fun left => ?_
  cases left
  · exact Leaves.pure fun _ old => old
  · exact keeps_removeFile host path

theorem calm_removing (other : String) {pre post : World → Prop} {step : Step}
    {does : World → Bool × World} {left : World → World}
    (all : ∀ w, pre w → post (does w).2)
    : Leaves pre (removing (calmHost other) step does left) (fun _ => post) post := by
  refine Leaves.bind (fun _ => post) ?_ ?_
  · refine Leaves.attempt ?_ (by rintro w _ _ ⟨⟩) (by rintro w _ ⟨⟩) (by rintro w _ ⟨⟩)
    intro w result w' holds _ made
    obtain ⟨rfl, rfl⟩ := Prod.mk.inj (Option.some.inj made.symm)
    exact all w holds
  · rintro (_ | _ | _)
    · exact Leaves.refuse fun _ holds => holds
    · exact Leaves.refuse fun _ holds => holds
    · exact Leaves.pure fun _ holds => holds

/-- Nothing busy lies below what is not. -/
theorem World.busy_above {w : World} {top location : Location} (inside : top <+: location)
    (free : w.busy top = false)
    : w.busy location = false := by
  simp only [World.busy, List.any_eq_false, decide_eq_true_eq] at free ⊢
  exact fun point member below => free point member (inside.trans below)

theorem unlinked_now {w : World} {chosen : Location → Bool} {location : Location}
    (seen : w.seen location = true) (picked : chosen location = true)
    (free : w.busy location = false)
    : Unlinked (location, w.mounted) (w.unlink chosen) :=
  World.mem_unlinked.mpr (.inl ⟨seen, picked, free, rfl⟩)

/-- The calm host removes an entry with all of it that nothing keeps. -/
theorem calm_removeEntry {first : World} {directory location : Location} {entry : String}
    (other : String) (inside : directory ++ [entry] <+: location)
    (whole : location = directory ++ [entry]
      ∨ first.tree.lookup (directory ++ [entry]) = some .dir)
    (seen : first.seen location = true) (free : first.busy location = false)
    : Leaves (fun w => w = first)
        ((scene.fs (calmHost other)).removeEntry (rmtree (calmHost other)) (directory ++ [entry]))
        (fun _ => Unlinked (location, first.mounted)) (Unlinked (location, first.mounted)) := by
  refine Leaves.bind (fun isDir w => w = first
    ∧ isDir = (first.tree.lookup (directory ++ [entry]) == some .dir)) ?_ ?_
  · rintro w rfl
    exact ⟨rfl, rfl⟩
  · intro isDir
    cases isDir
    case false =>
      refine calm_removing other ?_
      rintro w ⟨rfl, notDir⟩
      have notDir : w.tree.lookup (directory ++ [entry]) ≠ some .dir := by
        simpa using notDir.symm
      obtain rfl := whole.resolve_right notDir
      obtain ⟨node, found⟩ := Option.isSome_iff_exists.mp seen
      have removed : fileRemoved (directory ++ [entry]) w
          = (true, w.unlink (· == directory ++ [entry])) := by
        rw [fileRemoved, found]
        cases node <;> simp_all
      rw [removed]
      exact unlinked_now seen (by simp) free
    case true =>
      refine Leaves.assume (fun w holds => (beq_iff_eq.mp holds.2.symm)) fun isDir => ?_
      refine Leaves.bind (fun _ w => w = first) (fun w holds => holds.1) fun _ => ?_
      refine Leaves.bind
        (fun left w => w = first ∧ left = first.seen (directory ++ [entry])) ?_ ?_
      · rintro w rfl
        exact ⟨rfl, rfl⟩
      · intro left
        cases left
        case false =>
          refine Leaves.pure fun w holds => ?_
          rw [World.seen_of_lookup isDir] at holds
          cases holds.2
        case true =>
          refine calm_removing other ?_
          rintro w ⟨rfl, _⟩
          rw [treeRemoved]
          split
          · refine unlinked_now seen ?_ free
            simp [World.part, calmHost, inside]
          · exact unlinked_now seen (by simpa using inside) free

theorem calm_listing (other : String) {first : World} (directory : Path) {cut : World → Prop}
    : Leaves (fun w => w = first) ((scene.fs (calmHost other)).listing directory)
        (fun names w => w = first
          ∧ names = ((calmHost other).order (first.entries directory)).map some)
        cut := by
  refine Leaves.bind (fun names w => w = first ∧ names = some (first.entries directory)) ?_ ?_
  · refine Leaves.attempt ?_ (by rintro w _ _ ⟨⟩) (by rintro w _ ⟨⟩) (by rintro w _ ⟨⟩)
    rintro w names w' rfl _ made
    obtain ⟨rfl, rfl⟩ := Prod.mk.inj (Option.some.inj made)
    exact ⟨rfl, rfl⟩
  · rintro (_ | names)
    · exact Leaves.refuse fun w holds => by cases holds.2
    · refine Leaves.pure ?_
      rintro w ⟨rfl, is⟩
      rw [Option.some.inj is]
      exact ⟨rfl, rfl⟩

theorem calm_order {entry : String} {names : List String} (member : entry ∈ names)
    : ∃ rest, ((calmHost entry).order names).map some = some entry :: rest := by
  have kept : entry ∈ names.filter (· == entry) :=
    List.mem_filter.mpr ⟨member, beq_self_eq_true entry⟩
  obtain ⟨head, tail, is⟩ := List.exists_cons_of_ne_nil (List.ne_nil_of_mem kept)
  have isEntry : head = entry := by
    have first : head ∈ names.filter (· == entry) := by
      rw [is]
      exact List.mem_cons_self
    exact beq_iff_eq.mp (List.mem_filter.mp first).2
  refine ⟨(tail ++ names.filter (· != entry)).map some, ?_⟩
  simp only [calmHost, is, isEntry, List.cons_append, List.map_cons]

/-- The rest of a deletion forgets nothing. -/
theorem keeps_end (host : Host)
    : Leaves (Unlinked event)
        (do
          (scene.fs host).removeMeta scene.record
          (scene.fs host).removeDir scene.volumeDir)
        (fun _ => Unlinked event) (Unlinked event) :=
  Leaves.bind _ (keeps_removeMeta host _) fun _ => keeps_removeDir host _

theorem unlinked_of_leaves {prog : WorldProg Unit} {w : World}
    (leaves : Leaves (fun w' => w' = w) prog (fun _ => Unlinked event) (Unlinked event))
    : Unlinked event (prog w).2 := by
  have made := leaves w rfl
  split at made
  · next ran =>
      rw [ran]
      exact made
  · next ran =>
      rw [ran]
      exact made

theorem deletes_data {location : Location} {entry : String} (isData : entry ≠ "meta.json")
    (inside : scene.volumeDir ++ [entry] <+: location)
    (whole : location = scene.volumeDir ++ [entry]
      ∨ scene.found.tree.lookup (scene.volumeDir ++ [entry]) = some .dir)
    (seen : scene.found.seen location = true) (free : scene.found.busy location = false)
    : Unlinked (location, scene.found.mounted) (scene.removeWith (calmHost entry)).2 := by
  have there : scene.found.seen (scene.volumeDir ++ [entry]) = true := by
    rcases whole with rfl | isDir
    · exact seen
    · exact World.seen_of_lookup isDir
  obtain ⟨rest, order⟩ := calm_order (World.mem_entries.mpr there)
  rw [removeWith_eq]
  refine unlinked_of_leaves ?_
  refine Leaves.bind _ (calm_listing entry scene.volumeDir) fun names => ?_
  refine Leaves.assume (fun w holds => holds.2.trans order) ?_
  rintro rfl
  refine Leaves.bind (fun _ => Unlinked (location, scene.found.mounted)) ?_
    fun _ => keeps_end (calmHost entry)
  refine Leaves.bind (fun _ => Unlinked (location, scene.found.mounted)) ?_
    fun _ => keeps_removeEntries _ _ _
  rw [if_neg isData]
  exact (calm_removeEntry entry inside whole seen free).weaken (fun w holds => holds.1)
    (fun _ _ made => made) fun _ made => made

/-- With nothing but the record in the directory, a calm run comes to its end. -/
theorem calm_removeEntries (other : String) {first : World} {directory : Path} {cut : World → Prop}
    {rest : List (Option String)} (only : ∀ name ∈ rest, name = some "meta.json")
    : Leaves (fun w => w = first)
        ((scene.fs (calmHost other)).removeEntries (rmtree (calmHost other)) directory rest)
        (fun _ w => w = first) cut := by
  induction rest with
  | nil => exact Leaves.pure fun _ is => is
  | cons head rest ih =>
      obtain rfl := only head List.mem_cons_self
      refine Leaves.bind (fun _ w => w = first) (Leaves.pure fun _ is => is) fun _ => ?_
      exact ih fun name member => only name (List.mem_cons_of_mem _ member)

/-- On a calm host a removal that can be done is done. -/
theorem calm_removed (other : String) {pre post cut : World → Prop} {step : Step}
    {does : World → Bool × World} {left : World → World}
    (all : ∀ w, pre w → (does w).1 = true ∧ post (does w).2)
    : Leaves pre (removing (calmHost other) step does left) (fun _ => post) cut := by
  refine Leaves.bind (fun result w => result = some true ∧ post w) ?_ ?_
  · refine Leaves.attempt ?_ (by rintro w _ _ ⟨⟩) (by rintro w _ ⟨⟩) (by rintro w _ ⟨⟩)
    intro w result w' holds _ made
    obtain ⟨rfl, rfl⟩ := Prod.mk.inj (Option.some.inj made.symm)
    obtain ⟨done, after⟩ := all w holds
    exact ⟨congrArg some done, after⟩
  · rintro (_ | _ | _)
    · exact Leaves.refuse fun _ holds => by cases holds.1
    · exact Leaves.refuse fun _ holds => by cases holds.1
    · exact Leaves.pure fun _ holds => holds.2

theorem unlink_nothing {w : World} {path : Location} (missing : w.seen path = false)
    : w.unlink (· == path) = w := by
  have absent : path ∉ w.tree.map Prod.fst := by
    rw [mem_keys, ← World.seen, missing]
    exact Bool.false_ne_true
  have other : ∀ entry ∈ w.tree, entry.1 ≠ path := by
    rintro entry member rfl
    exact absent (List.mem_map_of_mem member)
  have kept : w.tree.filter (fun entry => !(entry.1 == path && !w.busy entry.1)) = w.tree :=
    List.filter_eq_self.mpr fun entry member => by simp [other entry member]
  have none : (w.tree.map Prod.fst).filter (fun location => location == path && !w.busy location)
      = [] := by
    rw [List.filter_eq_nil_iff]
    intro location member
    obtain ⟨entry, inTree, rfl⟩ := List.mem_map.mp member
    simp [other entry inTree]
  rw [World.unlink, Tree.without, kept, none]
  rfl

/-- The record goes where it is, and no more than the record. -/
theorem calm_removeMeta (other : String) {first : World} {path : Path} {cut : World → Prop}
    (plain : first.tree.lookup path ≠ some .dir) (free : first.busy path = false)
    : Leaves (fun w => w = first) ((scene.fs (calmHost other)).removeMeta path)
        (fun _ w => w = first.unlink (· == path)) cut := by
  refine Leaves.bind (fun left w => w = first ∧ left = first.seen path) ?_ ?_
  · rintro w rfl
    exact ⟨rfl, rfl⟩
  · intro left
    cases left
    case false =>
      refine Leaves.pure ?_
      rintro w ⟨rfl, missing⟩
      exact (unlink_nothing missing.symm).symm
    case true =>
      refine calm_removed other ?_
      rintro w ⟨rfl, there⟩
      obtain ⟨node, found⟩ := Option.isSome_iff_exists.mp there.symm
      have removed : fileRemoved path w = (true, w.unlink (· == path)) := by
        rw [fileRemoved, found]
        cases node <;> simp_all
      rw [removed]
      exact ⟨rfl, rfl⟩

theorem entries_unlink_record {w : World} {directory : Location}
    (free : w.busy (directory ++ ["meta.json"]) = false)
    (only : ∀ entry, w.seen (directory ++ [entry]) = true → entry = "meta.json")
    : (w.unlink (· == directory ++ ["meta.json"])).entries directory = [] := by
  rw [List.eq_nil_iff_forall_not_mem]
  intro entry member
  have after := World.mem_entries.mp member
  rw [only entry (seen_of_unlink after)] at after
  simp [World.seen, World.lookup_unlink, free] at after

/-- Where nothing but the record is in the directory, it goes, and the directory after it. -/
theorem deletes_last {location : Location}
    (only : ∀ entry, scene.found.seen (scene.volumeDir ++ [entry]) = true → entry = "meta.json")
    (reach : Reach scene.found scene.volumeDir location)
    : Unlinked (location, scene.found.mounted) (scene.removeWith (calmHost "")).2 := by
  have names : ∀ name ∈ ((calmHost "").order (scene.found.entries scene.volumeDir)).map some,
      name = some "meta.json" := by
    intro name member
    obtain ⟨entry, listed, rfl⟩ := List.mem_map.mp member
    have there := World.mem_entries.mp (((calmHost "").perm _).mem_iff.mp listed)
    rw [only entry there]
  have cleared : ∀ {next : WorldProg Unit} {event},
      Leaves (fun w => w = scene.found) next (fun _ => Unlinked event) (Unlinked event)
      → Unlinked event
        ((do
          let entries ← (scene.fs (calmHost "")).listing scene.volumeDir
          (scene.fs (calmHost "")).removeEntries (rmtree (calmHost "")) scene.volumeDir entries
          next : WorldProg Unit) scene.found).2 := by
    intro next event last
    refine unlinked_of_leaves ?_
    refine Leaves.bind _ (calm_listing "" scene.volumeDir) fun entries => ?_
    refine Leaves.assume (fun w holds => holds.2) ?_
    rintro rfl
    refine Leaves.bind (fun _ w => w = scene.found) ?_ fun _ => last
    exact (calm_removeEntries "" names).weaken (fun w holds => holds.1) (fun _ _ is => is)
      fun _ is => is
  rw [removeWith_eq]
  refine cleared ?_
  cases reach with
  | data isData inside whole seen free =>
      refine absurd (only _ ?_) isData
      rcases whole with rfl | isDir
      · exact seen
      · exact World.seen_of_lookup isDir
  | record seen plain free empties =>
      refine Leaves.bind _ (calm_removeMeta "" plain free) fun _ => ?_
      refine (keeps_removeDir (calmHost "") scene.volumeDir).weaken ?_ (fun _ _ old => old)
        fun _ old => old
      rintro w rfl
      exact unlinked_now seen (beq_self_eq_true _) free
  | itself isDir plain free empties =>
      have freeMeta : scene.found.busy (scene.volumeDir ++ ["meta.json"]) = false :=
        World.busy_above (List.prefix_append _ _) free
      refine Leaves.bind _ (calm_removeMeta "" plain freeMeta) fun _ => ?_
      refine calm_removing "" ?_
      rintro w rfl
      have kept : (scene.found.unlink (· == scene.volumeDir ++ ["meta.json"])).tree.lookup
          scene.volumeDir = some .dir := by
        rw [World.lookup_unlink]
        simpa using isDir
      have empty := entries_unlink_record freeMeta only
      rw [dirRemoved, if_pos ⟨kept, List.isEmpty_iff.mpr empty, free⟩]
      exact unlinked_now (World.seen_of_lookup kept) (beq_self_eq_true _) free

end

/-- What can be reached below the mountpoint of a mounted volume, some run deletes. -/
theorem clean_of_ownData (own : ∀ host, scene.OwnData host) : scene.Clean := by
  refine ⟨?_, scene.begun_of_ownData (own _)⟩
  intro mounted location reach below
  by_cases data : ∃ entry, entry ≠ "meta.json"
    ∧ scene.found.seen (scene.volumeDir ++ [entry]) = true
  case neg =>
    have only : ∀ entry, scene.found.seen (scene.volumeDir ++ [entry]) = true →
        entry = "meta.json" := by
      intro entry there
      by_contra isData
      exact data ⟨entry, isData, there⟩
    exact (own _).unmounted _ (deletes_last only reach) below mounted
  case pos =>
    obtain ⟨entry, isData, there⟩ := data
    have deletesEntry : Below scene.mountpoint (scene.volumeDir ++ [entry])
        → ¬ Empties scene.found scene.volumeDir := by
      intro belowEntry empties
      have unlinked := deletes_data isData List.prefix_rfl (.inl rfl) there
        (empties entry isData there)
      exact (own _).unmounted _ unlinked belowEntry mounted
    cases reach with
    | data isData' inside whole seen free =>
        exact (own _).unmounted _ (deletes_data isData' inside whole seen free) below mounted
    | record _ _ _ empties =>
        have above := (List.prefix_concat_iff.mp below.1).resolve_left below.2
        exact deletesEntry (below_concat above List.prefix_rfl) empties
    | itself _ _ _ empties =>
        exact deletesEntry (below_concat below.1 List.prefix_rfl) empties

/-- A removal keeps to the volume's own data in every run just when what it finds is safe to
delete.
-/
theorem removal_ownData : (∀ host, scene.OwnData host) ↔ scene.Clean :=
  ⟨scene.clean_of_ownData, fun clean host => scene.ownData_of_clean clean host⟩

/-- A share that is in use, so that `umount` leaves it mounted. -/
def busyShare : Scene where
  store := ["volumes"]
  name := "data"
  volume :=
    { name := "data", mountpoint := "/volumes/data/_data", createdUnix := 0, driver := "nfs",
      device := some "nas:/export", options := none, quotaBytes := none, alertPct := none,
      labels := [], annotations := [], parent := none, pool := none }
  inspects := true
  table := some "nas:/export /volumes/data/_data nfs rw 0 0".toList
  umount tree mounted := (tree, mounted)
  tree :=
    [(["volumes", "data"], .dir), (["volumes", "data", "meta.json"], .file),
      (["volumes", "data", "_data"], .dir), (["volumes", "data", "_data", "ledger"], .file)]
  mounted := [["volumes", "data", "_data"]]
  standing := by decide +kernel
  recorded := by decide +kernel

/-- The files of the share go, and only then does the removal fail. -/
theorem busy_share_deleted : ¬ ∀ (scene : Scene) (host : Host), scene.OwnData host := by
  intro all
  have own := (all busyShare (calmHost "_data")).unmounted
    (["volumes", "data", "_data", "ledger"], [["volumes", "data", "_data"]])
    (by decide +kernel)
  exact own (by decide +kernel) (by decide +kernel)

end Scene

end Delonix.Volumes
