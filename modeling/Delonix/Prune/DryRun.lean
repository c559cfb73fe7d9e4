import Delonix.Prune.ImagesKept

/-! The plan of a dry run against the prune it announces. The plan reads the stores as they are;
each sweep reads what the sweeps before it left.
-/

namespace Delonix.Prune.Sweeps

open Delonix.Images

-----------------------------------------------------------------------------------------
-- What a plan promises
-----------------------------------------------------------------------------------------

def World.paths (world : World) : List Path :=
  world.containers.paths .containers (fun _ => true) ++ world.blobs.paths .blobs (fun _ => true)
    ++ world.layers.paths .layers (fun _ => true)
    ++ world.buildCache.paths .buildCache (fun _ => true)

def removed (before after : World) : List Path := before.paths.filter (· ∉ after.paths)

/-- Every path the plan counts, as often as it counts it. -/
def PrunePlan.measured (plan : PrunePlan) : List Path :=
  plan.containersMeasured ++ plan.dirs ++ plan.blobs ++ plan.layers ++ plan.buildCache

/-- The plan names what went, and counts each path that went once. -/
structure Tells (plan : PrunePlan) (before after : World) : Prop where
  containers : plan.containers
    = (before.registry.all.filter (· ∉ after.registry.all)).map (·.name)
  images : plan.images
    = (before.images.list.filter (·.id ∉ after.images.all.map (·.id))).map label
  networks : plan.networks = before.networks.filter (· ∉ after.networks)
  once : (plan.measured.filter (· ∈ before.paths)).Perm (removed before after)
  bytes : ∀ measure : Path → Nat, (∀ path ∉ before.paths, measure path = 0)
    → plan.bytesA measure + plan.bytesB measure = ((removed before after).map measure).sum

/-- The images the plan expects to be left. -/
def expected (all : Bool) (world : World) : List Image :=
  world.images.list.filter fun img => !doomed (inUse world.registry.all) all img

/-- No stopped container has anything to give. -/
structure Foreseen (all : Bool) (world : World) : Prop where
  dirs : ∀ c ∈ world.registry.stopped, ¬ world.containers.holds c.id
  images : ∀ img ∈ world.images.all, doomed (inUse world.registry.live) all img = true
    → doomed (inUse world.registry.all) all img = true
  networks : ∀ net ∈ world.networks,
    doomedNetwork (attached world.registry.live) net = true
    → doomedNetwork (attached world.registry.all) net = true
  layers : ∀ e ∈ world.layers.entries, isScratch e.name = false
    → layerOf e.name ∈ layersInUseNow world.layersDir world.mounts
    → layerOf e.name ∈ layersToKeep world.layersDir (sweepContainers world).mounts
      (referenced (expected all world))

-----------------------------------------------------------------------------------------
-- Paths of a listing
-----------------------------------------------------------------------------------------

theorem Listing.mem_paths {place : Place} {listing : Listing} {counted : Entry → Bool}
    {path : Path}
    : path ∈ listing.paths place counted
      ↔ path.place = place ∧ ∃ e ∈ listing.entries, counted e = true ∧ e.name = path.name := by
  simp only [Listing.paths, List.mem_map, List.mem_filter]
  constructor
  · rintro ⟨e, ⟨member, mine⟩, rfl⟩
    exact ⟨rfl, e, member, mine, rfl⟩
  · rintro ⟨rfl, e, member, mine, named⟩
    exact ⟨e, ⟨member, mine⟩, by rw [named]⟩

theorem Listing.nodup_paths (place : Place) (listing : Listing) (counted : Entry → Bool)
    : (listing.paths place counted).Nodup := by
  have names : ((listing.paths place counted).map (·.name)).Nodup := by
    rw [Listing.paths, List.map_map]
    exact listing.unique.sublist (List.filter_sublist.map _)
  exact names.of_map

theorem Listing.paths_sublist (place : Place) (listing : Listing) (counted : Entry → Bool)
    : (listing.paths place counted).Sublist (listing.paths place fun _ => true) :=
  (List.monotone_filter_right _ fun _ _ => rfl).map _

theorem Listing.ext_name {listing : Listing} {e other : Entry} (mine : e ∈ listing.entries)
    (its : other ∈ listing.entries) (same : e.name = other.name)
    : e = other :=
  List.inj_on_of_nodup_map listing.unique mine its same

theorem Listing.without_without (first second : Entry → Bool) (listing : Listing)
    : (listing.without first).without second
      = listing.without fun e => first e || second e := by
  refine Listing.ext ?_
  simp only [Listing.without, List.filter_filter]
  refine List.filter_congr fun e _ => ?_
  cases first e <;> cases second e <;> rfl

theorem Listing.without_congr {listing : Listing} {first second : Entry → Bool}
    (same : ∀ e ∈ listing.entries, first e = second e)
    : listing.without first = listing.without second := by
  have entries : listing.entries.filter (fun e => !first e)
      = listing.entries.filter (fun e => !second e) :=
    List.filter_congr fun e member => by rw [same e member]
  simp only [Listing.without, entries]

/-- Of a listing without the doomed entries, the paths that went are theirs. -/
theorem Listing.paths_gone {place : Place} {listing : Listing} {doomed : Entry → Bool}
    {left : List Path}
    (here : ∀ name, ⟨place, name⟩ ∈ left ↔ (listing.without doomed).holds name)
    : (listing.paths place fun _ => true).filter (· ∉ left) = listing.paths place doomed := by
  simp only [Listing.paths, List.filter_map, List.filter_filter]
  congr 1
  refine List.filter_congr fun e member => ?_
  have gone : (⟨place, e.name⟩ : Path) ∈ left ↔ doomed e = false := by
    rw [here]
    constructor
    · rintro ⟨other, kept, named⟩
      obtain ⟨known, spared⟩ := Listing.mem_without.mp kept
      rw [← listing.ext_name known member named]
      exact spared
    · intro spared
      exact ⟨e, Listing.mem_without.mpr ⟨member, spared⟩, rfl⟩
  cases known : doomed e <;> simp [gone, known]

theorem World.mem_paths {world : World} {path : Path}
    : path ∈ world.paths ↔
      (match path.place with
        | .containers => world.containers
        | .blobs => world.blobs
        | .layers => world.layers
        | .buildCache => world.buildCache).holds path.name := by
  obtain ⟨place, name⟩ := path
  cases place <;>
    simp [World.paths, Listing.mem_paths, Listing.holds]

theorem World.nodup_paths (world : World) : world.paths.Nodup := by
  simp only [World.paths]
  refine List.Nodup.append (List.Nodup.append (List.Nodup.append (Listing.nodup_paths ..)
    (Listing.nodup_paths ..) ?_) (Listing.nodup_paths ..) ?_) (Listing.nodup_paths ..) ?_
  all_goals
    intro path mine its
    simp only [List.mem_append, Listing.mem_paths] at mine its
    grind

-----------------------------------------------------------------------------------------
-- What a prune leaves
-----------------------------------------------------------------------------------------

theorem Registry.not_both {registry : Registry} {c other : Registered} (stopped : c ∈ registry.stopped)
    (live : other ∈ registry.live)
    : c.id ≠ other.id := by
  intro same
  obtain ⟨mine, dead⟩ := List.mem_filter.mp stopped
  obtain ⟨its, alive⟩ := List.mem_filter.mp live
  have one : c = other := List.inj_on_of_nodup_map registry.unique mine its same
  rw [one, alive] at dead
  exact Bool.noConfusion dead

theorem prune_containers (all : Bool) (world : World)
    : (prune all world).containers
      = world.containers.without (orphanContainerDir (world.registry.live.map (·.id))) := by
  have swept : (prune all world).containers
      = (world.containers.without (ownDir (world.registry.stopped.map (·.id)))).without
        (orphanContainerDir (world.registry.live.map (·.id))) := rfl
  rw [swept, Listing.without_without]
  refine Listing.without_congr fun e _ => ?_
  -- a stopped container's directory is no live container's
  cases own : ownDir (world.registry.stopped.map (·.id)) e
  · rfl
  · simp only [ownDir, Bool.and_eq_true, List.contains_eq_mem, decide_eq_true_eq] at own
    obtain ⟨c, stopped, named⟩ := List.mem_map.mp own.2
    have orphan : e.name ∉ world.registry.live.map (·.id) := by
      intro mem
      obtain ⟨other, live, same⟩ := List.mem_map.mp mem
      exact Registry.not_both stopped live (named.trans same.symm)
    simp [orphanContainerDir, own.1, orphan]

variable {all : Bool} {world : World}

/-- After a prune the referenced digests are those of the images it did not doom. -/
theorem Settled.mem_referenced (settled : Settled (inUse world.registry.live) all world.images)
    {hex : String}
    : hex ∈ referenced (prune all world).images.list
      ↔ hex ∈ referenced
        (world.images.list.filter fun img => !doomed (inUse world.registry.live) all img) := by
  simp only [Sweeps.mem_referenced, Records.mem_list, List.mem_filter, Bool.not_eq_true']
  constructor
  · rintro ⟨img, after, digest, its, named⟩
    obtain ⟨old, known, of⟩ := Records.of_mem_removeAll after
    refine ⟨old, ⟨known, ?_⟩, digest, by rwa [← of.1, ← of.2.1], named⟩
    rw [← Bool.not_eq_true]
    intro going
    exact settled.gone (List.mem_filter.mpr ⟨Records.mem_list.mpr known, going⟩) img after of.1
  · rintro ⟨img, ⟨known, spared⟩, rest⟩
    exact ⟨img, settled.left known spared, rest⟩

/-- The prune takes the records of just the images doomed after the containers went. -/
theorem Settled.images_gone (settled : Settled (inUse world.registry.live) all world.images)
    : world.images.list.filter (·.id ∉ (prune all world).images.all.map (·.id))
      = doomedImages (inUse world.registry.live) all world.images := by
  refine List.filter_congr fun img listed => ?_
  have known := Records.mem_list.mp listed
  rw [Bool.eq_iff_iff, decide_eq_true_eq]
  constructor
  · intro gone
    rw [← Bool.not_eq_false]
    intro spared
    exact gone (List.mem_map_of_mem (settled.left known spared))
  · intro going mem
    obtain ⟨left, after, same⟩ := List.mem_map.mp mem
    exact settled.gone (List.mem_filter.mpr ⟨listed, going⟩) left after same

-----------------------------------------------------------------------------------------
-- Category by category
-----------------------------------------------------------------------------------------

/-- Fewer containers use fewer images. -/
theorem doomed_of_subset {used more : List String} (subset : used ⊆ more) {img : Image}
    (going : doomed more all img = true)
    : doomed used all img = true := by
  simp only [doomed, imageIsDoomed, Bool.and_eq_true, Bool.not_eq_true', Bool.or_eq_false_iff,
    List.contains_eq_mem, decide_eq_false_iff_not, List.any_eq_false, decide_eq_true_eq]
    at going ⊢
  exact ⟨going.1, fun mem => going.2.1 (subset mem), fun tag mine mem =>
    going.2.2 tag mine (subset mem)⟩

theorem inUse_live (registry : Registry) : inUse registry.live ⊆ inUse registry.all :=
  List.map_subset _ (List.filter_subset_self _)

theorem doomedNetwork_of_subset {attached more : List String} (subset : attached ⊆ more)
    {net : String} (going : doomedNetwork more net = true)
    : doomedNetwork attached net = true := by
  simp only [doomedNetwork, Bool.and_eq_true, Bool.not_eq_true', List.contains_eq_mem,
    decide_eq_false_iff_not] at going ⊢
  exact ⟨going.1, fun mem => going.2 (subset mem)⟩

theorem attached_live (registry : Registry) : attached registry.live ⊆ attached registry.all :=
  fun _ mem => by
    obtain ⟨c, live, its⟩ := List.mem_filterMap.mp mem
    exact List.mem_filterMap.mpr ⟨c, (List.mem_filter.mp live).1, its⟩

/-- Of two predicates the narrower holds of as many elements only if it is the same. -/
theorem filter_length_iff {α : Type} {p q : α → Bool} {items : List α}
    (narrower : ∀ item, p item = true → q item = true)
    : (items.filter p).length = (items.filter q).length
      ↔ ∀ item ∈ items, q item = true → p item = true := by
  have sublist : (items.filter p).Sublist (items.filter q) :=
    List.monotone_filter_right _ narrower
  constructor
  · intro same item member holds
    have mem : item ∈ items.filter q := List.mem_filter.mpr ⟨member, holds⟩
    rw [← sublist.eq_of_length same] at mem
    exact (List.mem_filter.mp mem).2
  · intro wider
    have same : items.filter p = items.filter q := List.filter_congr fun item member =>
      Bool.eq_iff_iff.mpr ⟨narrower item, wider item member⟩
    rw [same]

theorem containers_told
    : (plan all world).containers
      = (world.registry.all.filter (· ∉ (prune all world).registry.all)).map (·.name) := by
  have stopped : world.registry.stopped
      = world.registry.all.filter (· ∉ world.registry.live) := by
    refine List.filter_congr fun c member => ?_
    simp [Registry.live, member]
  exact congrArg (List.map (·.name)) stopped

theorem networks_told
    : (plan all world).networks = world.networks.filter (· ∉ (prune all world).networks)
      ↔ ∀ net ∈ world.networks, doomedNetwork (attached world.registry.live) net = true
        → doomedNetwork (attached world.registry.all) net = true := by
  have gone : world.networks.filter (· ∉ (prune all world).networks)
      = world.networks.filter (doomedNetwork (attached world.registry.live)) := by
    refine List.filter_congr fun net member => ?_
    have left : net ∈ (prune all world).networks
        ↔ doomedNetwork (attached world.registry.live) net = false := by
      have : (prune all world).networks = world.networks.filter fun net =>
        !doomedNetwork (attached world.registry.live) net := rfl
      simp [this, member]
    cases known : doomedNetwork (attached world.registry.live) net <;> simp [left, known]
  have narrower : ∀ net, doomedNetwork (attached world.registry.all) net = true
      → doomedNetwork (attached world.registry.live) net = true :=
    fun _ => doomedNetwork_of_subset (attached_live _)
  rw [gone]
  constructor
  · intro same
    exact (filter_length_iff narrower).mp (congrArg List.length same)
  · intro wider
    exact List.filter_congr fun net member =>
      Bool.eq_iff_iff.mpr ⟨narrower net, wider net member⟩

theorem Settled.images_told (settled : Settled (inUse world.registry.live) all world.images)
    : (plan all world).images
        = (world.images.list.filter
          (·.id ∉ (prune all world).images.all.map (·.id))).map label
      ↔ ∀ img ∈ world.images.all, doomed (inUse world.registry.live) all img = true
        → doomed (inUse world.registry.all) all img = true := by
  rw [settled.images_gone]
  have narrower : ∀ img, doomed (inUse world.registry.all) all img = true
      → doomed (inUse world.registry.live) all img = true :=
    fun _ => doomed_of_subset (inUse_live _)
  constructor
  · intro same img member
    have lengths := congrArg List.length same
    simp only [plan, doomedImages, List.length_map] at lengths
    exact (filter_length_iff narrower).mp lengths img (Records.mem_list.mpr member)
  · intro wider
    have same : doomedImages (inUse world.registry.all) all world.images
        = doomedImages (inUse world.registry.live) all world.images :=
      List.filter_congr fun img listed =>
        Bool.eq_iff_iff.mpr ⟨narrower img, wider img (Records.mem_list.mp listed)⟩
    exact congrArg (List.map label) same

-----------------------------------------------------------------------------------------
-- The paths
-----------------------------------------------------------------------------------------

/-- The entries that the prune takes from each directory. -/
theorem removed_prune
    : removed world (prune all world)
      = world.containers.paths .containers
          (orphanContainerDir (world.registry.live.map (·.id)))
        ++ world.blobs.paths .blobs (orphanBlob (referenced (prune all world).images.list))
        ++ world.layers.paths .layers
          (orphanLayer (layersToKeep world.layersDir (sweepContainers world).mounts
            (referenced (prune all world).images.list)))
        ++ world.buildCache.paths .buildCache doomedCache := by
  have places : removed world (prune all world)
      = (world.containers.paths .containers fun _ => true).filter (· ∉ (prune all world).paths)
        ++ (world.blobs.paths .blobs fun _ => true).filter (· ∉ (prune all world).paths)
        ++ (world.layers.paths .layers fun _ => true).filter (· ∉ (prune all world).paths)
        ++ (world.buildCache.paths .buildCache fun _ => true).filter
          (· ∉ (prune all world).paths) := by
    simp only [removed, List.filter_append, World.paths.eq_def world]
  rw [places]
  congr 1
  · congr 1
    · congr 1
      · refine Listing.paths_gone fun name => ?_
        rw [World.mem_paths, prune_containers]
      · exact Listing.paths_gone fun name => World.mem_paths
    · exact Listing.paths_gone fun name => World.mem_paths
  · exact Listing.paths_gone fun name => World.mem_paths

/-- Without directories of stopped containers, what is counted of what exists is what the plan
lists in the other categories.
-/
theorem measured_existing (dirs : ∀ c ∈ world.registry.stopped, ¬ world.containers.holds c.id)
    : (plan all world).measured.filter (· ∈ world.paths)
      = (plan all world).dirs ++ (plan all world).blobs ++ (plan all world).layers
        ++ (plan all world).buildCache := by
  have none_own : (plan all world).containersMeasured.filter (· ∈ world.paths) = [] := by
    refine List.filter_eq_nil_iff.mpr fun path mem => ?_
    obtain ⟨c, stopped, rfl⟩ := List.mem_map.mp mem
    simpa [World.mem_paths] using dirs c stopped
  have others : ((plan all world).dirs ++ (plan all world).blobs ++ (plan all world).layers
      ++ (plan all world).buildCache).Sublist world.paths :=
    (((Listing.paths_sublist ..).append (Listing.paths_sublist ..)).append
      (Listing.paths_sublist ..)).append (Listing.paths_sublist ..)
  have whole : (plan all world).measured
      = (plan all world).containersMeasured ++ ((plan all world).dirs ++ (plan all world).blobs
        ++ (plan all world).layers ++ (plan all world).buildCache) := by
    simp [PrunePlan.measured]
  rw [whole, List.filter_append, none_own, List.nil_append, List.filter_eq_self]
  exact fun path mem => by simpa using others.subset mem

/-- What does not exist adds no bytes. -/
theorem sum_existing {measure : Path → Nat} {existing paths : List Path}
    (absent : ∀ path ∉ existing, measure path = 0)
    : (paths.map measure).sum = ((paths.filter (· ∈ existing)).map measure).sum := by
  induction paths with
  | nil => rfl
  | cons path rest ih =>
      by_cases known : path ∈ existing
      · rw [List.filter_cons_of_pos (by simpa using known)]
        simp [ih]
      · rw [List.filter_cons_of_neg (by simpa using known)]
        simp [ih, absent path known]

theorem bytes_told {prunePlan : PrunePlan} {after : World}
    (once : (prunePlan.measured.filter (· ∈ world.paths)).Perm (removed world after))
    {measure : Path → Nat} (absent : ∀ path ∉ world.paths, measure path = 0)
    : prunePlan.bytesA measure + prunePlan.bytesB measure
      = ((removed world after).map measure).sum := by
  have total : prunePlan.bytesA measure + prunePlan.bytesB measure
      = (prunePlan.measured.map measure).sum := by
    simp only [PrunePlan.bytesA, PrunePlan.bytesB, PrunePlan.measured, List.map_append,
      List.sum_append]
    omega
  rw [total, sum_existing absent]
  exact (once.map measure).sum_nat

theorem referenced_expected (settled : Settled (inUse world.registry.live) all world.images)
    (images : ∀ img ∈ world.images.all, doomed (inUse world.registry.live) all img = true
      → doomed (inUse world.registry.all) all img = true) {hex : String}
    : hex ∈ referenced (prune all world).images.list
      ↔ hex ∈ referenced (expected all world) := by
  have same : expected all world
      = world.images.list.filter fun img => !doomed (inUse world.registry.live) all img := by
    refine List.filter_congr fun img listed => ?_
    congr 1
    exact Bool.eq_iff_iff.mpr ⟨doomed_of_subset (inUse_live _),
      images img (Records.mem_list.mp listed)⟩
  rw [settled.mem_referenced, same]

/-- The layers the plan lists are those that go. -/
theorem Foreseen.layers_eq (settled : Settled (inUse world.registry.live) all world.images)
    (foreseen : Foreseen all world)
    : (plan all world).layers
      = world.layers.paths .layers
        (orphanLayer (layersToKeep world.layersDir (sweepContainers world).mounts
          (referenced (prune all world).images.list))) := by
  refine congrArg (List.map _) (List.filter_congr fun e member => ?_)
  cases scratch : isScratch e.name
  · have fewer : ∀ hex, hex ∈ layersInUseNow world.layersDir (sweepContainers world).mounts
        → hex ∈ layersInUseNow world.layersDir world.mounts := by
      intro hex mem
      obtain ⟨mount, left, its⟩ := List.mem_flatMap.mp mem
      exact List.mem_flatMap.mpr ⟨mount, (List.mem_filter.mp left).1, its⟩
    have kept : layerOf e.name ∈ layersToKeep world.layersDir world.mounts
          (referenced (expected all world))
        ↔ layerOf e.name ∈ layersToKeep world.layersDir (sweepContainers world).mounts
          (referenced (prune all world).images.list) := by
      rw [layersToKeep, layersToKeep, List.mem_append, List.mem_append,
        referenced_expected settled foreseen.images]
      constructor
      · rintro (named | mounted)
        · exact .inl named
        · exact List.mem_append.mp (foreseen.layers e member scratch mounted)
      · exact Or.imp_right (fewer _)
    simp only [orphanLayer, scratch, List.contains_eq_mem, Bool.not_false, Bool.true_and]
    exact congrArg _ (decide_eq_decide.mpr kept)
  · simp [orphanLayer, scratch]

theorem Foreseen.once (settled : Settled (inUse world.registry.live) all world.images)
    (foreseen : Foreseen all world)
    : (plan all world).measured.filter (· ∈ world.paths) = removed world (prune all world) := by
  have blobs : (plan all world).blobs
      = world.blobs.paths .blobs (orphanBlob (referenced (prune all world).images.list)) := by
    refine congrArg (List.map _) (List.filter_congr fun e _ => ?_)
    have kept : e.name ∈ referenced (prune all world).images.list
        ↔ e.name ∈ referenced (expected all world) :=
      referenced_expected settled foreseen.images
    simp only [orphanBlob, List.contains_eq_mem]
    exact congrArg _ (congrArg _ (decide_eq_decide.mpr kept.symm))
  rw [measured_existing foreseen.dirs, removed_prune, blobs, foreseen.layers_eq settled]
  rfl

/-- A directory counted for its stopped container is counted once more, or stays. -/
theorem dirs_of_once
    (once : ((plan all world).measured.filter (· ∈ world.paths)).Perm
      (removed world (prune all world)))
    : ∀ c ∈ world.registry.stopped, ¬ world.containers.holds c.id := by
  rintro c stopped ⟨e, member, named⟩
  have known : (⟨.containers, c.id⟩ : Path) ∈ world.paths :=
    World.mem_paths.mpr ⟨e, member, named⟩
  have own : (⟨.containers, c.id⟩ : Path) ∈ (plan all world).containersMeasured :=
    List.mem_map_of_mem stopped
  have orphan : c.id ∉ world.registry.live.map (·.id) := by
    intro mem
    obtain ⟨other, live, same⟩ := List.mem_map.mp mem
    exact Registry.not_both stopped live same.symm
  cases dir : e.isDir
  · -- what is no directory stays
    have counted : (⟨.containers, c.id⟩ : Path)
        ∈ (plan all world).measured.filter (· ∈ world.paths) :=
      List.mem_filter.mpr ⟨by simp [PrunePlan.measured, own], by simpa using known⟩
    have went := (List.mem_filter.mp (once.subset counted)).2
    refine absurd (World.mem_paths.mpr ?_) (by simpa using went)
    change (prune all world).containers.holds c.id
    rw [prune_containers]
    exact ⟨e, Listing.mem_without.mpr ⟨member, by simp [orphanContainerDir, dir]⟩, named⟩
  · have again : (⟨.containers, c.id⟩ : Path) ∈ (plan all world).dirs :=
      Listing.mem_paths.mpr ⟨rfl, e, member, by simp [orphanContainerDir, dir, named, orphan],
        named⟩
    have distinct : ((plan all world).measured.filter (· ∈ world.paths)).Nodup :=
      once.nodup_iff.mpr (world.nodup_paths.filter _)
    simp only [PrunePlan.measured, List.append_assoc, List.filter_append] at distinct
    have apart := (List.nodup_append.mp distinct).2.2
    have here (paths : List Path) (mem : (⟨.containers, c.id⟩ : Path) ∈ paths)
        : (⟨.containers, c.id⟩ : Path) ∈ paths.filter (· ∈ world.paths) :=
      List.mem_filter.mpr ⟨mem, by simpa using known⟩
    exact apart _ (here _ own) _ (List.mem_append_left _ (here _ again)) rfl

/-- A layer held by nothing but the mount of a stopped container goes without being listed. -/
theorem layers_of_once (settled : Settled (inUse world.registry.live) all world.images)
    (images : ∀ img ∈ world.images.all, doomed (inUse world.registry.live) all img = true
      → doomed (inUse world.registry.all) all img = true)
    (once : ((plan all world).measured.filter (· ∈ world.paths)).Perm
      (removed world (prune all world)))
    {e : Entry} (member : e ∈ world.layers.entries) (scratch : isScratch e.name = false)
    (mounted : layerOf e.name ∈ layersInUseNow world.layersDir world.mounts)
    : layerOf e.name ∈ layersToKeep world.layersDir (sweepContainers world).mounts
      (referenced (expected all world)) := by
  have same : ∀ hex, hex ∈ referenced (prune all world).images.list
      ↔ hex ∈ referenced (expected all world) := fun hex =>
    referenced_expected settled images
  by_contra lost
  have lost : layerOf e.name ∉ layersToKeep world.layersDir (sweepContainers world).mounts
      (referenced (prune all world).images.list) := by
    intro kept
    refine lost ((List.mem_append.mp kept).elim (fun named => ?_) fun left => ?_)
    · exact List.mem_append_left _ ((same _).mp named)
    · exact List.mem_append_right _ left
  have went : (⟨.layers, e.name⟩ : Path) ∈ removed world (prune all world) := by
    rw [removed_prune]
    refine List.mem_append_left _ (List.mem_append_right _ (Listing.mem_paths.mpr ?_))
    exact ⟨rfl, e, member, by simp [orphanLayer, scratch, lost], rfl⟩
  have counted := (List.mem_filter.mp (once.mem_iff.mpr went)).1
  have listed : (⟨.layers, e.name⟩ : Path) ∈ (plan all world).layers := by
    simpa [PrunePlan.measured, plan, Listing.mem_paths] using counted
  obtain ⟨-, other, its, orphan, named⟩ := Listing.mem_paths.mp listed
  rw [Listing.ext_name its member named] at orphan
  simp only [orphanLayer, Bool.and_eq_true, Bool.not_eq_true', List.contains_eq_mem,
    decide_eq_false_iff_not] at orphan
  exact orphan.2 (List.mem_append_right _ mounted)

/-- Where the names of the images that go are their own, a dry run tells what the prune does
exactly when no stopped container has anything to give.
-/
theorem plan_tells_iff (settled : Settled (inUse world.registry.live) all world.images)
    : Tells (plan all world) world (prune all world) ↔ Foreseen all world := by
  constructor
  · intro tells
    have images := settled.images_told.mp tells.images
    exact {
      dirs := dirs_of_once tells.once
      images
      networks := networks_told.mp tells.networks
      layers := fun _ => layers_of_once settled images tells.once
    }
  · intro foreseen
    have once := List.Perm.of_eq (foreseen.once settled)
    exact {
      containers := containers_told
      images := settled.images_told.mpr foreseen.images
      networks := networks_told.mpr foreseen.networks
      once
      bytes := fun _ absent => bytes_told once absent
    }

/-- A stopped container, its directory, and nothing else. -/
def stoppedWeb : World where
  registry := ⟨[⟨"c1", "web", "alpine:latest", false, none, []⟩], by decide⟩
  containers := ⟨[⟨"c1", true, none⟩], List.nodup_singleton "c1"⟩
  images := ⟨[], List.nodup_nil⟩
  blobs := ⟨[], List.nodup_nil⟩
  layersDir := "/l"
  layers := ⟨[], List.nodup_nil⟩
  mounts := []
  networks := []
  buildCache := ⟨[], List.nodup_nil⟩

/-- Its directory is announced with the container and once more as nobody's. -/
theorem stoppedWeb_counted_twice
    : ¬ ∀ all world, Tells (plan all world) world (prune all world) := by
  intro tells
  have once := (tells false stoppedWeb).once.length_eq
  revert once
  decide +kernel

theorem plan_tells_sharedRun
    : Tells (plan true sharedRun) sharedRun (prune true sharedRun)
      ∧ (plan true sharedRun).images = ["busybox:1"]
      ∧ (plan true sharedRun).networks = ["dlx-old"] := by
  have settled : Settled (inUse sharedRun.registry.live) true sharedRun.images :=
    ⟨by decide +kernel, by decide +kernel, by decide +kernel⟩
  refine ⟨(plan_tells_iff settled).mpr ⟨?_, ?_, ?_, ?_⟩, by decide +kernel, by decide +kernel⟩
  · have none : ∀ c ∈ sharedRun.registry.stopped, ∀ e ∈ sharedRun.containers.entries,
        e.name ≠ c.id := by decide +kernel
    exact fun c stopped ⟨e, member, named⟩ => none c stopped e member named
  · decide +kernel
  · decide +kernel
  · decide +kernel
end Delonix.Prune.Sweeps
