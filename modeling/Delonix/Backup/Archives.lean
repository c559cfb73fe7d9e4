import Delonix.Library.KeyedMerge
import Delonix.Prune.VolumesKept

/-! Backups of containers and of groups of them: the records, and the data of every volume they
mount. A mount has only a path of the host, so the volumes are found by their mountpoints in a
listing of the store.
-/

namespace Delonix.Backup.Archives

open Delonix.Library.Checks
open Delonix.Library.KeyedMerge
open Delonix.Prune (OwnedVolume Records)
open Delonix.Volumes

-----------------------------------------------------------------------------------------
-- The node
-----------------------------------------------------------------------------------------

/-- The volumes of a node, as they are on disk. -/
structure VolumeDisk where
  opens : Bool
  store : Prune.Store

structure Container where
  name : String
  labels : List (String × String)
  mounts : List Mount
  /-- The other fields of the record. -/
  body : String
deriving DecidableEq

inductive Kind where
  | container
  | pod
  | stack
deriving DecidableEq

inductive Failure where
  | notFound (kind : Kind) (name : String)
  | container (q : String)
  | registry
  | create
  | stop
  | snapshot (volume : String)
  | append (path : String)
  | close

/-- What a backup meets on its node. `Data` is what is packed of a volume. -/
structure Host (Data : Type) where
  disk : VolumeDisk
  /-- The container registry, when it can be read. -/
  containers : Option (List Container)
  /-- The look-up of a container by name. -/
  find : String → Except Failure Container
  /-- What packing the directory gives, unless it fails. -/
  snapshot : String → Option Data
  creates : Bool
  stops : Bool
  appends : String → Bool
  closes : Bool

structure Meta where
  kind : Kind
  name : String
  volumes : List String
  members : List String

inductive Content (Data : Type) where
  | info (data : Meta)
  | record (c : Container)
  | tarball (data : Data)

structure Archive (Data : Type) where
  data : Meta
  entries : List (String × Content Data)

variable {Data : Type}

-----------------------------------------------------------------------------------------
-- Writing an archive
-----------------------------------------------------------------------------------------

/-- The volumes that can be found: those of the root. A store that fails has none. -/
def VolumeDisk.listed (disk : VolumeDisk) : List Volume :=
  if disk.opens then (Prune.list disk.store.root).toOption.getD [] else []

def volumesOf (disk : VolumeDisk) (mounts : List Mount) : List (String × String) :=
  mounts.foldl
    (fun out m => match disk.listed.find? (·.mountpoint = m.source) with
      | some v => pushNew Prod.fst out (v.name, v.mountpoint)
      | none => out)
    []

def appendEntry (host : Host Data) (entries : List (String × Content Data)) (path : String)
    (content : Content Data)
    : Except Failure (List (String × Content Data)) :=
  if host.appends path then .ok (entries ++ [(path, content)]) else .error (.append path)

def memberPath (name : String) : String := "volumes/" ++ name ++ ".tar.gz"

def packVolume (host : Host Data) (entries : List (String × Content Data))
    (volume : String × String)
    : Except Failure (List (String × Content Data)) :=
  match host.snapshot volume.2 with
  | none => .error (.snapshot volume.1)
  | some data => appendEntry host entries (memberPath volume.1) (.tarball data)

def require (made : Bool) (failure : Failure) : Except Failure Unit :=
  if made then .ok () else .error failure

/-- The workload stopped, where that was asked for. -/
def hold (host : Host Data) (stop : Bool) : Except Failure Unit :=
  require (!stop || host.stops) .stop

def writeContainerArchive (host : Host Data) (stop : Bool) (c : Container)
    : Except Failure (Archive Data) := do
  let vols := volumesOf host.disk c.mounts
  require host.creates .create
  let data : Meta := ⟨.container, c.name, vols.map Prod.fst, []⟩
  let entries ← appendEntry host [] "backup.json" (.info data)
  let entries ← appendEntry host entries "config/container.json" (.record c)
  hold host stop
  let entries ← vols.foldlM (packVolume host) entries
  require host.closes .close
  return ⟨data, entries⟩

def groupLabel : Kind → String
  | .pod => "delonix.io/pod"
  | _ => "delonix.io/stack"

def groupMembers (host : Host Data) (kind : Kind) (name : String)
    : Except Failure (List String) :=
  match host.containers with
  | none => .error .registry
  | some all =>
      let out := ((all.filter fun c => c.labels.lookup (groupLabel kind) = some name).map
        Container.name).insertionSort (· ≤ ·)
      if out.isEmpty then .error (.notFound kind name) else .ok out

/-- A volume of a group, unless another member's was packed under its name. -/
def packNew (host : Host Data) (state : List String × List (String × Content Data))
    (volume : String × String)
    : Except Failure (List String × List (String × Content Data)) :=
  if volume.1 ∈ state.1 then .ok state
  else do
    let entries ← packVolume host state.2 volume
    return (state.1 ++ [volume.1], entries)

def configPath (name : String) : String := "config/containers/" ++ name ++ ".json"

def writeGroupArchive (host : Host Data) (stop : Bool) (kind : Kind) (name : String)
    : Except Failure (Archive Data) := do
  let members ← groupMembers host kind name
  require host.creates .create
  let records ← members.mapM host.find
  hold host stop
  let (allVols, entries) ← records.foldlM
    (fun state c => (volumesOf host.disk c.mounts).foldlM (packNew host) state) ([], [])
  let data : Meta := ⟨kind, name, allVols, members⟩
  let entries ← appendEntry host entries "backup.json" (.info data)
  let entries ← records.foldlM
    (fun entries c => appendEntry host entries (configPath c.name) (.record c)) entries
  require host.closes .close
  return ⟨data, entries⟩

-----------------------------------------------------------------------------------------
-- What a backup promises
-----------------------------------------------------------------------------------------

/-- A record of the store, in the root or in a namespace. -/
def VolumeDisk.Has (disk : VolumeDisk) (owned : OwnedVolume) : Prop :=
  (owned.ns = none ∧ ∃ records, disk.store.root = some records ∧ owned.volume ∈ records.all)
    ∨ ∃ ns records, owned.ns = some ns
      ∧ (ns, Prune.Namespace.records records) ∈ disk.store.nsDir.namespaces
      ∧ owned.volume ∈ records.all

/-- The whole store can be read. -/
structure VolumeDisk.Readable (disk : VolumeDisk) : Prop where
  opens : disk.opens = true
  root : disk.store.root ≠ none
  dir : disk.store.nsDir ≠ .unreadable
  entries : ∀ entries named, disk.store.nsDir = .listed entries named →
    ∀ entry ∈ entries, entry ≠ .unreadable
  namespaces : ∀ ns ∈ disk.store.nsDir.namespaces, ∃ records, ns.2 = .records records
  records : disk.store.unread = []

/-- A volume that one of the containers mounts. -/
def Used (disk : VolumeDisk) (records : List Container) (owned : OwnedVolume) : Prop :=
  disk.Has owned ∧ ∃ c ∈ records, ∃ m ∈ c.mounts, owned.volume.mountpoint = m.source

/-- What the archive has at a path. -/
def Archive.at (archive : Archive Data) (path : String) : List (Content Data) :=
  (archive.entries.filter (·.1 = path)).map Prod.snd

/-- An archive with every volume of the containers, each under a path of its own. -/
structure CarriesVolumes (host : Host Data) (records : List Container) (archive : Archive Data)
    : Prop where
  readable : host.disk.Readable
  packed : ∀ owned, Used host.disk records owned →
    ∃ data, host.snapshot owned.volume.mountpoint = some data
      ∧ archive.at (memberPath owned.volume.name) = [.tarball data]
  listed : ∀ owned, Used host.disk records owned → owned.volume.name ∈ archive.data.volumes
  separate : ∀ owned other, Used host.disk records owned → Used host.disk records other →
    memberPath owned.volume.name = memberPath other.volume.name → owned = other

/-- The store can be read, and the containers mount only volumes without an owner, no two of them
on one path.
-/
structure Plain (disk : VolumeDisk) (records : List Container) : Prop where
  readable : disk.Readable
  unscoped : ∀ owned, Used disk records owned → owned.ns = none
  apart : ∀ owned other, Used disk records owned → Used disk records other →
    owned.volume.mountpoint = other.volume.mountpoint → owned = other

/-- Every step of a backup besides the listing of the store succeeds; `paths` are those of what goes
into the archive besides volumes.
-/
structure Writable (host : Host Data) (stop : Bool) (records : List Container)
    (paths : List String)
    : Prop where
  creates : host.creates = true
  stops : stop = true → host.stops = true
  closes : host.closes = true
  entries : ∀ path ∈ paths, host.appends path = true
  volumes : ∀ c ∈ records, ∀ m ∈ c.mounts, ∀ v,
    host.disk.listed.find? (·.mountpoint = m.source) = some v →
      host.snapshot v.mountpoint ≠ none ∧ host.appends (memberPath v.name) = true

-----------------------------------------------------------------------------------------
-- The volumes that are found
-----------------------------------------------------------------------------------------

theorem memberPath_inj {name other : String} (same : memberPath name = memberPath other)
    : name = other := by
  have chars := congrArg String.toList same
  simpa [memberPath, String.ext_iff] using chars

variable {disk : VolumeDisk}

theorem mem_listed {v : Volume}
    : v ∈ disk.listed ↔ disk.opens = true ∧ disk.Has ⟨none, v⟩ := by
  rw [VolumeDisk.listed]
  cases opens : disk.opens with
  | false => simp
  | true =>
      cases root : disk.store.root with
      | none => simp [VolumeDisk.Has, Prune.list, Except.toOption, root]
      | some records =>
          simp only [VolumeDisk.Has, Prune.list, Except.toOption, root, if_true, Option.getD_some,
            (Library.Sorting.perm_sortByKey _).mem_iff]
          simp

theorem eq_of_same_name {v w : Volume} (left : v ∈ disk.listed) (right : w ∈ disk.listed)
    (same : v.name = w.name)
    : v = w := by
  obtain ⟨-, ⟨-, records, root, left⟩ | ⟨_, _, inSpace, -⟩⟩ := mem_listed.mp left
  · obtain ⟨-, ⟨-, records', root', right⟩ | ⟨_, _, inSpace, -⟩⟩ := mem_listed.mp right
    · obtain rfl := Option.some.inj (root.symm.trans root')
      exact List.inj_on_of_nodup_map records.named left right same
    · cases inSpace
  · cases inSpace

theorem find?_listed {source : String} {v : Volume}
    (found : disk.listed.find? (fun v => v.mountpoint = source) = some v)
    : v ∈ disk.listed ∧ v.mountpoint = source :=
  ⟨List.mem_of_find?_eq_some found, by simpa using List.find?_some found⟩

theorem exists_find?_listed {v : Volume} (listed : v ∈ disk.listed)
    : ∃ w, disk.listed.find? (fun w => w.mountpoint = v.mountpoint) = some w :=
  Option.isSome_iff_exists.mp (List.find?_isSome.mpr ⟨v, listed, by simp⟩)

/-- The volume that a mount is taken for. -/
def pick (disk : VolumeDisk) (m : Mount) : Option (String × String) :=
  (disk.listed.find? (·.mountpoint = m.source)).map fun v => (v.name, v.mountpoint)

theorem volumesOf_eq (disk : VolumeDisk) (mounts : List Mount)
    : volumesOf disk mounts = concatNew Prod.fst [] (mounts.filterMap (pick disk)) := by
  rw [volumesOf]
  generalize ([] : List (String × String)) = out
  induction mounts generalizing out with
  | nil => rfl
  | cons m mounts ih =>
      rw [List.foldl_cons, List.filterMap_cons, pick]
      cases disk.listed.find? (·.mountpoint = m.source) with
      | none => exact ih out
      | some v => exact ih _

theorem pick_eq_some {m : Mount} {p : String × String} (picked : pick disk m = some p)
    : ∃ v ∈ disk.listed, v.mountpoint = m.source ∧ p = (v.name, v.mountpoint) := by
  obtain ⟨v, found, rfl⟩ := Option.map_eq_some_iff.mp picked
  obtain ⟨listed, at_⟩ := find?_listed found
  exact ⟨v, listed, at_, rfl⟩

theorem nodup_volumesOf (disk : VolumeDisk) (mounts : List Mount)
    : ((volumesOf disk mounts).map Prod.fst).Nodup := by
  rw [volumesOf_eq]
  exact nodup_concatNew (by simp) _

theorem mem_volumesOf {mounts : List Mount} {p : String × String}
    : p ∈ volumesOf disk mounts ↔ ∃ m ∈ mounts, pick disk m = some p := by
  rw [volumesOf_eq, ← List.mem_filterMap]
  obtain ⟨news, is, all⟩ := @concatNew_eq_append (String × String) String _ Prod.fst []
    (mounts.filterMap (pick disk))
  constructor
  · intro member
    rw [is, List.nil_append] at member
    exact all p member
  · intro member
    obtain ⟨e, kept, same⟩
        : ∃ e ∈ concatNew Prod.fst [] (mounts.filterMap (pick disk)), e.1 = p.1 :=
      mem_keys_concatNew.mpr (.inr ⟨p, member, rfl⟩)
    obtain ⟨m, -, picked⟩ := List.mem_filterMap.mp member
    obtain ⟨m', -, picked'⟩ : ∃ m' ∈ mounts, pick disk m' = some e := by
      rw [is, List.nil_append] at kept
      exact List.mem_filterMap.mp (all e kept)
    obtain ⟨v, left, -, rfl⟩ := pick_eq_some picked
    obtain ⟨w, right, -, rfl⟩ := pick_eq_some picked'
    obtain rfl := eq_of_same_name right left same
    exact kept

-----------------------------------------------------------------------------------------
-- What is packed
-----------------------------------------------------------------------------------------

variable {host : Host Data} {stop : Bool} {records : List Container}

/-- The entry of a volume in an archive. -/
def memberOf (host : Host Data) (volume : String × String)
    : Except Failure (String × Content Data) :=
  match host.snapshot volume.2 with
  | none => .error (.snapshot volume.1)
  | some data =>
      if host.appends (memberPath volume.1) then .ok (memberPath volume.1, .tarball data)
      else .error (.append (memberPath volume.1))

theorem memberOf_eq_ok {volume : String × String} {entry : String × Content Data}
    : memberOf host volume = .ok entry
      ↔ host.appends (memberPath volume.1) = true
        ∧ ∃ data, host.snapshot volume.2 = some data
          ∧ entry = (memberPath volume.1, .tarball data) := by
  rw [memberOf]
  cases host.snapshot volume.2 with
  | none => simp
  | some data =>
      dsimp only
      split
      case isTrue appends => simp [appends, eq_comm]
      case isFalse refused => simp [refused]

theorem exists_mapM {vols : List (String × String)}
    : (∃ members, vols.mapM (memberOf host) = .ok members)
      ↔ ∀ volume ∈ vols, host.snapshot volume.2 ≠ none
        ∧ host.appends (memberPath volume.1) = true := by
  have single (volume : String × String) : (∃ entry, memberOf host volume = .ok entry)
      ↔ host.snapshot volume.2 ≠ none ∧ host.appends (memberPath volume.1) = true := by
    constructor
    · rintro ⟨entry, made⟩
      obtain ⟨appends, data, packed, -⟩ := memberOf_eq_ok.mp made
      exact ⟨by simp [packed], appends⟩
    · rintro ⟨packed, appends⟩
      obtain ⟨data, packed⟩ := Option.ne_none_iff_exists'.mp packed
      exact ⟨_, memberOf_eq_ok.mpr ⟨appends, data, packed, rfl⟩⟩
  simp only [← single]
  constructor
  · rintro ⟨members, packed⟩ volume member
    obtain ⟨entry, -, is⟩ := exists_of_forall₂_left (mapM_eq_ok.mp packed) member
    exact ⟨entry, is⟩
  · intro all
    cases packed : vols.mapM (memberOf host) with
    | ok members => exact ⟨members, rfl⟩
    | error failure =>
        obtain ⟨front, volume, back, rfl, -, fails⟩ := mapM_eq_error.mp packed
        obtain ⟨entry, made⟩ := all volume (by simp)
        cases made.symm.trans fails

theorem packVolume_eq (host : Host Data) (entries : List (String × Content Data))
    (volume : String × String)
    : packVolume host entries volume
      = (memberOf host volume).map fun entry => entries ++ [entry] := by
  rw [packVolume, memberOf]
  cases host.snapshot volume.2 with
  | none => rfl
  | some data =>
      dsimp only
      rw [appendEntry]
      split
      · rfl
      · rfl

theorem foldlM_packVolume (vols : List (String × String)) (entries : List (String × Content Data))
    : vols.foldlM (packVolume host) entries
      = (vols.mapM (memberOf host)).map fun members => entries ++ members := by
  induction vols generalizing entries with
  | nil => simp [pure, Except.pure, Except.map]
  | cons volume vols ih =>
      rw [List.foldlM_cons, List.mapM_cons, packVolume_eq]
      cases memberOf host volume with
      | error failure => rfl
      | ok entry =>
          refine (ih _).trans ?_
          cases vols.mapM (memberOf host) with
          | error failure => rfl
          | ok members => simp [Except.map, bind, Except.bind, pure, Except.pure]

/-- The members of a group pack each name once, the first volume of it. -/
theorem foldlM_packNew (vols seen : List (String × String))
    (entries : List (String × Content Data))
    : ∃ news, concatNew Prod.fst seen vols = seen ++ news
      ∧ vols.foldlM (packNew host) (seen.map Prod.fst, entries)
        = (news.mapM (memberOf host)).map
          fun members => ((seen ++ news).map Prod.fst, entries ++ members) := by
  induction vols generalizing seen entries with
  | nil => exact ⟨[], (List.append_nil seen).symm, by simp [pure, Except.pure, Except.map]⟩
  | cons volume vols ih =>
      rw [concatNew, List.foldl_cons, ← concatNew, List.foldlM_cons, packNew]
      by_cases known : ∃ e ∈ seen, e.1 = volume.1
      · rw [pushNew_known known, if_pos (by simpa using known)]
        exact ih seen entries
      · have new : ∀ e ∈ seen, e.1 ≠ volume.1 := fun e member same => known ⟨e, member, same⟩
        have unpacked : volume.1 ∉ seen.map Prod.fst := by
          intro member
          obtain ⟨e, inside, same⟩ := List.mem_map.mp member
          exact new e inside same
        rw [pushNew_new new, if_neg unpacked, packVolume_eq]
        cases made : memberOf host volume with
        | error failure =>
            obtain ⟨news, is, -⟩ := ih (seen ++ [volume]) entries
            refine ⟨volume :: news, by rw [is, List.append_assoc, List.singleton_append], ?_⟩
            rw [List.mapM_cons, made]
            rfl
        | ok entry =>
            obtain ⟨news, is, packed⟩ := ih (seen ++ [volume]) (entries ++ [entry])
            refine ⟨volume :: news, by rw [is, List.append_assoc, List.singleton_append], ?_⟩
            rw [List.map_append, List.map_singleton] at packed
            refine packed.trans ?_
            rw [List.mapM_cons, made]
            cases news.mapM (memberOf host) with
            | error failure => rfl
            | ok members => simp [Except.map, bind, Except.bind, pure, Except.pure]

/-- An archive with the volumes that were found, each once, and nothing else among them. -/
structure Packs (host : Host Data) (records : List Container) (picks : List (String × String))
    (archive : Archive Data) : Prop where
  once : (picks.map Prod.fst).Nodup
  picked : ∀ p, p ∈ picks ↔ ∃ c ∈ records, ∃ m ∈ c.mounts, pick host.disk m = some p
  listed : archive.data.volumes = picks.map Prod.fst
  packed : ∀ p ∈ picks, host.snapshot p.2 ≠ none
  holds : ∀ name, archive.at (memberPath name)
    = (picks.filter (·.1 = name)).filterMap fun p => (host.snapshot p.2).map .tarball

theorem Packs.mem_at {picks : List (String × String)} {archive : Archive Data}
    (packs : Packs host records picks archive) {p : String × String} (member : p ∈ picks)
    : ∃ data, host.snapshot p.2 = some data ∧ archive.at (memberPath p.1) = [.tarball data] := by
  obtain ⟨data, packed⟩ := Option.ne_none_iff_exists'.mp (packs.packed p member)
  have alone : picks.filter (·.1 = p.1) = [p] := by
    have keyed := packs.once
    obtain ⟨front, back, rfl⟩ := List.append_of_mem member
    rw [List.map_append, List.map_cons, List.nodup_append] at keyed
    have others (q : String × String) (inside : q ∈ front ∨ q ∈ back) : ¬ q.1 = p.1 := by
      intro same
      rcases inside with left | right
      · exact keyed.2.2 _ (List.mem_map_of_mem left) _ List.mem_cons_self same
      · exact (List.nodup_cons.mp keyed.2.1).1 (same ▸ List.mem_map_of_mem right)
    have left : front.filter (·.1 = p.1) = [] :=
      List.filter_eq_nil_iff.mpr fun q inside => by simpa using others q (.inl inside)
    have right : back.filter (·.1 = p.1) = [] :=
      List.filter_eq_nil_iff.mpr fun q inside => by simpa using others q (.inr inside)
    rw [List.filter_append, List.filter_cons, left, right]
    simp
  exact ⟨data, packed, by rw [packs.holds, alone]; simp [packed]⟩

/-- Whatever is packed, every volume in use is carried exactly when the use is plain. -/
theorem Packs.carries_iff {picks : List (String × String)} {archive : Archive Data}
    (packs : Packs host records picks archive)
    : CarriesVolumes host records archive ↔ Plain host.disk records := by
  constructor
  · intro carries
    have owner {name : String} (some : archive.at (memberPath name) ≠ [])
        : ∃ v ∈ host.disk.listed, v.name = name ∧ Used host.disk records ⟨none, v⟩
          ∧ ∃ c ∈ records, ∃ m ∈ c.mounts, pick host.disk m = .some (v.name, v.mountpoint) := by
      rw [packs.holds] at some
      obtain ⟨content, member⟩ := List.exists_mem_of_ne_nil _ some
      obtain ⟨p, kept, -⟩ := List.mem_filterMap.mp member
      obtain ⟨inPicks, named⟩ := List.mem_filter.mp kept
      obtain ⟨c, inRecords, m, inMounts, picked⟩ := (packs.picked p).mp inPicks
      obtain ⟨v, listed, at_, rfl⟩ := pick_eq_some picked
      exact ⟨v, listed, of_decide_eq_true named,
        ⟨(mem_listed.mp listed).2, c, inRecords, m, inMounts, at_⟩, c, inRecords, m, inMounts,
        picked⟩
    have unscoped : ∀ owned, Used host.disk records owned → owned.ns = none := by
      intro owned used
      obtain ⟨data, -, holds⟩ := carries.packed owned used
      obtain ⟨v, -, named, usedToo, -⟩ := owner (by rw [holds]; simp)
      rw [← carries.separate ⟨none, v⟩ owned usedToo used (congrArg memberPath named)]
    refine ⟨carries.readable, unscoped, ?_⟩
    intro owned other used usedToo same
    -- both are found for their mounts, and the mounts are of one source
    have found (owned : OwnedVolume) (used : Used host.disk records owned)
        : host.disk.listed.find? (·.mountpoint = owned.volume.mountpoint) = some owned.volume := by
      obtain ⟨data, -, holds⟩ := carries.packed owned used
      obtain ⟨v, listed, named, usedToo, c, -, m, -, picked⟩ := owner (by rw [holds]; simp)
      have is := carries.separate ⟨none, v⟩ owned usedToo used (congrArg memberPath named)
      obtain ⟨w, found, pair⟩ := Option.map_eq_some_iff.mp picked
      obtain ⟨listedToo, source⟩ := find?_listed found
      obtain rfl := eq_of_same_name listedToo listed (Prod.mk.inj pair).1
      rw [← is]
      simpa only [source] using found
    have volumes : owned.volume = other.volume := by
      have left := found owned used
      rw [same, found other usedToo] at left
      exact (Option.some.inj left).symm
    have spaces := (unscoped owned used).trans (unscoped other usedToo).symm
    cases owned
    cases other
    exact congr (congrArg _ spaces) volumes
  · intro plain
    have picked (owned : OwnedVolume) (used : Used host.disk records owned)
        : (owned.volume.name, owned.volume.mountpoint) ∈ picks := by
      obtain ⟨has, c, inRecords, m, inMounts, source⟩ := used
      have listed : owned.volume ∈ host.disk.listed := by
        refine mem_listed.mpr ⟨plain.readable.opens, ?_⟩
        rw [← plain.unscoped owned ⟨has, c, inRecords, m, inMounts, source⟩]
        exact has
      obtain ⟨v, found⟩ := exists_find?_listed listed
      rw [source] at found
      obtain ⟨listedToo, at_⟩ := find?_listed found
      have hasToo := (mem_listed.mp listedToo).2
      have is := plain.apart ⟨none, v⟩ owned ⟨hasToo, c, inRecords, m, inMounts, at_⟩
        ⟨has, c, inRecords, m, inMounts, source⟩ (at_.trans source.symm)
      refine (packs.picked _).mpr ⟨c, inRecords, m, inMounts, ?_⟩
      rw [pick, found, ← is]
      rfl
    refine ⟨plain.readable, ?_, ?_, ?_⟩
    · exact fun owned used => packs.mem_at (picked owned used)
    · intro owned used
      rw [packs.listed]
      exact List.mem_map_of_mem (picked owned used)
    · intro owned other used usedToo same
      have names := memberPath_inj same
      refine plain.apart owned other used usedToo ?_
      have twice := List.inj_on_of_nodup_map packs.once (picked owned used) (picked other usedToo)
        names
      exact (Prod.mk.inj twice).2

-----------------------------------------------------------------------------------------
-- The two kinds of archive
-----------------------------------------------------------------------------------------

theorem appendEntry_eq_ok {entries out : List (String × Content Data)} {path : String}
    {content : Content Data}
    : appendEntry host entries path content = .ok out
      ↔ host.appends path = true ∧ out = entries ++ [(path, content)] := by
  rw [appendEntry]
  cases host.appends path with
  | false => simp
  | true => simp [eq_comm]

theorem require_eq_ok {made : Bool} {failure : Failure}
    : require made failure = .ok () ↔ made = true := by
  cases made <;> simp [require]

theorem hold_eq_ok : hold host stop = .ok () ↔ (stop = true → host.stops = true) := by
  rw [hold, require_eq_ok]
  cases stop <;> simp

theorem not_memberPath {path name : String} (outside : path.toList.head? ≠ some 'v')
    : path ≠ memberPath name := by
  rintro rfl
  apply outside
  simp [memberPath]

/-- The entries of the volumes are at their paths, and what is around them is not. -/
theorem at_of_packed {picks : List (String × String)} {members : List (String × Content Data)}
    (packed : picks.mapM (memberOf host) = .ok members)
    {front back : List (String × Content Data)}
    (before : ∀ entry ∈ front, entry.1.toList.head? ≠ some 'v')
    (behind : ∀ entry ∈ back, entry.1.toList.head? ≠ some 'v') (data : Meta) (name : String)
    : Archive.at ⟨data, front ++ members ++ back⟩ (memberPath name)
      = (picks.filter (·.1 = name)).filterMap fun p => (host.snapshot p.2).map .tarball := by
  have none {entries : List (String × Content Data)}
      (outside : ∀ entry ∈ entries, entry.1.toList.head? ≠ some 'v')
      : entries.filter (·.1 = memberPath name) = [] := by
    refine List.filter_eq_nil_iff.mpr fun entry member => ?_
    simpa using not_memberPath (outside entry member)
  rw [Archive.at, List.filter_append, List.filter_append, none before, none behind,
    List.nil_append, List.append_nil]
  have all := mapM_eq_ok.mp packed
  clear packed before behind
  induction all with
  | nil => rfl
  | @cons volume entry picks members made _ ih =>
      obtain ⟨-, data, snapshot, rfl⟩ := memberOf_eq_ok.mp made
      have same : memberPath volume.1 = memberPath name ↔ volume.1 = name :=
        ⟨memberPath_inj, congrArg memberPath⟩
      rw [List.filter_cons, List.filter_cons]
      by_cases named : volume.1 = name
      · simp only [named, decide_true, if_true, List.map_cons, ih, List.filterMap_cons, snapshot,
          Option.map_some]
      · simp only [same, named, decide_false, Bool.false_eq_true, if_false, ih]

theorem head_configPath (name : String) : (configPath name).toList.head? = some 'c' := by
  unfold configPath
  rw [String.append_assoc]
  simp

/-- The paths of what an archive has besides volumes. -/
def containerPaths : List String := ["backup.json", "config/container.json"]

def groupPaths (records : List Container) : List String :=
  "backup.json" :: records.map fun c => configPath c.name

/-- The front of a container's archive. -/
def containerFront (host : Host Data) (c : Container) : Meta × List (String × Content Data) :=
  let data : Meta := ⟨.container, c.name, (volumesOf host.disk c.mounts).map Prod.fst, []⟩
  (data, [("backup.json", .info data), ("config/container.json", .record c)])

theorem writeContainerArchive_eq_ok {c : Container} {archive : Archive Data}
    : writeContainerArchive host stop c = .ok archive
      ↔ host.creates = true ∧ (∀ path ∈ containerPaths, host.appends path = true)
        ∧ (stop = true → host.stops = true) ∧ host.closes = true
        ∧ ∃ members, (volumesOf host.disk c.mounts).mapM (memberOf host) = .ok members
          ∧ archive
            = ⟨(containerFront host c).1, (containerFront host c).2 ++ members ++ []⟩ := by
  simp only [writeContainerArchive, bind_eq_ok, exists_unit, require_eq_ok, appendEntry_eq_ok,
    hold_eq_ok, foldlM_packVolume, map_eq_ok, containerPaths, List.forall_mem_cons,
    List.append_nil]
  constructor
  · rintro ⟨creates, _, ⟨info, rfl⟩, _, ⟨record, rfl⟩, held, _, ⟨members, packed, rfl⟩, closes, is⟩
    exact ⟨creates, ⟨info, record, by simp⟩, held, closes, members, packed,
      (Except.ok.inj is).symm⟩
  · rintro ⟨creates, ⟨info, record, -⟩, held, closes, members, packed, rfl⟩
    exact ⟨creates, _, ⟨info, rfl⟩, _, ⟨record, rfl⟩, held, _, ⟨members, packed, rfl⟩, closes, rfl⟩

theorem forall_volumesOf {mounts : List Mount}
    : (∀ volume ∈ volumesOf host.disk mounts, host.snapshot volume.2 ≠ none
        ∧ host.appends (memberPath volume.1) = true)
      ↔ ∀ m ∈ mounts, ∀ v, host.disk.listed.find? (·.mountpoint = m.source) = some v →
        host.snapshot v.mountpoint ≠ none ∧ host.appends (memberPath v.name) = true := by
  simp only [mem_volumesOf]
  constructor
  · exact fun all m member v found => all (v.name, v.mountpoint)
      ⟨m, member, by rw [pick, found, Option.map_some]⟩
  · intro all p ⟨m, member, picked⟩
    obtain ⟨v, found, rfl⟩ := Option.map_eq_some_iff.mp picked
    exact all m member v found

theorem container_writable {c : Container}
    : (∃ archive, writeContainerArchive host stop c = .ok archive)
      ↔ Writable host stop [c] containerPaths := by
  simp only [writeContainerArchive_eq_ok]
  constructor
  · rintro ⟨_, creates, entries, held, closes, members, packed, -⟩
    refine ⟨creates, held, closes, entries, List.forall_mem_singleton.mpr ?_⟩
    exact forall_volumesOf.mp (exists_mapM.mp ⟨members, packed⟩)
  · intro writable
    have all := writable.volumes c (List.mem_singleton_self c)
    obtain ⟨members, packed⟩ := exists_mapM.mpr (forall_volumesOf.mpr all)
    exact ⟨_, writable.creates, writable.entries, writable.stops, writable.closes, members, packed,
      rfl⟩

theorem container_packs {c : Container} {archive : Archive Data}
    (written : writeContainerArchive host stop c = .ok archive)
    : Packs host [c] (volumesOf host.disk c.mounts) archive := by
  obtain ⟨-, -, -, -, members, packed, rfl⟩ := writeContainerArchive_eq_ok.mp written
  refine ⟨nodup_volumesOf .., fun p => by simp [mem_volumesOf], rfl, ?_, ?_⟩
  · exact fun p member => (exists_mapM.mp ⟨members, packed⟩ p member).1
  · exact at_of_packed packed (by simp [containerFront]) (by simp) _

/-- The volumes of a group: those of its containers, a name once. -/
def groupVolumes (host : Host Data) (records : List Container) : List (String × String) :=
  concatNew Prod.fst [] (records.flatMap fun c => volumesOf host.disk c.mounts)

theorem mem_groupVolumes {p : String × String}
    : p ∈ groupVolumes host records ↔ ∃ c ∈ records, ∃ m ∈ c.mounts, pick host.disk m = some p := by
  simp only [← mem_volumesOf]
  rw [groupVolumes]
  obtain ⟨news, is, all⟩ := @concatNew_eq_append (String × String) String _ Prod.fst []
    (records.flatMap fun c => volumesOf host.disk c.mounts)
  constructor
  · intro member
    rw [is, List.nil_append] at member
    exact List.mem_flatMap.mp (all p member)
  · intro member
    obtain ⟨e, kept, same⟩ : ∃ e ∈ concatNew Prod.fst []
        (records.flatMap fun c => volumesOf host.disk c.mounts), e.1 = p.1 :=
      mem_keys_concatNew.mpr (.inr ⟨p, List.mem_flatMap.mpr member, rfl⟩)
    obtain ⟨c, -, inVolumes⟩ := member
    obtain ⟨c', -, inVolumes'⟩ : ∃ c' ∈ records, e ∈ volumesOf host.disk c'.mounts := by
      rw [is, List.nil_append] at kept
      exact List.mem_flatMap.mp (all e kept)
    obtain ⟨m, -, picked⟩ := mem_volumesOf.mp inVolumes
    obtain ⟨m', -, picked'⟩ := mem_volumesOf.mp inVolumes'
    obtain ⟨v, left, -, rfl⟩ := pick_eq_some picked
    obtain ⟨w, right, -, rfl⟩ := pick_eq_some picked'
    obtain rfl := eq_of_same_name right left same
    exact kept

/-- The loop over the containers packs the volumes of the group. -/
theorem pack_group (records : List Container)
    : records.foldlM
        (fun state c => (volumesOf host.disk c.mounts).foldlM (packNew host) state) ([], [])
      = ((groupVolumes host records).mapM (memberOf host)).map
        fun members => ((groupVolumes host records).map Prod.fst, members) := by
  have flat (state : List String × List (String × Content Data))
      : records.foldlM
          (fun state c => (volumesOf host.disk c.mounts).foldlM (packNew host) state) state
        = (records.flatMap fun c => volumesOf host.disk c.mounts).foldlM (packNew host) state := by
    induction records generalizing state with
    | nil => rfl
    | cons c records ih =>
        rw [List.foldlM_cons, List.flatMap_cons, List.foldlM_append]
        exact congrArg _ (funext ih)
  obtain ⟨news, is, packed⟩ := foldlM_packNew
    (records.flatMap fun c => volumesOf host.disk c.mounts) [] ([] : List (String × Content Data))
  rw [flat]
  refine packed.trans ?_
  rw [List.nil_append] at is
  simp only [is, groupVolumes, List.nil_append]

theorem foldlM_records {entries out : List (String × Content Data)}
    : records.foldlM
        (fun entries c => appendEntry host entries (configPath c.name) (.record c)) entries
        = .ok out
      ↔ (∀ c ∈ records, host.appends (configPath c.name) = true)
        ∧ out = entries ++ records.map fun c => (configPath c.name, .record c) := by
  induction records generalizing entries with
  | nil =>
      rw [List.foldlM_nil, List.map_nil, List.append_nil]
      exact ⟨fun ran => ⟨by simp, (Except.ok.inj ran).symm⟩, fun ⟨_, is⟩ => congrArg _ is.symm⟩
  | cons c records ih =>
      rw [List.foldlM_cons, bind_eq_ok]
      simp only [appendEntry_eq_ok, ih]
      constructor
      · rintro ⟨_, ⟨first, rfl⟩, rest, rfl⟩
        exact ⟨List.forall_mem_cons.mpr ⟨first, rest⟩, by simp⟩
      · rintro ⟨all, rfl⟩
        obtain ⟨first, rest⟩ := List.forall_mem_cons.mp all
        exact ⟨_, ⟨first, rfl⟩, rest, by simp⟩

/-- The containers of a group, as they are found by name. -/
def groupRecords (host : Host Data) (kind : Kind) (name : String)
    : Except Failure (List Container) := do
  let members ← groupMembers host kind name
  members.mapM host.find

theorem writeGroupArchive_eq_ok {kind : Kind} {name : String} {archive : Archive Data}
    (found : groupRecords host kind name = .ok records)
    : writeGroupArchive host stop kind name = .ok archive
      ↔ host.creates = true ∧ (∀ path ∈ groupPaths records, host.appends path = true)
        ∧ (stop = true → host.stops = true) ∧ host.closes = true
        ∧ ∃ members listed, (groupVolumes host records).mapM (memberOf host) = .ok members
          ∧ groupMembers host kind name = .ok listed
          ∧ archive = ⟨⟨kind, name, (groupVolumes host records).map Prod.fst, listed⟩,
            [] ++ members ++ ("backup.json", .info ⟨kind, name,
                (groupVolumes host records).map Prod.fst, listed⟩)
              :: records.map fun c => (configPath c.name, .record c)⟩ := by
  obtain ⟨listed, members, records'⟩ := bind_eq_ok.mp found
  simp only [writeGroupArchive, members, bind_eq_ok, exists_unit, require_eq_ok,
    appendEntry_eq_ok, hold_eq_ok, pack_group, map_eq_ok, foldlM_records, groupPaths,
    List.forall_mem_cons, List.forall_mem_map, Except.ok.injEq]
  constructor
  · rintro ⟨_, rfl, creates, _, found', held, _, ⟨packs, packed, rfl⟩, _, ⟨info, rfl⟩, _,
      ⟨entries, rfl⟩, closes, is⟩
    cases records'.symm.trans found'
    refine ⟨creates, ⟨info, entries⟩, held, closes, packs, _, packed, rfl, ?_⟩
    rw [← Except.ok.inj is]
    simp
  · rintro ⟨creates, ⟨info, entries⟩, held, closes, packs, _, packed, rfl, rfl⟩
    refine ⟨_, rfl, creates, _, records', held, _, ⟨packs, packed, rfl⟩, _, ⟨info, rfl⟩, _,
      ⟨entries, rfl⟩, closes, ?_⟩
    simp [pure, Except.pure]

theorem group_writable {kind : Kind} {name : String}
    (found : groupRecords host kind name = .ok records)
    : (∃ archive, writeGroupArchive host stop kind name = .ok archive)
      ↔ Writable host stop records (groupPaths records) := by
  obtain ⟨listed, members, -⟩ := bind_eq_ok.mp found
  have volumes : (∃ members, (groupVolumes host records).mapM (memberOf host) = .ok members)
      ↔ ∀ c ∈ records, ∀ m ∈ c.mounts, ∀ v,
        host.disk.listed.find? (·.mountpoint = m.source) = some v →
          host.snapshot v.mountpoint ≠ none ∧ host.appends (memberPath v.name) = true := by
    simp only [exists_mapM, mem_groupVolumes, ← forall_volumesOf, mem_volumesOf]
    constructor
    · exact fun all c inRecords volume inVolumes => all volume ⟨c, inRecords, inVolumes⟩
    · exact fun all volume ⟨c, inRecords, inVolumes⟩ => all c inRecords volume inVolumes
  simp only [writeGroupArchive_eq_ok found]
  constructor
  · rintro ⟨_, creates, entries, held, closes, members, _, packed, -⟩
    exact ⟨creates, held, closes, entries, volumes.mp ⟨members, packed⟩⟩
  · intro writable
    obtain ⟨packs, packed⟩ := volumes.mpr writable.volumes
    exact ⟨_, writable.creates, writable.entries, writable.stops, writable.closes, packs, listed,
      packed, members, rfl⟩

theorem group_packs {kind : Kind} {name : String} {archive : Archive Data}
    (found : groupRecords host kind name = .ok records)
    (written : writeGroupArchive host stop kind name = .ok archive)
    : Packs host records (groupVolumes host records) archive := by
  obtain ⟨-, -, -, -, members, listed, packed, -, rfl⟩ :=
    (writeGroupArchive_eq_ok found).mp written
  refine ⟨nodup_concatNew (by simp) _, fun p => mem_groupVolumes, rfl, ?_, ?_⟩
  · exact fun p member => (exists_mapM.mp ⟨members, packed⟩ p member).1
  · refine at_of_packed packed (by simp) ?_ _
    intro entry member
    obtain rfl | member := List.mem_cons.mp member
    · simp
    · obtain ⟨c, -, rfl⟩ := List.mem_map.mp member
      simp [head_configPath]

/-- A backup that is written carries every volume in use, under a path of its own, exactly when some
step besides the listing of the store fails, or the store can be read and what is used of it is
plain.
-/
theorem carriesVolumes_iff (host : Host Data) (stop : Bool)
    : (∀ c, (∀ archive, writeContainerArchive host stop c = .ok archive →
          CarriesVolumes host [c] archive)
        ↔ (Writable host stop [c] containerPaths → Plain host.disk [c]))
      ∧ ∀ kind name,
        (∀ records archive, groupRecords host kind name = .ok records →
          writeGroupArchive host stop kind name = .ok archive →
            CarriesVolumes host records archive)
        ↔ ∀ records, groupRecords host kind name = .ok records →
          Writable host stop records (groupPaths records) → Plain host.disk records := by
  constructor
  · intro c
    constructor
    · intro carries writable
      obtain ⟨archive, written⟩ := container_writable.mpr writable
      exact (container_packs written).carries_iff.mp (carries archive written)
    · intro plain archive written
      exact (container_packs written).carries_iff.mpr
        (plain (container_writable.mp ⟨archive, written⟩))
  · intro kind name
    constructor
    · intro carries records found writable
      obtain ⟨archive, written⟩ := (group_writable found).mpr writable
      exact (group_packs found written).carries_iff.mp (carries records archive found written)
    · intro plain records archive found written
      exact (group_packs found written).carries_iff.mpr
        (plain records found ((group_writable found).mp ⟨archive, written⟩))

/-- One volume of a namespace, and a root without any. -/
def tenantVolume : Volume :=
  ⟨"data", "/v/acme/data/_data", 0, "local", none, none, none, none, [], [], none, none⟩

def tenantHost : Host Unit where
  disk := {
    opens := true
    store := {
      root := some ⟨[], List.nodup_nil⟩
      nsDir := .listed [.namespace "acme" (.records ⟨[tenantVolume], List.nodup_singleton _⟩)]
        (List.nodup_singleton _)
      unread := []
    }
  }
  containers := some []
  find q := .error (.container q)
  snapshot _ := some ()
  creates := true
  stops := true
  appends _ := true
  closes := true

def tenantContainer : Container :=
  ⟨"db", [], [⟨"/v/acme/data/_data", "/var/lib/db", false, none⟩], ""⟩

/-- The volume of a namespace is left out of the backup of the container that mounts it. -/
theorem tenant_volume_left_out
    : ∃ archive, writeContainerArchive tenantHost false tenantContainer = .ok archive
      ∧ ¬ CarriesVolumes tenantHost [tenantContainer] archive := by
  refine ⟨_, rfl, fun carries => ?_⟩
  have used : Used tenantHost.disk [tenantContainer] ⟨some "acme", tenantVolume⟩ := by
    refine ⟨.inr ⟨"acme", ⟨[tenantVolume], List.nodup_singleton _⟩, rfl, ?_, ?_⟩, ?_⟩
    · exact List.mem_singleton_self _
    · exact List.mem_singleton_self _
    · exact ⟨tenantContainer, List.mem_singleton_self _, _, List.mem_singleton_self _, rfl⟩
  exact List.not_mem_nil (carries.listed _ used)

end Delonix.Backup.Archives
