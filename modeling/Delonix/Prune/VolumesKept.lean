import Delonix.Library.Checks
import Delonix.Library.Collections
import Delonix.Prune.Volumes

/-! What a prune may not take. Where everything could be read, a volume is taken only when no
container and no other volume needs it; where the registry, a namespace or a record could not be
read, the code goes on as if nothing were there.
-/

namespace Delonix.Prune

open Delonix.Library.Checks Delonix.Library.Collections Delonix.Library.Sorting Delonix.Volumes

/-- One path is a directory above the other. -/
def Above (upper lower : String) : Prop :=
  startsWith lower upper = true ∧ pathParts upper ≠ pathParts lower

def Records.owned (ns : Option String) (records : Records) : List OwnedVolume :=
  records.all.map (OwnedVolume.mk ns)

def Namespace.owned (name : String) : Namespace → List OwnedVolume
  | .records all => all.owned (some name)
  | .unopened | .unlisted => []

def NsDir.owned : NsDir → List OwnedVolume
  | .absent | .unreadable => []
  | .listed entries _ =>
      (entries.filterMap NsEntry.named).flatMap fun ns => ns.2.owned ns.1

/-- Every volume record there is. -/
def Store.volumes (store : Store) : List OwnedVolume :=
  (match store.root with
    | some records => records.owned none
    | none => []) ++ store.nsDir.owned

/-- Nothing needs the volume, and it is one a prune is for. -/
structure Spare (store : Store) (containers : List Container) (scope : Scope) (v : VolumeFacts)
    : Prop where
  inScope : scope.covers v.ns = true
  unreferenced : ∀ c ∈ containers, ∀ source ∈ c.sources, startsWith source v.mountpoint = false
  apart : ∀ o ∈ store.volumes,
    ¬ Above o.volume.mountpoint v.mountpoint ∧ ¬ Above v.mountpoint o.volume.mountpoint
  isLocal : isNetworkDriver v.driver = false
  unprovisioned : v.provisioned = false
  unpooled : v.pool = none

def Namespace.readable : Namespace → Bool
  | .records _ => true
  | .unopened | .unlisted => false

def NsEntry.readable : NsEntry → Bool
  | .namespace _ ns => ns.readable
  | .file => true
  | .unreadable => false

def NsDir.readable : NsDir → Bool
  | .absent => true
  | .unreadable => false
  | .listed entries _ => entries.all NsEntry.readable

/-- The container registry and every namespace can be read, and each of their records. -/
structure Readable (store : Store) (registry : Registry) : Prop where
  registry : ∃ containers, registry = some containers ∧ containers.unread = []
  root : store.root.isSome = true
  namespaces : store.nsDir.readable = true
  records : store.unread = []

/-- Only spare volumes are taken, and none where something could not be read. -/
structure Careful (store : Store) (registry : Registry) (scope : Scope) : Prop where
  spare : ∀ v ∈ taken store registry scope, Spare store (containersOf registry) scope v
  closed : ¬ Readable store registry → taken store registry scope = []

/-- What the walk over the store sees. -/
def walked (store : Store) : List OwnedVolume := (listAll store).toOption.getD []

/-- The facts of a volume that is looked up in its own store. -/
def plainFacts (registry : Registry) (scope : Scope) (owned : OwnedVolume) : VolumeFacts where
  name := owned.volume.name
  ns := owned.ns
  mountpoint := owned.volume.mountpoint
  driver := owned.volume.driver
  provisioned := owned.volume.annotations.any fun pair => pair.1 == provenanceAnnotation
  referenced :=
    scope.covers owned.ns && (containersOf registry).any fun c => c.uses owned.volume.mountpoint
  pool := owned.volume.pool
  inScope := scope.covers owned.ns

theorem inspect_mem {records : Records} {v : Volume} (member : v ∈ records.all)
    : inspect (some records) v.name = some v :=
  find?_key records.named member

theorem mem_namespaces {entries : List NsEntry}
    {named : ((entries.filterMap NsEntry.named).map (·.1)).Nodup} {ns : String × Namespace}
    : ns ∈ (NsDir.listed entries named).namespaces ↔ ns ∈ entries.filterMap NsEntry.named :=
  (perm_sortByKey _).mem_iff

theorem namespaces_nodup (nsDir : NsDir) : (nsDir.namespaces.map (·.1)).Nodup := by
  cases nsDir with
  | absent | unreadable => exact List.nodup_nil
  | listed entries named => exact ((perm_sortByKey _).map _).nodup_iff.mpr named

theorem list_eq_ok {records : Option Records} {vols : List Volume} (is : list records = .ok vols)
    : ∃ all, records = some all ∧ vols.Perm all.all := by
  cases records with
  | none => cases is
  | some all =>
      cases is
      exact ⟨all, rfl, perm_sortByKey _⟩

theorem ownedBy_eq_ok {ns : String × Namespace} {owned : List OwnedVolume}
    (is : ownedBy ns = .ok owned)
    : ∃ records, ns.2 = .records records
      ∧ ∀ o, o ∈ owned ↔ o.ns = some ns.1 ∧ o.volume ∈ records.all := by
  obtain ⟨vols, listed, made⟩ := bind_eq_ok.mp is
  cases made
  cases space : ns.2 with
  | unopened | unlisted => simp [scopedList, space, list] at listed
  | records records =>
      rw [space] at listed
      have listed : list (some records) = .ok vols := listed
      obtain ⟨all, same, perm⟩ := list_eq_ok listed
      cases same
      refine ⟨records, rfl, fun o => ?_⟩
      obtain ⟨owner, v⟩ := o
      simp [perm.mem_iff, and_comm, eq_comm]

/-- A volume of the walk is found again where it lives. -/
theorem inspect_home {store : Store} {all : List OwnedVolume} (listed : listAll store = .ok all)
    {owned : OwnedVolume} (member : owned ∈ all)
    : ∃ home, homeOf store owned.ns true = .ok home
      ∧ inspect home owned.volume.name = some owned.volume := by
  obtain ⟨root, rootListed, rest⟩ := bind_eq_ok.mp listed
  obtain ⟨spaces, spacesListed, made⟩ := bind_eq_ok.mp rest
  cases made
  rcases List.mem_append.mp member with inRoot | inSpace
  · obtain ⟨v, isRoot, rfl⟩ := List.mem_map.mp inRoot
    obtain ⟨records, is, perm⟩ := list_eq_ok rootListed
    refine ⟨store.root, rfl, ?_⟩
    rw [is]
    exact inspect_mem (perm.mem_iff.mp isRoot)
  · obtain ⟨owneds, isSpace, isOwned⟩ := List.mem_flatten.mp inSpace
    obtain ⟨ns, inDir, made⟩ := exists_of_forall₂_right (mapM_eq_ok.mp spacesListed) isSpace
    obtain ⟨records, space, mem⟩ := ownedBy_eq_ok made
    obtain ⟨owner, inRecords⟩ := (mem owned).mp isOwned
    refine ⟨some records, ?_, inspect_mem inRecords⟩
    have found : store.nsDir.namespaces.find? (·.1 = ns.1) = some ns :=
      find?_key (namespaces_nodup store.nsDir) inDir
    obtain ⟨name, space'⟩ := ns
    cases space
    simp only [homeOf, owner, if_true, found]

theorem factsOf_eq {store : Store} {registry : Registry} {scope : Scope} {all : List OwnedVolume}
    (listed : listAll store = .ok all) {owned : OwnedVolume} (member : owned ∈ all)
    : factsOf store registry scope owned = .ok (plainFacts registry scope owned) := by
  cases inScope : scope.covers owned.ns
  case false =>
    have home : homeOf store owned.ns false = .ok store.root := by
      cases owned.ns <;> rfl
    simp only [factsOf, inScope, home, plainFacts, Bool.false_and]
    rfl
  case true =>
    obtain ⟨home, is, found⟩ := inspect_home listed member
    have containers : (!(volumeRefs store registry home owned.volume.name).containers.isEmpty)
        = (containersOf registry).any fun c => c.uses owned.volume.mountpoint := by
      rw [volumeRefs, found, Bool.eq_iff_iff, Bool.not_eq_true', List.isEmpty_eq_false_iff,
        ne_eq, List.map_eq_nil_iff, List.filter_eq_nil_iff, List.any_eq_true]
      push Not
      rfl
    simp only [factsOf, inScope, is, plainFacts, Bool.true_and, ← containers]
    rfl

theorem volumeFacts_eq {store : Store} {registry : Registry} {scope : Scope}
    {all : List OwnedVolume} (listed : listAll store = .ok all)
    : volumeFacts store registry scope = .ok (all.map (plainFacts registry scope)) := by
  rw [volumeFacts, listed]
  refine mapM_eq_ok.mpr ?_
  rw [List.forall₂_map_right_iff, List.forall₂_same]
  exact fun owned member => factsOf_eq listed member

theorem keepReason_eq_none {vols : List VolumeFacts} {v : VolumeFacts}
    : keepReason vols v = none ↔ v.referenced = false ∧ parentOf vols v = none
      ∧ childrenOf vols v = [] ∧ v.pool = none ∧ v.provisioned = false
      ∧ isNetworkDriver v.driver = false := by
  rw [keepReason]
  cases v.referenced <;> cases parentOf vols v <;> cases childrenOf vols v <;> cases v.pool
    <;> cases v.provisioned <;> cases isNetworkDriver v.driver <;> simp

/-- One of two volumes lies under the other, which is told by another mountpoint. -/
def Related (o v : String) : Prop :=
  o ≠ v ∧ (startsWith v o = true ∨ startsWith o v = true)

/-- A volume in scope of which no reader found a reason to keep it. -/
structure Prunable (store : Store) (registry : Registry) (scope : Scope) (owned : OwnedVolume)
    : Prop where
  inScope : scope.covers owned.ns = true
  unreferenced : ∀ c ∈ containersOf registry, c.uses owned.volume.mountpoint = false
  apart : ∀ o ∈ walked store, ¬ Related o.volume.mountpoint owned.volume.mountpoint
  unpooled : owned.volume.pool = none
  unprovisioned : ∀ pair ∈ owned.volume.annotations, pair.1 ≠ provenanceAnnotation
  isLocal : isNetworkDriver owned.volume.driver = false

theorem apart_iff (registry : Registry) (scope : Scope) {all : List OwnedVolume}
    {owned : OwnedVolume}
    : (parentOf (all.map (plainFacts registry scope)) (plainFacts registry scope owned) = none
        ∧ childrenOf (all.map (plainFacts registry scope)) (plainFacts registry scope owned) = [])
      ↔ ∀ o ∈ all, ¬ Related o.volume.mountpoint owned.volume.mountpoint := by
  simp only [parentOf, childrenOf, List.find?_eq_none, List.filter_eq_nil_iff,
    List.forall_mem_map, plainFacts, Bool.and_eq_true, not_and, Related, not_or,
    Bool.not_eq_true]
  constructor
  · rintro ⟨noParent, noChild⟩ o member differ
    exact ⟨noParent o member (decide_eq_true differ), noChild o member (decide_eq_true differ)⟩
  · intro apart
    exact ⟨fun o member differ => (apart o member (of_decide_eq_true differ)).1,
      fun o member differ => (apart o member (of_decide_eq_true differ)).2⟩

theorem mem_taken {store : Store} {registry : Registry} {scope : Scope} {v : VolumeFacts}
    : v ∈ taken store registry scope ↔ ∃ owned ∈ walked store,
        Prunable store registry scope owned ∧ v = plainFacts registry scope owned := by
  cases listed : listAll store with
  | error e =>
      have failed : volumeFacts store registry scope = .error e := by
        rw [volumeFacts, listed]
        rfl
      simp [taken, failed, walked, listed, Except.toOption]
  | ok all =>
      have seen : walked store = all := by simp [walked, listed, Except.toOption]
      simp only [taken, volumeFacts_eq listed, classifyVolumes, List.mem_filter, seen,
        Option.isNone_iff_eq_none, List.mem_map]
      constructor
      · rintro ⟨⟨⟨owned, member, rfl⟩, inScope⟩, kept⟩
        obtain ⟨unreferenced, noParent, noChild, unpooled, unprovisioned, isLocal⟩ :=
          keepReason_eq_none.mp kept
        refine ⟨owned, member, ?_, rfl⟩
        refine
          { inScope := inScope
            unreferenced := ?_
            apart := seen ▸ (apart_iff registry scope).mp ⟨noParent, noChild⟩
            unpooled := unpooled
            unprovisioned := by simpa [plainFacts] using unprovisioned
            isLocal := isLocal }
        have covered : scope.covers owned.ns = true := inScope
        simpa [plainFacts, covered] using unreferenced
      · rintro ⟨owned, member, prunable, rfl⟩
        refine ⟨⟨⟨owned, member, rfl⟩, prunable.inScope⟩, keepReason_eq_none.mpr ?_⟩
        obtain ⟨noParent, noChild⟩ :=
          (apart_iff registry scope).mpr (seen ▸ prunable.apart)
        refine ⟨?_, noParent, noChild, prunable.unpooled, ?_, prunable.isLocal⟩
        · simpa [plainFacts] using fun _ => prunable.unreferenced
        · simpa [plainFacts] using prunable.unprovisioned

/-- What a namespace that can be read adds to the walk. -/
def ownedIn (ns : String × Namespace) : List OwnedVolume :=
  match ns.2 with
  | .records records =>
      (sortByKey (fun v : Volume => OrderDual.toDual v.createdUnix) records.all).map
        (OwnedVolume.mk (some ns.1))
  | .unopened | .unlisted => []

theorem ownedBy_readable {ns : String × Namespace} (readable : ns.2.readable = true)
    : ownedBy ns = .ok (ownedIn ns) := by
  obtain ⟨name, space⟩ := ns
  cases space with
  | unopened | unlisted => cases readable
  | records records => rfl

theorem mem_ownedIn {ns : String × Namespace} {owned : OwnedVolume}
    (member : owned ∈ ns.2.owned ns.1)
    : owned ∈ ownedIn ns := by
  obtain ⟨name, space⟩ := ns
  cases space with
  | unopened | unlisted => cases member
  | records records =>
      obtain ⟨v, inRecords, rfl⟩ := List.mem_map.mp member
      exact List.mem_map_of_mem ((perm_sortByKey _).mem_iff.mpr inRecords)

theorem readable_namespaces {nsDir : NsDir} (readable : nsDir.readable = true)
    : ∀ ns ∈ nsDir.namespaces, ns.2.readable = true := by
  cases nsDir with
  | absent => exact fun _ => nofun
  | unreadable => cases readable
  | listed entries named =>
      intro ns member
      obtain ⟨entry, inDir, is⟩ := List.mem_filterMap.mp (mem_namespaces.mp member)
      have all := List.all_eq_true.mp readable entry inDir
      cases entry with
      | file | unreadable => cases is
      | «namespace» name space =>
          cases is
          exact all

theorem mem_walked {store : Store} {registry : Registry} (readable : Readable store registry)
    {owned : OwnedVolume} (member : owned ∈ store.volumes)
    : owned ∈ walked store := by
  obtain ⟨-, rootReadable, nsReadable, -⟩ := readable
  obtain ⟨root, isRoot⟩ := Option.isSome_iff_exists.mp rootReadable
  have spaces : store.nsDir.namespaces.mapM ownedBy
      = .ok (store.nsDir.namespaces.map ownedIn) := by
    refine mapM_eq_ok.mpr ?_
    rw [List.forall₂_map_right_iff, List.forall₂_same]
    exact fun ns inDir => ownedBy_readable (readable_namespaces nsReadable ns inDir)
  have listed : listAll store = .ok
      ((sortByKey (fun v : Volume => OrderDual.toDual v.createdUnix) root.all).map
          (OwnedVolume.mk none)
        ++ (store.nsDir.namespaces.map ownedIn).flatten) := by
    rw [listAll, isRoot, spaces]
    rfl
  simp only [walked, listed, Except.toOption, Option.getD_some]
  simp only [Store.volumes, isRoot] at member
  rcases List.mem_append.mp member with inRoot | inSpace
  · obtain ⟨v, inRecords, rfl⟩ := List.mem_map.mp inRoot
    exact List.mem_append_left _
      (List.mem_map_of_mem ((perm_sortByKey _).mem_iff.mpr inRecords))
  · refine List.mem_append_right _ (List.mem_flatten.mpr ?_)
    cases dir : store.nsDir with
    | absent | unreadable =>
        rw [dir] at inSpace
        cases inSpace
    | listed entries named =>
        rw [dir] at inSpace
        obtain ⟨ns, inDir, isOwned⟩ := List.mem_flatMap.mp inSpace
        exact ⟨ownedIn ns, List.mem_map_of_mem (mem_namespaces.mpr inDir), mem_ownedIn isOwned⟩

theorem related_of_above {upper lower : String} (above : Above upper lower)
    : Related upper lower ∧ Related lower upper := by
  have differ : upper ≠ lower := by
    rintro rfl
    exact above.2 rfl
  exact ⟨⟨differ, .inl above.1⟩, ⟨differ.symm, .inr above.1⟩⟩

/-- A prune takes spare volumes only, and none where it could not read everything, just when it
could, or no volume it saw was there for the taking.
-/
theorem prune_careful (store : Store) (registry : Registry) (scope : Scope)
    : Careful store registry scope ↔ Readable store registry
      ∨ ∀ owned ∈ walked store, ¬ Prunable store registry scope owned := by
  constructor
  · intro careful
    refine or_iff_not_imp_left.mpr fun unreadable owned member prunable => ?_
    have gone := mem_taken.mpr ⟨owned, member, prunable, rfl⟩
    rw [careful.closed unreadable] at gone
    cases gone
  · intro holds
    refine ⟨?_, ?_⟩
    · intro v inTaken
      obtain ⟨owned, member, prunable, rfl⟩ := mem_taken.mp inTaken
      have readable := holds.resolve_right fun none => none owned member prunable
      refine
        { inScope := prunable.inScope
          unreferenced := ?_
          apart := ?_
          isLocal := prunable.isLocal
          unprovisioned := by simpa [plainFacts] using prunable.unprovisioned
          unpooled := prunable.unpooled }
      · intro c inRegistry source inSources
        have unused := prunable.unreferenced c inRegistry
        rw [Container.uses, List.any_eq_false] at unused
        exact Bool.eq_false_iff.mpr (unused source inSources)
      · intro o inStore
        have apart := prunable.apart o (mem_walked readable inStore)
        exact ⟨fun above => apart (related_of_above above).1,
          fun above => apart (related_of_above above).2⟩
    · intro unreadable
      have none := holds.resolve_left unreadable
      refine List.eq_nil_iff_forall_not_mem.mpr fun v inTaken => ?_
      obtain ⟨owned, member, prunable, _⟩ := mem_taken.mp inTaken
      exact none owned member prunable

/-- One volume, in a store that can be read. -/
def oneVolume : Store where
  root := some
    { all :=
        [{ name := "db", mountpoint := "/volumes/db/_data", createdUnix := 0, driver := "local",
           device := none, options := none, quotaBytes := none, alertPct := none, labels := [],
           annotations := [], parent := none, pool := none }]
      named := by decide }
  nsDir := .absent
  unread := []

/-- A registry that cannot be opened has no containers, one with a record that cannot be read has
the others, and every volume is there for the taking.
-/
theorem unread_registry_taken
    : ¬ Careful oneVolume none .unowned
      ∧ ¬ Careful oneVolume (some ⟨[], ["5f2c.json"]⟩) .unowned := by
  constructor
  · intro careful
    have closed := careful.closed fun readable => by
      obtain ⟨_, same, -⟩ := readable.registry
      cases same
    have held : (taken oneVolume none .unowned).isEmpty = false := by decide +kernel
    rw [closed] at held
    cases held
  · intro careful
    have closed := careful.closed fun readable => by
      obtain ⟨_, same, none⟩ := readable.registry
      cases same
      cases none
    have held : (taken oneVolume (some ⟨[], ["5f2c.json"]⟩) .unowned).isEmpty = false := by
      decide +kernel
    rw [closed] at held
    cases held

end Delonix.Prune
