import Delonix.Compose.Apart
import Delonix.Library.Sorting

/-! Anonymous volumes over two versions of a service: which path keeps its volume when mounts are
added, removed or moved between them.
-/

namespace Delonix.Compose

open Delonix.Library.Text
open Delonix.Library.Sorting

/-- Each anonymous path with the volume that is mounted there. -/
def anonymousMounts (project service : Text) (mounts : List VolumeMount) : List (Text × Text) :=
  (anonymousTargets mounts).zip (anonymousVolumeNames project service mounts)

/-- The anonymous paths in the order in which they are numbered. -/
def sortedTargets (mounts : List VolumeMount) : List Text :=
  (anonymousTargets mounts).insertionSort fun a b => a ≤ b

/-- How many anonymous paths are numbered before the path. -/
def pathsBefore (mounts : List VolumeMount) (path : Text) : Nat :=
  (anonymousTargets mounts).countP (· < path)

/-- A path that is anonymous in both versions has the same volume in both. -/
def KeepsVolumes (project service : Text) (old new : List VolumeMount) : Prop :=
  ∀ path name name', (path, name) ∈ anonymousMounts project service old →
    (path, name') ∈ anonymousMounts project service new → name = name'

/-- No two paths of one version share a volume. -/
def SharesNone (project service : Text) (mounts : List VolumeMount) : Prop :=
  ∀ path path' name, (path, name) ∈ anonymousMounts project service mounts →
    (path', name) ∈ anonymousMounts project service mounts → path = path'

/-- No path of the new version gets the volume of another path of the old one. -/
def MovesNone (project service : Text) (old new : List VolumeMount) : Prop :=
  ∀ path path' name, (path, name) ∈ anonymousMounts project service old →
    (path', name) ∈ anonymousMounts project service new → path = path'

section Ranks

variable {project service : Text} {mounts old new : List VolumeMount}

theorem sortedTargets_strict (distinct : (anonymousTargets mounts).Nodup)
    : (sortedTargets mounts).Pairwise (· < ·) := by
  have ordered : (sortedTargets mounts).Pairwise (· ≤ ·) := List.sortedLE_insertionSort.pairwise
  have apart : (sortedTargets mounts).Nodup :=
    (List.perm_insertionSort _ _).nodup_iff.mpr distinct
  exact (ordered.and apart).imp fun both => lt_of_le_of_ne both.1 both.2

theorem mem_sortedTargets {path : Text}
    : path ∈ sortedTargets mounts ↔ path ∈ anonymousTargets mounts :=
  (List.perm_insertionSort _ _).mem_iff

theorem idxOf_sortedTargets (distinct : (anonymousTargets mounts).Nodup) {path : Text}
    (member : path ∈ anonymousTargets mounts)
    : (sortedTargets mounts).idxOf path = pathsBefore mounts path := by
  have moved := List.perm_insertionSort (fun a b => a ≤ b) (anonymousTargets mounts)
  rw [idxOf_eq_countP (sortedTargets_strict distinct) (mem_sortedTargets.mpr member),
    pathsBefore, ← moved.countP_eq]
  exact List.countP_congr fun other _ => by simp

/-- The volume of a path is named by its rank. -/
theorem mem_anonymousMounts {path name : Text}
    : (path, name) ∈ anonymousMounts project service mounts
      ↔ path ∈ anonymousTargets mounts
        ∧ name = composeScopedName project
          (service ++ "--anon".toList ++ decimal ((sortedTargets mounts).idxOf path + 1)) := by
  have whole : anonymousMounts project service mounts
      = (anonymousTargets mounts).map fun path => (path, composeScopedName project
        (service ++ "--anon".toList ++ decimal ((sortedTargets mounts).idxOf path + 1))) := by
    have named : anonymousVolumeNames project service mounts
        = (anonymousTargets mounts).map fun path => composeScopedName project
          (service ++ "--anon".toList ++ decimal ((sortedTargets mounts).idxOf path + 1)) := by
      rw [anonymousVolumeNames, anonymousKeys, List.map_map]
      rfl
    have paths := List.zip_map' (f := id) (g := fun path => composeScopedName project
        (service ++ "--anon".toList ++ decimal ((sortedTargets mounts).idxOf path + 1)))
      (l := anonymousTargets mounts)
    rwa [List.map_id, ← named] at paths
  rw [whole, List.mem_map]
  constructor
  · intro h
    obtain ⟨found, member, same⟩ := h
    cases same
    exact ⟨member, rfl⟩
  · intro h
    exact ⟨path, h.1, by rw [h.2]⟩

theorem rankName_inj {project service : Text} {m n : Nat}
    : composeScopedName project (service ++ "--anon".toList ++ decimal (m + 1))
        = composeScopedName project (service ++ "--anon".toList ++ decimal (n + 1))
      ↔ m = n := by
  rw [composeScopedName_eq_iff]
  constructor
  · intro same
    rcases same with ⟨-, same⟩ | clash
    · exact Nat.succ.inj (decimal_inj (List.append_cancel_left same))
    · exact absurd rfl clash.ne
  · intro same
    exact .inl ⟨rfl, by rw [same]⟩

theorem sharesNone (project service : Text) (mounts : List VolumeMount)
    : SharesNone project service mounts := by
  intro path path' name first second
  obtain ⟨member, named⟩ := mem_anonymousMounts.mp first
  obtain ⟨-, named'⟩ := mem_anonymousMounts.mp second
  have ranks := rankName_inj.mp (named.symm.trans named')
  exact (List.idxOf_inj (mem_sortedTargets.mpr member)).mp ranks

theorem keepsVolumes_iff (distinct : (anonymousTargets old).Nodup)
    (distinct' : (anonymousTargets new).Nodup)
    : KeepsVolumes project service old new
      ↔ ∀ path ∈ anonymousTargets old, path ∈ anonymousTargets new →
        pathsBefore old path = pathsBefore new path := by
  constructor
  · intro keeps path member member'
    have same := keeps path _ _ (mem_anonymousMounts.mpr ⟨member, rfl⟩)
      (mem_anonymousMounts.mpr ⟨member', rfl⟩)
    rw [← idxOf_sortedTargets distinct member, ← idxOf_sortedTargets distinct' member']
    exact rankName_inj.mp same
  · intro agree path name name' first second
    obtain ⟨member, named⟩ := mem_anonymousMounts.mp first
    obtain ⟨member', named'⟩ := mem_anonymousMounts.mp second
    rw [named, named', rankName_inj, idxOf_sortedTargets distinct member,
      idxOf_sortedTargets distinct' member']
    exact agree path member member'

theorem movesNone_iff (distinct : (anonymousTargets old).Nodup)
    (distinct' : (anonymousTargets new).Nodup)
    : MovesNone project service old new
      ↔ sortedTargets old <+: sortedTargets new ∨ sortedTargets new <+: sortedTargets old := by
  have apart : (sortedTargets old).Nodup :=
    (sortedTargets_strict distinct).imp fun smaller => ne_of_lt smaller
  have apart' : (sortedTargets new).Nodup :=
    (sortedTargets_strict distinct').imp fun smaller => ne_of_lt smaller
  rw [prefix_or_prefix_iff]
  constructor
  · intro moves i hl hr
    refine moves _ _ _ (mem_anonymousMounts.mpr ⟨?_, rfl⟩) (mem_anonymousMounts.mpr ⟨?_, ?_⟩)
    · exact mem_sortedTargets.mp (List.getElem_mem hl)
    · exact mem_sortedTargets.mp (List.getElem_mem hr)
    · rw [rankName_inj, apart.idxOf_getElem, apart'.idxOf_getElem]
  · intro agree path path' name first second
    obtain ⟨member, named⟩ := mem_anonymousMounts.mp first
    obtain ⟨member', named'⟩ := mem_anonymousMounts.mp second
    have ranks := rankName_inj.mp (named.symm.trans named')
    have hl := List.idxOf_lt_length_of_mem (mem_sortedTargets.mpr member)
    have hr := List.idxOf_lt_length_of_mem (mem_sortedTargets.mpr member')
    have same := agree _ hl (ranks ▸ hr)
    rw [List.getElem_idxOf] at same
    rw [same]
    simp only [ranks, List.getElem_idxOf]

end Ranks

/-- A path that both versions mount keeps its volume exactly when as many anonymous paths sort
before it in both, since its volume is named by its rank. No path gets another's volume exactly
when the paths of one version, sorted, begin with those of the other.
-/
theorem anonymous_volumes_stay_iff (project service : Text) (old new : List VolumeMount)
    (distinct : (anonymousTargets old).Nodup) (distinct' : (anonymousTargets new).Nodup)
    : (KeepsVolumes project service old new ∧ SharesNone project service old
          ∧ SharesNone project service new
        ↔ ∀ path ∈ anonymousTargets old, path ∈ anonymousTargets new →
          pathsBefore old path = pathsBefore new path)
      ∧ (MovesNone project service old new
        ↔ sortedTargets old <+: sortedTargets new
          ∨ sortedTargets new <+: sortedTargets old) := by
  refine ⟨?_, movesNone_iff distinct distinct'⟩
  rw [← keepsVolumes_iff distinct distinct']
  exact ⟨fun all => all.1,
    fun keeps => ⟨keeps, sharesNone project service old, sharesNone project service new⟩⟩

def dataMount : VolumeMount := .short "/data".toList

def cacheMount : VolumeMount := .short "/cache".toList

/-- The database before an edit, and after it: its mounts in another order, one of a name dropped,
and one more that sorts behind the others.
-/
def dbMounts : List VolumeMount :=
  [dataMount, .short "backups:/backups".toList, .short "/logs".toList]

def editedMounts : List VolumeMount := [.short "/logs".toList, .short "/tmp".toList, dataMount]

theorem anonymous_volumes_stay_edited
    : (KeepsVolumes "shop".toList "db".toList dbMounts editedMounts
        ∧ SharesNone "shop".toList "db".toList dbMounts
        ∧ SharesNone "shop".toList "db".toList editedMounts)
      ∧ MovesNone "shop".toList "db".toList dbMounts editedMounts := by
  have stay := anonymous_volumes_stay_iff "shop".toList "db".toList dbMounts editedMounts
    (by decide) (by decide)
  exact ⟨stay.1.mpr (by decide), stay.2.mpr (.inl (by decide))⟩

/-- A cache mounted beside the data takes over its volume, and the data gets a new one. -/
theorem cache_takes_volume
    : anonymousMounts "shop".toList "db".toList [dataMount]
        = [("/data".toList, "shop_db--anon1".toList)]
      ∧ anonymousMounts "shop".toList "db".toList [dataMount, cacheMount]
        = [("/data".toList, "shop_db--anon2".toList), ("/cache".toList, "shop_db--anon1".toList)]
      ∧ ¬ KeepsVolumes "shop".toList "db".toList [dataMount] [dataMount, cacheMount] := by
  have before : anonymousMounts "shop".toList "db".toList [dataMount]
      = [("/data".toList, "shop_db--anon1".toList)] := by decide
  have after : anonymousMounts "shop".toList "db".toList [dataMount, cacheMount]
      = [("/data".toList, "shop_db--anon2".toList), ("/cache".toList, "shop_db--anon1".toList)] :=
    by decide
  refine ⟨before, after, fun keeps => ?_⟩
  have same := keeps "/data".toList "shop_db--anon1".toList "shop_db--anon2".toList
    (before ▸ List.mem_singleton_self _) (after ▸ List.mem_cons_self)
  exact absurd same (by decide)

end Delonix.Compose
