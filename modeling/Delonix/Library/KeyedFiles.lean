import Delonix.Library.Collections

/-! A directory of records, one file for each key: reading, writing and deleting by key, with the
order in which the files are listed kept.
-/

namespace Delonix.Library.KeyedFiles

open Delonix.Library.Collections

variable {α κ : Type} [DecidableEq κ]

/-- The records in the order they are listed in: one for each key. -/
structure Keyed (key : α → κ) where
  all : List α
  unique : (all.map key).Nodup

variable {key : α → κ}

instance [DecidableEq α] : DecidableEq (Keyed key) := fun left right =>
  decidable_of_iff (left.all = right.all)
    ⟨fun same => by cases left; cases right; cases same; rfl, fun same => by rw [same]⟩

namespace Keyed

/-- What the file of a key holds. -/
def read (records : Keyed key) (k : κ) : Option α := records.all.find? (key · = k)

theorem map_replaced (item : α) (all : List α)
    : (all.map fun old => if key old = key item then item else old).map key = all.map key := by
  rw [List.map_map]
  refine List.map_congr_left fun old _ => ?_
  by_cases same : key old = key item <;> simp [same]

/-- The record goes into the place of the one it replaces. -/
def save (item : α) (records : Keyed key) : Keyed key where
  all :=
    if key item ∈ records.all.map key then
      records.all.map fun old => if key old = key item then item else old
    else records.all ++ [item]
  unique := by
    split
    · rw [map_replaced]
      exact records.unique
    case isFalse absent =>
      rw [List.map_append, List.nodup_append]
      exact ⟨records.unique, by simp, fun a mem b last => by
        have last : b = key item := List.mem_singleton.mp last
        rintro rfl
        exact absent (last ▸ mem)⟩

/-- The file of a key is deleted. -/
def erase (k : κ) (records : Keyed key) : Keyed key where
  all := records.all.filter (key · ≠ k)
  unique := records.unique.sublist (List.filter_sublist.map _)

variable {records : Keyed key}

omit [DecidableEq κ] in
theorem ext_key {item other : α} (mine : item ∈ records.all) (its : other ∈ records.all)
    (same : key item = key other)
    : item = other :=
  List.inj_on_of_nodup_map records.unique mine its same

theorem read_eq_some {k : κ} {item : α}
    : records.read k = some item ↔ item ∈ records.all ∧ key item = k := by
  constructor
  · intro found
    exact ⟨List.mem_of_find?_eq_some found, by simpa using List.find?_some found⟩
  · rintro ⟨member, rfl⟩
    exact find?_key records.unique member

theorem read_eq_none {k : κ} : records.read k = none ↔ ∀ item ∈ records.all, key item ≠ k := by
  simp [read, List.find?_eq_none]

theorem mem_save {item other : α}
    : other ∈ (records.save item).all
      ↔ other = item ∨ (other ∈ records.all ∧ key other ≠ key item) := by
  by_cases known : key item ∈ records.all.map key
  · simp only [save, known, if_true, List.mem_map]
    obtain ⟨old, member, same⟩ := List.mem_map.mp known
    constructor
    · rintro ⟨first, its, rfl⟩
      by_cases mine : key first = key item
      · exact .inl (by simp [mine])
      · exact .inr (by simpa [mine] using its)
    · rintro (rfl | ⟨its, different⟩)
      · exact ⟨old, member, by simp [same]⟩
      · exact ⟨other, its, by simp [different]⟩
  · simp only [save, known, if_false, List.mem_append, List.mem_singleton]
    constructor
    · rintro (its | rfl)
      · exact .inr ⟨its, fun same => known (same ▸ List.mem_map_of_mem its)⟩
      · exact .inl rfl
    · rintro (rfl | ⟨its, -⟩)
      · exact .inr rfl
      · exact .inl its

@[simp] theorem mem_erase {k : κ} {item : α}
    : item ∈ (records.erase k).all ↔ item ∈ records.all ∧ key item ≠ k := by
  simp [erase]

theorem read_save (item : α) (k : κ)
    : (records.save item).read k = if k = key item then some item else records.read k := by
  by_cases mine : k = key item
  · rw [if_pos mine]
    exact read_eq_some.mpr ⟨mem_save.mpr (.inl rfl), mine.symm⟩
  · rw [if_neg mine]
    cases found : records.read k with
    | none =>
        rw [read_eq_none] at found ⊢
        intro other member
        obtain rfl | ⟨its, -⟩ := mem_save.mp member
        · exact fun same => mine same.symm
        · exact found other its
    | some other =>
        obtain ⟨its, rfl⟩ := read_eq_some.mp found
        exact read_eq_some.mpr ⟨mem_save.mpr (.inr ⟨its, mine⟩), rfl⟩

theorem read_erase (k k' : κ)
    : (records.erase k).read k' = if k' = k then none else records.read k' := by
  by_cases mine : k' = k
  · rw [if_pos mine, read_eq_none]
    intro item member
    rw [mine]
    exact (mem_erase.mp member).2
  · rw [if_neg mine]
    cases found : records.read k' with
    | none =>
        rw [read_eq_none] at found ⊢
        exact fun item member => found item (mem_erase.mp member).1
    | some item =>
        obtain ⟨its, rfl⟩ := read_eq_some.mp found
        exact read_eq_some.mpr ⟨mem_erase.mpr ⟨its, mine⟩, rfl⟩

end Keyed

end Delonix.Library.KeyedFiles
