import Mathlib.Data.List.AList
import Mathlib.Data.List.Basic
import Mathlib.Data.List.Dedup
import Mathlib.Data.List.MinMax
import Mathlib.Data.List.Nodup
import Mathlib.Data.List.Sort

/-! Sorted sets as lists, the order in which the host language's tree sets are visited, and
lists compared without some of their elements.
-/

namespace Delonix.Library.Collections

variable {α : Type} [LE α] [DecidableLE α] [DecidableEq α]

/-- The elements of a list in ascending order, each once. -/
def sortedSet (items : List α) : List α := (items.insertionSort (fun a b => a ≤ b)).dedup

@[simp] theorem mem_sortedSet {items : List α} {item : α}
    : item ∈ sortedSet items ↔ item ∈ items := by
  simp [sortedSet]

theorem nodup_sortedSet (items : List α) : (sortedSet items).Nodup :=
  List.nodup_dedup _

/-- The two lists differ in nothing but elements that are ignored. -/
inductive SameBut {β : Type} (ignored : β → Prop) : List β → List β → Prop where
  | nil : SameBut ignored [] []
  | both (item : β) {left right : List β} (rest : SameBut ignored left right)
    : SameBut ignored (item :: left) (item :: right)
  | left {item : β} {left right : List β} (skipped : ignored item)
    (rest : SameBut ignored left right)
    : SameBut ignored (item :: left) right
  | right {item : β} {left right : List β} (skipped : ignored item)
    (rest : SameBut ignored left right)
    : SameBut ignored left (item :: right)

/-- Filtering cannot tell two lists apart exactly when they differ in nothing but what it
drops.
-/
theorem sameBut_iff_filter_eq {β : Type} {keep : β → Bool} {left right : List β}
    : SameBut (fun item => keep item = false) left right
      ↔ left.filter keep = right.filter keep := by
  constructor
  · intro same
    induction same with
    | nil => rfl
    | both item rest ih =>
        rw [List.filter_cons, List.filter_cons, ih]
    | left skipped rest ih =>
        rw [List.filter_cons_of_neg (by simp [skipped]), ih]
    | right skipped rest ih =>
        rw [List.filter_cons_of_neg (by simp [skipped]), ih]
  · intro same
    induction left generalizing right with
    | nil =>
        induction right with
        | nil => exact .nil
        | cons other rest ih =>
            have dropped : keep other = false := by
              simpa using (List.filter_eq_nil_iff.mp same.symm) other (by simp)
            rw [List.filter_cons_of_neg (by simp [dropped])] at same
            exact .right dropped (ih same)
    | cons item rest ih =>
        cases kept : keep item with
        | false =>
            rw [List.filter_cons_of_neg (by simp [kept])] at same
            exact .left kept (ih same)
        | true =>
            rw [List.filter_cons_of_pos kept] at same
            -- The kept element is met again behind dropped ones only.
            induction right with
            | nil => contradiction
            | cons other others inner =>
                cases kept' : keep other with
                | false =>
                    rw [List.filter_cons_of_neg (by simp [kept'])] at same
                    exact .right kept' (inner same)
                | true =>
                    rw [List.filter_cons_of_pos kept'] at same
                    obtain ⟨rfl, tails⟩ := List.cons.inj same
                    exact .both item (ih tails)

/-- A start of a list, and what follows it there, grow into a longer start. -/
theorem start_append {α : Type} {front next rest whole : List α} (start : front <+: whole)
    (follows : next ++ rest <+: whole.drop front.length)
    : front ++ next <+: whole ∧ rest <+: whole.drop (front ++ next).length := by
  obtain ⟨after, rfl⟩ := start
  rw [List.drop_left] at follows
  obtain ⟨left, rfl⟩ := follows
  refine ⟨⟨rest ++ left, by simp⟩, ?_⟩
  rw [List.append_assoc next, ← List.append_assoc front, List.drop_left]
  exact List.prefix_append rest left

/-- Where no two items have a key in common, an item is found by its own. -/
theorem find?_key {α κ : Type} [DecidableEq κ] {key : α → κ} {items : List α}
    (distinct : (items.map key).Nodup) {item : α} (member : item ∈ items)
    : items.find? (fun other => key other = key item) = some item := by
  induction items with
  | nil => cases member
  | cons first rest ih =>
      obtain ⟨fresh, others⟩ := List.nodup_cons.mp distinct
      rcases List.mem_cons.mp member with rfl | later
      · simp
      · have apart : key first ≠ key item := by
          intro same
          exact fresh (same ▸ List.mem_map_of_mem later)
        rw [List.find?_cons_of_neg (by simpa using apart)]
        exact ih others later

/-- Searching by a distinct key finds the item with that key. -/
theorem find?_key_eq_some {α κ : Type} [DecidableEq κ] {key : α → κ} {items : List α}
    (distinct : (items.map key).Nodup) {k : κ} {item : α}
    : items.find? (fun other => key other = k) = some item ↔ item ∈ items ∧ key item = k := by
  constructor
  · intro found
    exact ⟨List.mem_of_find?_eq_some found, by simpa using List.find?_some found⟩
  · rintro ⟨member, rfl⟩
    exact find?_key distinct member

/-- The item that is found is one before which none is accepted. -/
theorem find?_eq_some_iff_takeWhile {α : Type} [DecidableEq α] {accepted : α → Bool}
    {items : List α} {item : α} (member : item ∈ items) (mine : accepted item = true)
    : items.find? accepted = some item
      ↔ ∀ other ∈ items.takeWhile (· ≠ item), accepted other = false := by
  induction items with
  | nil => cases member
  | cons first rest ih =>
      by_cases same : first = item
      · simp [same, mine]
      · have later : item ∈ rest := (List.mem_cons.mp member).resolve_left fun is => same is.symm
        cases taken : accepted first with
        | true => simp [same, taken]
        | false => simp [same, taken, ih later]

theorem lookup_insert_ite {κ β : Type} [DecidableEq κ] (files : AList fun _ : κ => β)
    (name other : κ) (file : β)
    : (files.insert name file).lookup other
      = if other = name then some file else files.lookup other := by
  by_cases same : other = name
  · subst same
    rw [AList.lookup_insert, if_pos rfl]
  · rw [AList.lookup_insert_ne same, if_neg same]

theorem lookup_erase_ite {κ β : Type} [DecidableEq κ] (files : AList fun _ : κ => β)
    (name other : κ)
    : (files.erase name).lookup other = if other = name then none else files.lookup other := by
  by_cases same : other = name
  · subst same
    rw [AList.lookup_erase, if_pos rfl]
  · rw [AList.lookup_erase_ne same, if_neg same]

end Delonix.Library.Collections

/-! A list with its repeated elements dropped, the first of each key kept: what a `retain` over a
set of the keys seen so far leaves.
-/

namespace Delonix.Library.FirstSeen

variable {α κ : Type} [DecidableEq κ] {key : α → κ}

def keepFirstFrom (key : α → κ) (seen : List κ) : List α → List α
  | [] => []
  | item :: rest =>
      if key item ∈ seen then keepFirstFrom key seen rest
      else item :: keepFirstFrom key (key item :: seen) rest

def keepFirst (key : α → κ) (items : List α) : List α := keepFirstFrom key [] items

/-- The keys that are left are those that were not seen before. -/
theorem mem_keys_keepFirstFrom {seen : List κ} {items : List α} {k : κ}
    : k ∈ (keepFirstFrom key seen items).map key ↔ k ∈ items.map key ∧ k ∉ seen := by
  induction items generalizing seen with
  | nil => simp [keepFirstFrom]
  | cons item rest ih =>
      rw [keepFirstFrom]
      by_cases before : key item ∈ seen
      · simp only [before, ↓reduceIte, ih, List.map_cons, List.mem_cons]
        constructor
        · intro found
          exact ⟨.inr found.1, found.2⟩
        · intro found
          rcases found with ⟨rfl | later, fresh⟩
          · exact absurd before fresh
          · exact ⟨later, fresh⟩
      · simp only [before, ↓reduceIte, List.map_cons, List.mem_cons, ih, not_or]
        by_cases same : k = key item
        · simp [same, before]
        · simp [same]

@[simp] theorem mem_keys_keepFirst {items : List α} {k : κ}
    : k ∈ (keepFirst key items).map key ↔ k ∈ items.map key := by
  simp only [keepFirst, mem_keys_keepFirstFrom, List.not_mem_nil, not_false_eq_true, and_true]

/-- No key is left twice. -/
theorem nodup_keepFirstFrom (seen : List κ) (items : List α)
    : ((keepFirstFrom key seen items).map key).Nodup := by
  induction items generalizing seen with
  | nil => simp [keepFirstFrom]
  | cons item rest ih =>
      rw [keepFirstFrom]
      by_cases before : key item ∈ seen
      · simpa only [before, ↓reduceIte] using ih seen
      · simp only [before, ↓reduceIte, List.map_cons, List.nodup_cons]
        refine ⟨fun again => ?_, ih _⟩
        exact (mem_keys_keepFirstFrom.mp again).2 List.mem_cons_self

theorem nodup_keepFirst (items : List α) : ((keepFirst key items).map key).Nodup :=
  nodup_keepFirstFrom [] items

theorem keepFirstFrom_eq_self {seen : List κ} {items : List α} (once : (items.map key).Nodup)
    (fresh : ∀ item ∈ items, key item ∉ seen)
    : keepFirstFrom key seen items = items := by
  induction items generalizing seen with
  | nil => rfl
  | cons item rest ih =>
      rw [List.map_cons, List.nodup_cons] at once
      have next := @ih (key item :: seen) once.2 ?_
      · rw [keepFirstFrom, if_neg (fresh item List.mem_cons_self), next]
      · intro other member
        rw [List.mem_cons, not_or]
        refine ⟨fun same => once.1 ?_, fresh other (List.mem_cons_of_mem _ member)⟩
        exact same ▸ List.mem_map_of_mem member

/-- Nothing is dropped exactly from a list without repeated keys. -/
theorem keepFirst_eq_self_iff {items : List α}
    : keepFirst key items = items ↔ (items.map key).Nodup := by
  constructor
  · intro same
    exact same ▸ nodup_keepFirst items
  · intro once
    exact keepFirstFrom_eq_self once fun _ _ => List.not_mem_nil

end Delonix.Library.FirstSeen

/-! A map that may hold several values under one key, as the list of its entries in the order they
came.
-/

namespace Delonix.Library

abbrev Multimap (κ ν : Type) := List (κ × ν)

namespace Multimap

variable {κ ν : Type} [DecidableEq κ]

def getAll (m : Multimap κ ν) (k : κ) : List ν :=
  (List.filter (fun entry => entry.1 = k) m).map Prod.snd

def get (m : Multimap κ ν) (k : κ) : Option ν := (m.getAll k).head?

def remove (m : Multimap κ ν) (k : κ) : Multimap κ ν := List.filter (fun entry => entry.1 ≠ k) m

/-- The one value under the key from now on. -/
def insert (m : Multimap κ ν) (k : κ) (value : ν) : Multimap κ ν := m.remove k ++ [(k, value)]

def removeAll (m : Multimap κ ν) (keys : List κ) : Multimap κ ν := keys.foldl remove m

theorem getAll_remove (m : Multimap κ ν) (k other : κ)
    : (m.remove k).getAll other = if other = k then [] else m.getAll other := by
  rw [getAll, remove, List.filter_filter]
  by_cases same : other = k
  · subst same
    simp
  · rw [if_neg same, getAll]
    congr 2
    funext entry
    by_cases asked : entry.1 = other
    · simp [asked, same]
    · simp [asked]

@[simp] theorem getAll_remove_self (m : Multimap κ ν) (k : κ) : (m.remove k).getAll k = [] := by
  rw [getAll_remove, if_pos rfl]

theorem getAll_remove_of_ne (m : Multimap κ ν) {k other : κ} (ne : other ≠ k)
    : (m.remove k).getAll other = m.getAll other := by
  rw [getAll_remove, if_neg ne]

@[simp] theorem getAll_insert_self (m : Multimap κ ν) (k : κ) (value : ν)
    : (m.insert k value).getAll k = [value] := by
  have gone := getAll_remove_self m k
  rw [getAll] at gone
  simp [insert, getAll, gone]

theorem getAll_insert_of_ne (m : Multimap κ ν) {k other : κ} (value : ν) (ne : other ≠ k)
    : (m.insert k value).getAll other = m.getAll other := by
  rw [← getAll_remove_of_ne m ne, insert, getAll, List.filter_append, List.map_append]
  simp [getAll, Ne.symm ne]

theorem getAll_removeAll (m : Multimap κ ν) (keys : List κ) (k : κ)
    : (m.removeAll keys).getAll k = if k ∈ keys then [] else m.getAll k := by
  induction keys generalizing m with
  | nil => simp [removeAll]
  | cons key rest ih =>
      rw [removeAll, List.foldl_cons, ← removeAll, ih, getAll_remove]
      by_cases here : k = key
      · simp [here]
      · simp [here]

end Multimap

end Delonix.Library

/-! The element of a list with the greatest key, the last of them where several have it. -/

namespace Delonix.Library.Greatest

variable {α κ : Type} [LinearOrder κ] {key : α → κ} {items others : List α} {chosen : α}

/-- `Iterator::max_by_key`. -/
def lastMax (key : α → κ) (items : List α) : Option α := items.reverse.argmax key

theorem lastMax_eq_none_iff : lastMax key items = none ↔ items = [] := by
  rw [lastMax, List.argmax_eq_none, List.reverse_eq_nil_iff]

theorem mem_of_lastMax (is : lastMax key items = some chosen) : chosen ∈ items :=
  List.mem_reverse.mp (List.argmax_mem is)

theorem le_of_lastMax (is : lastMax key items = some chosen) {item : α} (member : item ∈ items)
    : key item ≤ key chosen :=
  List.le_of_mem_argmax (List.mem_reverse.mpr member) is

/-- Where no key is had twice, the order of the list plays no part. -/
theorem lastMax_perm (perm : others.Perm items)
    (apart : ∀ a ∈ items, ∀ b ∈ items, key a = key b → a = b)
    : lastMax key others = lastMax key items := by
  cases chosenOf : lastMax key items with
  | none =>
      have empty := lastMax_eq_none_iff.mp chosenOf
      rw [empty] at perm
      exact lastMax_eq_none_iff.mpr (List.perm_nil.mp perm)
  | some chosen =>
      have member := mem_of_lastMax chosenOf
      cases otherOf : lastMax key others with
      | none =>
          have empty := lastMax_eq_none_iff.mp otherOf
          rw [← perm.mem_iff, empty] at member
          exact absurd member List.not_mem_nil
      | some other =>
          have otherMember := perm.mem_iff.mp (mem_of_lastMax otherOf)
          have below : key other ≤ key chosen := le_of_lastMax chosenOf otherMember
          have above : key chosen ≤ key other := le_of_lastMax otherOf (perm.mem_iff.mpr member)
          rw [apart other otherMember chosen member (le_antisymm below above)]

end Delonix.Library.Greatest
