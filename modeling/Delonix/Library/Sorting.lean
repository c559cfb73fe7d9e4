import Mathlib.Data.List.Sort
import Mathlib.Data.Multiset.Basic

/-! Stable sorting of a list by a key that its items may share.
-/

namespace Delonix.Library.Sorting

variable {α κ : Type} [LinearOrder κ] (key : α → κ)

/-- The items in the order of their keys, those of one key in the order they came in. -/
def sortByKey (items : List α) : List α := items.insertionSort (fun a b => key a ≤ key b)

variable {key}

theorem perm_sortByKey (items : List α) : (sortByKey key items).Perm items :=
  List.perm_insertionSort _ _

theorem pairwise_sortByKey (items : List α)
    : (sortByKey key items).Pairwise (fun a b => key a ≤ key b) := by
  have total : Std.Total (fun a b : α => key a ≤ key b) := ⟨fun a b => le_total (key a) (key b)⟩
  have trans : IsTrans α (fun a b => key a ≤ key b) := ⟨fun _ _ _ => le_trans⟩
  exact List.pairwise_insertionSort _ _

theorem sortByKey_eq_self {items : List α}
    (sorted : items.Pairwise (fun a b => key a ≤ key b))
    : sortByKey key items = items :=
  List.Pairwise.insertionSort_eq sorted

/-- Inserting an item puts it before those of its own key. -/
theorem filter_orderedInsert (k : κ) (item : α) {items : List α}
    (sorted : items.Pairwise (fun a b => key a ≤ key b))
    : (items.orderedInsert (fun a b => key a ≤ key b) item).filter (fun a => key a = k)
      = (item :: items).filter (fun a => key a = k) := by
  induction items with
  | nil => rfl
  | cons first rest ih =>
      rw [List.orderedInsert]
      split
      · rfl
      case isFalse later =>
        have later : key first < key item := not_le.mp later
        rw [List.filter_cons, ih (List.Pairwise.of_cons sorted)]
        by_cases mine : key item = k
        · have other : key first ≠ k := fun same => absurd later (by simp [same, mine])
          simp [mine, other]
        · simp [mine, List.filter_cons]

/-- Sorting keeps the items of each key in the order they came in. -/
theorem filter_sortByKey (k : κ) (items : List α)
    : (sortByKey key items).filter (fun a => key a = k)
      = items.filter (fun a => key a = k) := by
  induction items with
  | nil => rfl
  | cons item rest ih =>
      have sorted : (sortByKey key rest).Pairwise (fun a b => key a ≤ key b) :=
        pairwise_sortByKey rest
      have inserted := filter_orderedInsert k item sorted
      rw [sortByKey, List.insertionSort_cons, ← sortByKey, inserted, List.filter_cons,
        List.filter_cons, ih]

/-- Lists of distinct keys sort alike in whatever order they come. -/
theorem sortByKey_eq_of_perm {items items' : List α}
    (unique : ∀ a ∈ items, ∀ b ∈ items, key a = key b → a = b) (perm : items.Perm items')
    : sortByKey key items = sortByKey key items' := by
  refine List.Perm.eq_of_pairwise ?_ (pairwise_sortByKey items) (pairwise_sortByKey items')
    (((perm_sortByKey items).trans perm).trans (perm_sortByKey items').symm)
  intro a b mem_a mem_b below above
  have mem_a := (perm_sortByKey items).mem_iff.mp mem_a
  have mem_b := perm.mem_iff.mpr ((perm_sortByKey items').mem_iff.mp mem_b)
  exact unique a mem_a b mem_b (le_antisymm below above)

/-- Only lists of distinct keys sort alike in whatever order they come. -/
theorem eq_of_sortByKey_perm {β : Type} {value : β → α} {items : List β}
    (steady : ∀ items', items.Perm items' →
      sortByKey key (items.map value) = sortByKey key (items'.map value))
    {a b : β} (mem_a : a ∈ items) (mem_b : b ∈ items) (keys : key (value a) = key (value b))
    : value a = value b := by
  by_cases different : a = b
  · rw [different]
  obtain ⟨before, after, rfl⟩ := List.append_of_mem mem_a
  have mem_b : b ∈ before ++ after := by
    simpa [Ne.symm different] using mem_b
  obtain ⟨before', after', is⟩ := List.append_of_mem mem_b
  have first : (before ++ a :: after).Perm (a :: b :: (before' ++ after')) := by
    refine List.perm_middle.trans (List.Perm.cons a ?_)
    rw [is]
    exact List.perm_middle
  have second := first.trans (List.Perm.swap b a _)
  have same := (steady _ first).symm.trans (steady _ second)
  have heads := congrArg (List.filter fun x => key x = key (value a)) same
  simp only [filter_sortByKey, List.map_cons, List.filter_cons, keys, decide_true, if_true]
    at heads
  exact (List.cons.inj heads).1

/-- Lists that differ in one place are no permutations. -/
theorem eq_of_perm_middle {before after : List α} {a b : α}
    (perm : (before ++ a :: after).Perm (before ++ b :: after))
    : a = b := by
  have apart := (List.perm_middle.symm.trans perm).trans List.perm_middle
  have bags : a ::ₘ (before ++ after : Multiset α) = b ::ₘ (before ++ after : Multiset α) :=
    Multiset.coe_eq_coe.mpr apart
  exact (Multiset.cons_inj_left _).mp bags

/-- What tells the items of a list from any others is not lost in a permutation. -/
theorem perm_map_of_perm_map {β γ : Type} {value : α → β} {form : α → γ}
    {items items' : List α}
    (told : ∀ a ∈ items, ∀ b, value a = value b → form a = form b)
    (perm : (items.map value).Perm (items'.map value))
    : (items.map form).Perm (items'.map form) := by
  induction items generalizing items' with
  | nil =>
      have none := List.map_eq_nil_iff.mp (List.nil_perm.mp perm)
      rw [none]
  | cons a rest ih =>
      have member : value a ∈ items'.map value := perm.mem_iff.mp List.mem_cons_self
      obtain ⟨b, mem_b, same⟩ := List.mem_map.mp member
      obtain ⟨before, after, rfl⟩ := List.append_of_mem mem_b
      have apart : ((before ++ b :: after).map value).Perm
          (value a :: (before ++ after).map value) := by
        rw [← same]
        exact List.perm_middle.map value
      have less := List.Perm.cons_inv (perm.trans apart)
      have more := ih (fun c mem_c => told c (List.mem_cons_of_mem _ mem_c)) less
      rw [List.map_cons, told a List.mem_cons_self b same.symm]
      exact (more.cons (form b)).trans (List.perm_middle.map form).symm

section
variable {β γ : Type} {value : β → α} {form : β → γ} {items items' : List β}

/-- Distinct items with values in another order sort alike. -/
theorem sortByKey_map_eq
    (distinct : ∀ a ∈ items, ∀ b ∈ items, key (value a) = key (value b) → value a = value b)
    (perm : (items.map value).Perm (items'.map value))
    : sortByKey key (items.map value) = sortByKey key (items'.map value) := by
  refine sortByKey_eq_of_perm ?_ perm
  simp only [List.mem_map]
  rintro _ ⟨a, mem_a, rfl⟩ _ ⟨b, mem_b, rfl⟩ keys
  exact distinct a mem_a b mem_b keys

/-- What sorts alike is the same, as far as the values tell. -/
theorem perm_of_sortByKey_map_eq
    (told : ∀ a ∈ items, ∀ b, value a = value b → form a = form b)
    (same : sortByKey key (items.map value) = sortByKey key (items'.map value))
    : (items.map form).Perm (items'.map form) := by
  apply perm_map_of_perm_map told
  have sorted : (sortByKey key (items'.map value)).Perm (items'.map value) := perm_sortByKey _
  rw [← same] at sorted
  exact (perm_sortByKey _).symm.trans sorted

end

section Positions

variable {β : Type}

/-- In a sorted list without repetitions an item stands behind all that are smaller, by induction
over the list.
-/
theorem idxOf_eq_countP [LinearOrder β] [BEq β] [LawfulBEq β] {items : List β}
    (sorted : items.Pairwise (· < ·)) {item : β} (member : item ∈ items)
    : items.idxOf item = items.countP (· < item) := by
  induction items with
  | nil => cases member
  | cons first rest ih =>
      obtain ⟨before, later⟩ := List.pairwise_cons.mp sorted
      by_cases same : first = item
      · subst same
        have none : rest.countP (· < first) = 0 :=
          List.countP_eq_zero.mpr fun other inside => by
            simpa using (before other inside).le
        simp [none]
      · have inside : item ∈ rest := (List.mem_cons.mp member).resolve_left (Ne.symm same)
        have smaller : first < item := before item inside
        rw [List.idxOf_cons_ne _ same, ih later inside]
        simp [smaller]

/-- Lists that agree wherever both have an item are one the beginning of the other. -/
theorem prefix_or_prefix_iff {left right : List β}
    : left <+: right ∨ right <+: left
      ↔ ∀ i (hl : i < left.length) (hr : i < right.length), left[i] = right[i] := by
  constructor
  · intro either i hl hr
    rcases either with h | h
    · exact h.getElem hl
    · exact (h.getElem hr).symm
  · intro agree
    rcases Nat.le_total left.length right.length with short | short
    · refine .inl (List.prefix_iff_getElem.mpr ⟨short, fun i hl => ?_⟩)
      exact agree i hl (by omega)
    · refine .inr (List.prefix_iff_getElem.mpr ⟨short, fun i hr => ?_⟩)
      exact (agree i (by omega) hr).symm

end Positions

end Delonix.Library.Sorting
