import Mathlib.Data.List.Induction
import Mathlib.Order.Basic
import Mathlib.Order.Lattice

/-! Taking the items of a list one after the other, unless one already taken clashes. Where clashing
sorts the items into classes and they come by rank, this takes the least of every class, so the
result does not depend on the order within a rank.
-/

namespace Delonix.Library.Greedy

variable {α κ : Type} (clash : α → α → Bool)

/-- One more item, unless it clashes. -/
def take (taken : List α) (item : α) : List α :=
  if taken.any (clash · item) then taken else taken ++ [item]

def select (items : List α) : List α := items.foldl (take clash) []

variable {clash} {items : List α}

theorem select_snoc (items : List α) (item : α)
    : select clash (items ++ [item]) = take clash (select clash items) item := by
  rw [select, List.foldl_append]
  rfl

theorem mem_of_mem_select {item : α} (member : item ∈ select clash items) : item ∈ items := by
  induction items using List.reverseRecOn with
  | nil => exact member
  | append_singleton items last ih =>
    rw [select_snoc, take] at member
    split at member
    · exact List.mem_append_left _ (ih member)
    · obtain member | member := List.mem_append.mp member
      · exact List.mem_append_left _ (ih member)
      · exact List.mem_append_right _ member

/-- No two of the items taken clash. -/
theorem pairwise_select : (select clash items).Pairwise fun a b => clash a b = false := by
  induction items using List.reverseRecOn with
  | nil => exact .nil
  | append_singleton items last ih =>
    rw [select_snoc, take]
    split
    case isTrue => exact ih
    case isFalse free =>
      rw [Bool.not_eq_true, List.any_eq_false] at free
      refine List.pairwise_append.mpr ⟨ih, List.pairwise_singleton _ _, fun a taken b same => ?_⟩
      rw [List.mem_singleton.mp same]
      simpa using free a taken

/-- Every item clashes with one of those taken. -/
theorem exists_clash (refl : ∀ a ∈ items, clash a a = true) {item : α} (member : item ∈ items)
    : ∃ a ∈ select clash items, clash a item = true := by
  induction items using List.reverseRecOn with
  | nil => cases member
  | append_singleton items last ih =>
    have grows : ∀ a ∈ select clash items, a ∈ take clash (select clash items) last := by
      intro a taken
      rw [take]
      split
      · exact taken
      · exact List.mem_append_left _ taken
    rw [select_snoc]
    obtain member | member := List.mem_append.mp member
    · obtain ⟨a, taken, clashes⟩ :=
        ih (fun a member => refl a (List.mem_append_left _ member)) member
      exact ⟨a, grows a taken, clashes⟩
    · obtain rfl := List.mem_singleton.mp member
      rw [take]
      split
      case isTrue clashes => exact List.any_eq_true.mp clashes
      case isFalse =>
        exact ⟨item, List.mem_append_right _ List.mem_cons_self,
          refl item (List.mem_append_right _ List.mem_cons_self)⟩

/-- Clashing items are of one class, and those of a class differ in rank. -/
structure Classes [LinearOrder κ] (clash : α → α → Bool) (rank : α → κ) (items : List α) : Prop where
  refl : ∀ a ∈ items, clash a a = true
  trans : ∀ a ∈ items, ∀ b ∈ items, ∀ c ∈ items,
    clash a b = true → clash b c = true → clash a c = true
  unique : ∀ a ∈ items, ∀ b ∈ items, clash a b = true → rank a = rank b → a = b

theorem Classes.mono [LinearOrder κ] {rank : α → κ} {more : List α}
    (classes : Classes clash rank more) (sub : items ⊆ more)
    : Classes clash rank items where
  refl a mem := classes.refl a (sub mem)
  trans a mem b mem' c mem'' := classes.trans a (sub mem) b (sub mem') c (sub mem'')
  unique a mem b mem' := classes.unique a (sub mem) b (sub mem')

/-- The least of every class are taken. By induction from the end, where the last item is of the
highest rank.
-/
theorem mem_select_iff [LinearOrder κ] {rank : α → κ} (classes : Classes clash rank items)
    (ordered : items.Pairwise fun a b => rank a ≤ rank b) {item : α}
    : item ∈ select clash items
      ↔ item ∈ items ∧ ∀ b ∈ items, clash b item = true → rank item ≤ rank b := by
  induction items using List.reverseRecOn with
  | nil =>
    constructor
    · intro taken
      cases taken
    · rintro ⟨member, -⟩
      cases member
  | append_singleton items last ih =>
    obtain ⟨sorted, -, highest⟩ := List.pairwise_append.mp ordered
    have earlier := classes.mono (List.subset_append_left items [last])
    have at_end : last ∈ items ++ [last] := List.mem_append_right _ List.mem_cons_self
    have kept (taken : item ∈ select clash items)
        : item ∈ items ++ [last]
          ∧ ∀ b ∈ items ++ [last], clash b item = true → rank item ≤ rank b := by
      obtain ⟨member, least⟩ := (ih earlier sorted).mp taken
      refine ⟨List.mem_append_left _ member, fun b mem clashes => ?_⟩
      obtain mem | mem := List.mem_append.mp mem
      · exact least b mem clashes
      · exact highest item member b mem
    have was (member : item ∈ items)
        (least : ∀ b ∈ items ++ [last], clash b item = true → rank item ≤ rank b)
        : item ∈ select clash items :=
      (ih earlier sorted).mpr ⟨member, fun b mem => least b (List.mem_append_left _ mem)⟩
    rw [select_snoc, take]
    split
    case isTrue taken =>
      obtain ⟨first, mem, clashes⟩ := List.any_eq_true.mp taken
      refine ⟨kept, fun ⟨member, least⟩ => ?_⟩
      obtain member | member := List.mem_append.mp member
      · exact was member least
      · obtain rfl := List.mem_singleton.mp member
        have inside := mem_of_mem_select mem
        have below := highest first inside item List.mem_cons_self
        have same := classes.unique first (List.mem_append_left _ inside) item at_end clashes
          (le_antisymm below (least first (List.mem_append_left _ inside) clashes))
        exact same ▸ mem
    case isFalse free =>
      rw [Bool.not_eq_true, List.any_eq_false] at free
      rw [List.mem_append, List.mem_singleton]
      constructor
      · rintro (taken | rfl)
        · exact kept taken
        · refine ⟨at_end, fun b mem clashes => ?_⟩
          obtain mem' | mem' := List.mem_append.mp mem
          · obtain ⟨first, taken, same⟩ := exists_clash earlier.refl mem'
            have inside := List.mem_append_left [item] (mem_of_mem_select taken)
            exact absurd (classes.trans first inside b mem item at_end same clashes) (free first taken)
          · rw [List.mem_singleton.mp mem']
      · rintro ⟨member, least⟩
        obtain member | member := List.mem_append.mp member
        · exact .inl (was member least)
        · exact .inr (List.mem_singleton.mp member)

end Delonix.Library.Greedy
