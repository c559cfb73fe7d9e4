import Mathlib.Data.Set.Finite.Basic
import Mathlib.Logic.Relation
import Mathlib.Order.WellFounded

/-! Orders of items that depend on each other: an order in which every item comes after all it
depends on exists only without cycles, and where no item is left that depends on none of the
others there is a cycle.
-/

namespace Delonix.Library.TopologicalOrder

variable {α : Type} {r : α → α → Prop}

/-- Every item of the order comes after all that it depends on. -/
def Respects (r : α → α → Prop) (order : List α) : Prop :=
  ∀ front item back, order = front ++ item :: back → ∀ d, r item d → d ∈ front

theorem respects_nil : Respects r [] := by
  intro front item back split
  simp at split

theorem Respects.append_singleton {order : List α} (respects : Respects r order) {item : α}
    (before : ∀ d, r item d → d ∈ order)
    : Respects r (order ++ [item]) := by
  intro front other back split d depends
  rcases List.eq_nil_or_concat' back with rfl | ⟨init, last, rfl⟩
  · obtain ⟨rfl, same⟩ := List.append_inj' split rfl
    exact before d ((List.cons.inj same).1 ▸ depends)
  · have cut : order = front ++ other :: init := by
      rw [← List.cons_append, ← List.append_assoc] at split
      exact (List.append_inj' split rfl).1
    exact respects front other init cut d depends

/-- What an item depends on, over any number of steps, comes before it. -/
theorem Respects.mem_front {order : List α} (respects : Respects r order) {item d : α}
    (path : Relation.TransGen r item d) {front back : List α}
    (split : order = front ++ item :: back)
    : d ∈ front := by
  induction path with
  | single depends => exact respects front item back split _ depends
  | tail _ depends ih =>
      obtain ⟨before, after, rfl⟩ := List.append_of_mem ih
      have earlier := respects before _ (after ++ item :: back) (by simp [split]) _ depends
      simp [earlier]

theorem Respects.not_cycle {order : List α} (respects : Respects r order) {item : α}
    (member : item ∈ order)
    : ¬ Relation.TransGen r item item := by
  intro cycle
  obtain ⟨front, back, split, first⟩ := List.eq_append_cons_of_mem member
  exact first (respects.mem_front cycle split)

/-- Items of which each depends on another of them go round in a cycle: there are only finitely
many of them.
-/
theorem exists_cycle {items : List α} (nonempty : items ≠ [])
    (next : ∀ item ∈ items, ∃ d ∈ items, r item d)
    : ∃ item ∈ items, Relation.TransGen r item item := by
  by_contra none
  let inside := { item : α // item ∈ items }
  have finite : Finite inside := (List.finite_toSet items).to_subtype
  let below (a b : inside) : Prop := Relation.TransGen r b.val a.val
  have irreflexive : Std.Irrefl below :=
    ⟨fun item cycle => none ⟨item.val, item.property, cycle⟩⟩
  have transitive : IsTrans inside below := ⟨fun _ _ _ hab hbc => hbc.trans hab⟩
  have wellFounded : WellFounded below := Finite.wellFounded_of_trans_of_irrefl below
  obtain ⟨first, member⟩ := List.exists_mem_of_ne_nil items nonempty
  obtain ⟨least, -, minimal⟩ := wellFounded.has_min Set.univ ⟨⟨first, member⟩, trivial⟩
  obtain ⟨d, inItems, depends⟩ := next least.val least.property
  exact minimal ⟨d, inItems⟩ trivial (.single depends)

end Delonix.Library.TopologicalOrder
