import Mathlib.Data.List.Sort
import Mathlib.Data.List.Basic
import Mathlib.Order.Defs.LinearOrder

/-! A sorted list read page by page, each page from behind the key of the last item of the one
before. The list may change between two pages.
-/

namespace Delonix.Library.Paging

variable {α κ : Type} [LinearOrder κ] {key : α → κ}

/-- The items behind a key, or all of them. -/
def behind (key : α → κ) (after : Option κ) (items : List α) : List α :=
  items.filter fun item => after.all (· < key item)

/-- A page, and the key to go on from when there is more. -/
def page (key : α → κ) (size : Nat) (rest : List α) : List α × Option κ :=
  let shown := rest.take size
  (shown, if size < rest.length then shown.getLast?.map key else none)

/-- Strictly in the order of the keys. -/
def Ordered (key : α → κ) (items : List α) : Prop :=
  items.Pairwise fun a b => key a < key b

theorem mem_behind {after : Option κ} {items : List α} {item : α}
    : item ∈ behind key after items ↔ item ∈ items ∧ ∀ k ∈ after, k < key item := by
  simp [behind, Option.all_eq_true]

theorem Ordered.behind {items : List α} (ordered : Ordered key items) (after : Option κ)
    : Ordered key (behind key after items) :=
  List.Pairwise.filter _ ordered

omit [LinearOrder κ] in
theorem shown_of_page {size : Nat} {rest shown : List α} {next : Option κ}
    (is : page key size rest = (shown, next))
    : shown = rest.take size :=
  (congrArg Prod.fst is).symm

omit [LinearOrder κ] in
/-- With nothing more to come the page is all that is left. -/
theorem page_last {size : Nat} {rest shown : List α} (positive : 0 < size)
    (is : page key size rest = (shown, none))
    : shown = rest := by
  obtain ⟨shown_is, next_is⟩ := Prod.mk.inj is
  split at next_is
  case isTrue more =>
    have empty : rest.take size = [] := by simpa using next_is
    rcases List.take_eq_nil_iff.mp empty with zero | nil
    · omega
    · simp [nil] at more
  case isFalse all =>
    rw [← shown_is, List.take_of_length_le (by omega)]

/-- With more to come the page is full, and the rest is what lies behind its last key. -/
theorem page_more {size : Nat} {rest shown : List α} {k : κ} (ordered : Ordered key rest)
    (is : page key size rest = (shown, some k))
    : shown.length = size ∧ rest = shown ++ behind key (some k) rest
      ∧ (∀ item ∈ shown, key item ≤ k) ∧ ∃ item ∈ shown, key item = k := by
  obtain ⟨shown_is, next_is⟩ := Prod.mk.inj is
  split at next_is
  case isFalse => cases next_is
  case isTrue more =>
    have split := List.take_append_drop size rest
    rw [shown_is] at split next_is
    obtain ⟨final, final_is, rfl⟩ := Option.map_eq_some_iff.mp next_is
    obtain ⟨front, rfl⟩ := List.getLast?_eq_some_iff.mp final_is
    have apart := List.pairwise_append.mp (split ▸ ordered)
    have upto : ∀ item ∈ front ++ [final], key item ≤ key final := by
      intro item member
      rcases List.mem_append.mp member with earlier | last
      · exact le_of_lt ((List.pairwise_append.mp apart.1).2.2 item earlier final (by simp))
      · rw [List.mem_singleton.mp last]
    refine ⟨?_, ?_, upto, final, by simp, rfl⟩
    · rw [← shown_is, List.length_take]
      omega
    · nth_rewrite 2 [← split]
      rw [behind, List.filter_append]
      have none_left : (front ++ [final]).filter (fun item => (some (key final)).all (· < key item))
          = [] := by
        refine List.filter_eq_nil_iff.mpr fun item member => ?_
        simpa using upto item member
      have all_right : (rest.drop size).filter (fun item => (some (key final)).all (· < key item))
          = rest.drop size := by
        refine List.filter_eq_self.mpr fun item member => ?_
        simpa using apart.2.2 final (by simp) item member
      rw [none_left, all_right, List.nil_append]
      exact split.symm

/-- Pages read one after the other, each with the items there were and those it shows. The last one
tells where to go on, if there is more.
-/
inductive Follows (key : α → κ) (size : Nat) : Option κ → List (List α × List α) → Option κ → Prop
  | last {after next : Option κ} {items shown : List α} (ordered : Ordered key items)
      (is : page key size (behind key after items) = (shown, next))
    : Follows key size after [(items, shown)] next
  | cons {after next : Option κ} {k : κ} {items shown : List α} {pages : List (List α × List α)}
      (ordered : Ordered key items)
      (is : page key size (behind key after items) = (shown, some k))
      (rest : Follows key size (some k) pages next)
    : Follows key size after ((items, shown) :: pages) next

/-- All that was shown. -/
def shownIn (pages : List (List α × List α)) : List α := pages.flatMap Prod.snd

variable {size : Nat} {after next : Option κ} {pages : List (List α × List α)}

omit [LinearOrder κ] in
theorem subset_of_page {rest shown : List α} (is : page key size rest = (shown, next))
    : ∀ item ∈ shown, item ∈ rest := by
  intro item member
  rw [shown_of_page is] at member
  exact List.mem_of_mem_take member

@[simp] theorem shownIn_singleton (items shown : List α) : shownIn [(items, shown)] = shown := by
  simp [shownIn]

@[simp] theorem shownIn_cons (items shown : List α) (pages : List (List α × List α))
    : shownIn ((items, shown) :: pages) = shown ++ shownIn pages :=
  rfl

theorem Follows.mem (follows : Follows key size after pages next)
    : ∀ item ∈ shownIn pages, ∀ k ∈ after, k < key item := by
  induction follows with
  | last ordered is =>
      intro item member
      rw [shownIn_singleton] at member
      exact (mem_behind.mp (subset_of_page is item member)).2
  | @cons after next k items shown pages ordered is rest ih =>
      intro item member low low_is
      rw [shownIn_cons] at member
      rcases List.mem_append.mp member with here | later
      · exact (mem_behind.mp (subset_of_page is item here)).2 low low_is
      · obtain ⟨-, -, -, final, inside, rfl⟩ := page_more (ordered.behind after) is
        have above : low < key final :=
          (mem_behind.mp (subset_of_page is final inside)).2 low low_is
        exact above.trans (ih item later _ rfl)

/-- A page shows items there were. -/
theorem Follows.subset (follows : Follows key size after pages next)
    : ∀ entry ∈ pages, ∀ item ∈ entry.2, item ∈ entry.1 := by
  induction follows with
  | last ordered is =>
      intro entry member
      rw [List.mem_singleton.mp member]
      exact fun item here => (mem_behind.mp (subset_of_page is item here)).1
  | cons ordered is rest ih =>
      refine List.forall_mem_cons.mpr ⟨fun item here => ?_, ih⟩
      exact (mem_behind.mp (subset_of_page is item here)).1

/-- Whatever happens to the list between the pages, what is shown is in order, without repeats. -/
theorem Follows.ordered (follows : Follows key size after pages next)
    : Ordered key (shownIn pages) := by
  induction follows with
  | last ordered is =>
      rw [shownIn_singleton, shown_of_page is]
      exact (ordered.behind _).sublist (List.take_sublist _ _)
  | @cons after next k items shown pages ordered is rest ih =>
      obtain ⟨-, -, upto, -⟩ := page_more (ordered.behind after) is
      rw [shownIn_cons]
      refine List.pairwise_append.mpr ⟨?_, ih, ?_⟩
      · rw [shown_of_page is]
        exact (ordered.behind _).sublist (List.take_sublist _ _)
      · intro item here other later
        exact (upto item here).trans_lt (rest.mem other later k rfl)

/-- A key that is there throughout is shown, once the pages have come past it. -/
theorem Follows.complete (positive : 0 < size) (follows : Follows key size after pages next)
    {wanted : κ} (ahead : ∀ k ∈ after, k < wanted)
    (throughout : ∀ entry ∈ pages, ∃ item ∈ entry.1, key item = wanted)
    (passed : ∀ k ∈ next, wanted ≤ k)
    : ∃ item ∈ shownIn pages, key item = wanted := by
  induction follows with
  | @last after next items shown ordered is =>
      obtain ⟨item, member, rfl⟩ := throughout _ (List.mem_singleton_self _)
      have inside := mem_behind.mpr ⟨member, ahead⟩
      refine ⟨item, ?_, rfl⟩
      rw [shownIn_singleton]
      cases next with
      | none => exact page_last positive is ▸ inside
      | some k =>
          obtain ⟨-, rest_is, -⟩ := page_more (ordered.behind after) is
          rw [rest_is] at inside
          rcases List.mem_append.mp inside with here | later
          · exact here
          · exact absurd ((mem_behind.mp later).2 k rfl) (not_lt.mpr (passed k rfl))
  | @cons after next k items shown pages ordered is rest ih =>
      have later := fun entry member => throughout entry (List.mem_cons_of_mem _ member)
      by_cases here : wanted ≤ k
      · obtain ⟨item, member, rfl⟩ := throughout _ List.mem_cons_self
        have inside := mem_behind.mpr ⟨member, ahead⟩
        obtain ⟨-, rest_is, -⟩ := page_more (ordered.behind after) is
        rw [rest_is] at inside
        rcases List.mem_append.mp inside with shown | behind
        · exact ⟨item, List.mem_append_left _ shown, rfl⟩
        · exact absurd ((mem_behind.mp behind).2 k rfl) (not_lt.mpr here)
      · obtain ⟨item, member, is⟩ := ih
          (fun low low_is => Option.some.inj low_is ▸ not_le.mp here) later passed
        exact ⟨item, List.mem_append_right _ member, is⟩

theorem behind_behind {items : List α} {k : κ} (above : ∀ low ∈ after, low < k)
    : behind key (some k) (behind key after items) = behind key (some k) items := by
  rw [behind, behind, behind, List.filter_filter]
  refine List.filter_congr fun item member => ?_
  cases after with
  | none => simp
  | some low =>
      have step := above low rfl
      by_cases later : k < key item
      · simp [later, step.trans later]
      · simp [later]

/-- The page, and what is left behind its last key. -/
theorem behind_of_page_more {items shown : List α} {k : κ} (ordered : Ordered key items)
    (is : page key size (behind key after items) = (shown, some k))
    : shown.length = size ∧ behind key after items = shown ++ behind key (some k) items := by
  obtain ⟨full, rest_is, -, final, inside, rfl⟩ := page_more (ordered.behind after) is
  rw [behind_behind (mem_behind.mp (subset_of_page is final inside)).2] at rest_is
  exact ⟨full, rest_is⟩

/-- Pages over one list show all of it, in its order. -/
theorem Follows.all_of_fixed (positive : 0 < size) {items : List α}
    (follows : Follows key size after pages next) (finished : next = none)
    (fixed : ∀ entry ∈ pages, entry.1 = items)
    : shownIn pages = behind key after items := by
  induction follows with
  | last ordered is =>
      subst finished
      rw [shownIn_singleton, page_last positive is,
        ← show _ = items from fixed _ (List.mem_singleton_self _)]
  | cons ordered is rest ih =>
      rw [shownIn_cons, ih finished fun entry member => fixed entry (List.mem_cons_of_mem _ member),
        ← show _ = items from fixed _ List.mem_cons_self]
      exact (behind_of_page_more ordered is).2.symm

/-- Pages over one list end: all but the last one are full. -/
theorem Follows.length_le {items : List α} (follows : Follows key size after pages next)
    (fixed : ∀ entry ∈ pages, entry.1 = items)
    : (pages.length - 1) * size ≤ (behind key after items).length := by
  induction follows with
  | last => simp
  | @cons after next k items' shown pages ordered is rest ih =>
      have tail := ih fun entry member => fixed entry (List.mem_cons_of_mem _ member)
      obtain ⟨full, rest_is⟩ := behind_of_page_more ordered is
      rw [show items' = items from fixed _ List.mem_cons_self] at rest_is
      have longer : pages.length = pages.length - 1 + 1 := by
        cases rest <;> simp
      rw [rest_is, List.length_append, full, List.length_cons, Nat.add_sub_cancel, longer,
        Nat.succ_mul]
      omega

end Delonix.Library.Paging
