import Mathlib.Data.List.Induction
import Mathlib.Data.List.Nodup

/-! Items put into a list one after the other: behind the others where their key is not there yet,
else left out, or put in the place of the first that has it.
-/

namespace Delonix.Library.KeyedMerge

variable {α κ : Type} [DecidableEq κ] {key : α → κ}

/-- An item behind the others, unless its key is there already. -/
def pushNew (key : α → κ) (items : List α) (item : α) : List α :=
  if items.any (fun e => key e = key item) then items else items ++ [item]

def concatNew (key : α → κ) (items more : List α) : List α := more.foldl (pushNew key) items

theorem pushNew_known {items : List α} {item : α} (known : ∃ e ∈ items, key e = key item)
    : pushNew key items item = items := by
  rw [pushNew, if_pos]
  simpa using known

theorem pushNew_new {items : List α} {item : α} (new : ∀ e ∈ items, key e ≠ key item)
    : pushNew key items item = items ++ [item] := by
  rw [pushNew, if_neg]
  simpa using new

theorem mem_keys_pushNew {items : List α} {item : α} {k : κ}
    : (∃ e ∈ pushNew key items item, key e = k) ↔ (∃ e ∈ items, key e = k) ∨ key item = k := by
  by_cases known : ∃ e ∈ items, key e = key item
  · rw [pushNew_known known]
    refine ⟨.inl, fun either => either.elim id ?_⟩
    rintro rfl
    exact known
  · rw [pushNew_new fun e member same => known ⟨e, member, same⟩]
    simp only [List.mem_append, List.mem_singleton, or_and_right, exists_or, exists_eq_left]

theorem mem_keys_concatNew {items more : List α} {k : κ}
    : (∃ e ∈ concatNew key items more, key e = k)
      ↔ (∃ e ∈ items, key e = k) ∨ ∃ e ∈ more, key e = k := by
  induction more generalizing items with
  | nil => simp [concatNew]
  | cons item more ih =>
      rw [concatNew, List.foldl_cons, ← concatNew, ih, mem_keys_pushNew]
      simp only [List.mem_cons, or_and_right, exists_or, exists_eq_left, or_assoc]

/-- What is there stays in front; the rest are items of the other list. -/
theorem concatNew_eq_append (items more : List α)
    : ∃ news, concatNew key items more = items ++ news ∧ ∀ item ∈ news, item ∈ more := by
  induction more generalizing items with
  | nil => exact ⟨[], (List.append_nil items).symm, by simp⟩
  | cons item more ih =>
      rw [concatNew, List.foldl_cons, ← concatNew]
      by_cases known : ∃ e ∈ items, key e = key item
      · rw [pushNew_known known]
        obtain ⟨news, is, all⟩ := ih items
        exact ⟨news, is, fun e member => List.mem_cons_of_mem _ (all e member)⟩
      · rw [pushNew_new fun e member same => known ⟨e, member, same⟩]
        obtain ⟨news, is, all⟩ := ih (items ++ [item])
        refine ⟨item :: news, by rw [is, List.append_assoc, List.singleton_append], ?_⟩
        exact List.forall_mem_cons.mpr
          ⟨List.mem_cons_self, fun e member => List.mem_cons_of_mem _ (all e member)⟩

theorem nodup_concatNew {items : List α} (once : (items.map key).Nodup) (more : List α)
    : ((concatNew key items more).map key).Nodup := by
  induction more generalizing items with
  | nil => exact once
  | cons item more ih =>
      rw [concatNew, List.foldl_cons, ← concatNew]
      by_cases known : ∃ e ∈ items, key e = key item
      · rw [pushNew_known known]
        exact ih once
      · have new : ∀ e ∈ items, key e ≠ key item := fun e member same => known ⟨e, member, same⟩
        rw [pushNew_new new]
        refine ih ?_
        rw [List.map_append, List.map_singleton]
        refine List.nodup_append.mpr ⟨once, List.nodup_singleton _, ?_⟩
        intro k old other last
        obtain ⟨e, member, rfl⟩ := List.mem_map.mp old
        rw [List.mem_singleton.mp last]
        exact new e member

/-- An item in the place of the first that has its key, or behind the others. -/
def upsert (key : α → κ) : List α → α → List α
  | [], item => [item]
  | x :: rest, item => if key x = key item then item :: rest else x :: upsert key rest item

def upsertAll (key : α → κ) (items more : List α) : List α := more.foldl (upsert key) items

theorem find?_upsert (items : List α) (item : α) (k : κ)
    : (upsert key items item).find? (fun e => decide (key e = k))
      = if key item = k then some item else items.find? fun e => decide (key e = k) := by
  induction items with
  | nil =>
      rw [upsert, List.find?_singleton]
      simp only [decide_eq_true_eq, List.find?_nil]
  | cons x rest ih =>
      rw [upsert]
      by_cases same : key x = key item
      · rw [if_pos same]
        by_cases here : key item = k <;> simp [here, same]
      · rw [if_neg same, List.find?_cons, ih, List.find?_cons]
        by_cases here : key item = k
        · have other : key x ≠ k := fun is => same (is.trans here.symm)
          simp [here, other]
        · simp only [if_neg here]

/-- A key has the last item of the list that has it, or what it had before. -/
theorem find?_upsertAll (items more : List α) (k : κ)
    : (upsertAll key items more).find? (fun e => decide (key e = k))
      = (more.reverse.find? fun e => decide (key e = k)).or
          (items.find? fun e => decide (key e = k)) := by
  induction more generalizing items with
  | nil => rfl
  | cons item more ih =>
      rw [upsertAll, List.foldl_cons, ← upsertAll, ih, find?_upsert, List.reverse_cons,
        List.find?_append, Option.or_assoc, List.find?_singleton]
      by_cases here : key item = k <;> simp [here]

/-- A key stays where it was first put. -/
theorem keys_upsertAll (items more : List α)
    : (upsertAll key items more).map key = concatNew id (items.map key) (more.map key) := by
  have one (items : List α) (item : α)
      : (upsert key items item).map key = pushNew id (items.map key) (key item) := by
    induction items with
    | nil => rfl
    | cons x rest ih =>
        rw [upsert]
        by_cases same : key x = key item
        · rw [if_pos same, pushNew_known ⟨key x, by simp, same⟩, List.map_cons, List.map_cons, same]
        · rw [if_neg same, List.map_cons, ih, List.map_cons]
          simp [pushNew, same]
          split <;> rfl
  induction more generalizing items with
  | nil => rfl
  | cons item more ih =>
      rw [upsertAll, List.foldl_cons, ← upsertAll, ih, one]
      rfl

theorem nodup_upsertAll (more : List α) : ((upsertAll key [] more).map key).Nodup := by
  have once : ((concatNew id [] (more.map key)).map id).Nodup :=
    nodup_concatNew (by simp) _
  rwa [List.map_id, ← List.map_nil, ← keys_upsertAll] at once

theorem upsert_new {items : List α} {item : α} (new : ∀ e ∈ items, key e ≠ key item)
    : upsert key items item = items ++ [item] := by
  induction items with
  | nil => rfl
  | cons x rest ih =>
      obtain ⟨differs, others⟩ := List.forall_mem_cons.mp new
      rw [upsert, if_neg differs, ih others, List.cons_append]

/-- Items whose keys differ are put behind one another. -/
theorem upsertAll_eq_self {items : List α} (once : (items.map key).Nodup)
    : upsertAll key [] items = items := by
  induction items using List.reverseRecOn with
  | nil => rfl
  | append_singleton items item ih =>
      rw [List.map_append, List.map_singleton] at once
      obtain ⟨before, -, apart⟩ := List.nodup_append.mp once
      rw [upsertAll, List.foldl_append]
      change upsert key (upsertAll key [] items) item = items ++ [item]
      rw [ih before]
      exact upsert_new fun e member => apart _ (List.mem_map_of_mem member) _
        (List.mem_singleton.mpr rfl)

theorem exists_of_mem_upsertAll {more : List α} {item : α} (member : item ∈ upsertAll key [] more)
    : ∃ e ∈ more, key e = key item := by
  have named : key item ∈ (upsertAll key [] more).map key := List.mem_map_of_mem member
  rw [keys_upsertAll] at named
  have found := mem_keys_concatNew.mp ⟨_, named, rfl⟩
  simpa using found

end Delonix.Library.KeyedMerge
