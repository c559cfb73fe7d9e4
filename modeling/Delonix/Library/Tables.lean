import Mathlib.Data.List.Induction
import Mathlib.Logic.Basic
import Std.Data.ExtTreeMap

/-! Ordered tables laid over each other. A key of one table keeps its value, a key of both gets what
a function makes of the two; with an associative function laying tables over each other is
associative.
-/

namespace Delonix.Library.Tables

variable {κ β : Type} {cmp : κ → κ → Ordering} [Std.TransCmp cmp]

/-- One entry into a table. -/
def lay (f : β → β → β) (m : Std.ExtTreeMap κ β cmp) (key : κ) (value : β)
    : Std.ExtTreeMap κ β cmp :=
  match m[key]? with
  | some old => (m.erase key).insert key (f old value)
  | none => m.insert key value

/-- The entries of `n` into `m`, one after the other. -/
def overlay (f : β → β → β) (m n : Std.ExtTreeMap κ β cmp) : Std.ExtTreeMap κ β cmp :=
  n.foldl (lay f) m

/-- The entries of a list, the last one of a key. -/
def collect (entries : List (κ × β)) : Std.ExtTreeMap κ β cmp :=
  entries.foldl (fun m entry => m.insert entry.1 entry.2) ∅

theorem collect_append (entries : List (κ × β)) (entry : κ × β)
    : (collect (entries ++ [entry]) : Std.ExtTreeMap κ β cmp)
      = (collect entries).insert entry.1 entry.2 := by
  simp [collect]

variable [Std.LawfulEqCmp cmp]

theorem getElem?_lay (f : β → β → β) (m : Std.ExtTreeMap κ β cmp) (key : κ) (value : β) (k : κ)
    [Decidable (key = k)]
    : (lay f m key value)[k]? = if key = k then Option.merge f m[key]? (some value) else m[k]? := by
  rw [lay]
  cases old : m[key]? with
  | none => simp only [Std.ExtTreeMap.getElem?_insert, Std.LawfulEqCmp.compare_eq_iff_eq,
      Option.merge_none_left]
  | some old =>
      simp only [Std.ExtTreeMap.getElem?_insert, Std.ExtTreeMap.getElem?_erase,
        Std.LawfulEqCmp.compare_eq_iff_eq, Option.merge_some_some]
      split
      · rfl
      · rfl

/-- By induction over the entries, whose keys differ: at most one of them has the key. -/
theorem getElem?_foldl_lay (f : β → β → β) {entries : List (κ × β)}
    (apart : entries.Pairwise fun a b => a.1 ≠ b.1) (m : Std.ExtTreeMap κ β cmp) (k : κ)
    {value : Option β} (has : ∀ x, value = some x ↔ (k, x) ∈ entries)
    : (entries.foldl (fun m entry => lay f m entry.1 entry.2) m)[k]?
      = Option.merge f m[k]? value := by
  classical
  induction entries generalizing m value with
  | nil =>
      have absent : value = none := by simpa [Option.eq_none_iff_forall_ne_some] using has
      rw [absent, Option.merge_none_right, List.foldl_nil]
  | cons entry entries ih =>
      obtain ⟨key, x⟩ := entry
      obtain ⟨differs, rest⟩ := List.pairwise_cons.mp apart
      rw [List.foldl_cons]
      by_cases same : key = k
      · subst same
        have here : value = some x := (has x).mpr List.mem_cons_self
        have later : ∀ y, (none : Option β) = some y ↔ (key, y) ∈ entries := by
          intro y
          exact ⟨fun h => (Option.some_ne_none y h.symm).elim,
            fun member => (differs _ member rfl).elim⟩
        rw [ih rest _ later, getElem?_lay, if_pos rfl, Option.merge_none_right, here]
      · have later : ∀ y, value = some y ↔ (k, y) ∈ entries := by
          intro y
          simp only [has, List.mem_cons, Prod.mk.injEq, Ne.symm same, false_and, false_or]
        rw [ih rest _ later, getElem?_lay, if_neg same]

theorem getElem?_overlay (f : β → β → β) (m n : Std.ExtTreeMap κ β cmp) (k : κ)
    : (overlay f m n)[k]? = Option.merge f m[k]? n[k]? := by
  rw [overlay, Std.ExtTreeMap.foldl_eq_foldl_toList]
  refine getElem?_foldl_lay f ?_ m k fun x => ?_
  · refine Std.ExtTreeMap.distinct_keys_toList.imp fun differs => ?_
    rwa [Std.LawfulEqCmp.compare_eq_iff_eq] at differs
  · exact Std.ExtTreeMap.mem_toList_iff_getElem?_eq_some.symm

theorem overlay_assoc {f : β → β → β} (assoc : ∀ a b c, f (f a b) c = f a (f b c))
    (m n o : Std.ExtTreeMap κ β cmp)
    : overlay f (overlay f m n) o = overlay f m (overlay f n o) := by
  have : Std.Associative f := ⟨assoc⟩
  refine Std.ExtTreeMap.ext_getElem? fun k => ?_
  simp only [getElem?_overlay]
  exact Std.Associative.assoc ..

theorem overlay_empty (f : β → β → β) (m : Std.ExtTreeMap κ β cmp) : overlay f m ∅ = m := by
  refine Std.ExtTreeMap.ext_getElem? fun k => ?_
  simp [getElem?_overlay]

theorem empty_overlay (f : β → β → β) (m : Std.ExtTreeMap κ β cmp) : overlay f ∅ m = m := by
  refine Std.ExtTreeMap.ext_getElem? fun k => ?_
  simp [getElem?_overlay]

theorem union_assoc (m n o : Std.ExtTreeMap κ β cmp) : (m ∪ n) ∪ o = m ∪ (n ∪ o) := by
  refine Std.ExtTreeMap.ext_getElem? fun k => ?_
  simp only [Std.ExtTreeMap.getElem?_union, Option.or_assoc]

theorem union_empty (m : Std.ExtTreeMap κ β cmp) : m ∪ ∅ = m := by
  refine Std.ExtTreeMap.ext_getElem? fun k => ?_
  simp [Std.ExtTreeMap.getElem?_union]

theorem empty_union (m : Std.ExtTreeMap κ β cmp) : ∅ ∪ m = m := by
  refine Std.ExtTreeMap.ext_getElem? fun k => ?_
  simp [Std.ExtTreeMap.getElem?_union]

/-- A collected value was in the list, and each key of the list has a value. -/
theorem mem_of_getElem?_collect {entries : List (κ × β)} {k : κ} {x : β}
    (found : (collect entries : Std.ExtTreeMap κ β cmp)[k]? = some x)
    : (k, x) ∈ entries := by
  induction entries using List.reverseRecOn with
  | nil => simp [collect] at found
  | append_singleton entries entry ih =>
      rw [collect_append, Std.ExtTreeMap.getElem?_insert] at found
      split at found
      case isTrue same =>
        obtain rfl := Std.LawfulEqCmp.compare_eq_iff_eq.mp same
        obtain rfl := Option.some.inj found
        exact List.mem_append_right _ (List.mem_singleton.mpr rfl)
      case isFalse => exact List.mem_append_left _ (ih found)

theorem exists_getElem?_collect {entries : List (κ × β)} {entry : κ × β}
    (member : entry ∈ entries)
    : ∃ x, (collect entries : Std.ExtTreeMap κ β cmp)[entry.1]? = some x := by
  induction entries using List.reverseRecOn with
  | nil => cases member
  | append_singleton entries last ih =>
      rw [collect_append, Std.ExtTreeMap.getElem?_insert]
      split
      case isTrue => exact ⟨_, rfl⟩
      case isFalse differs =>
        refine ih ((List.mem_append.mp member).resolve_right fun is => differs ?_)
        rw [List.mem_singleton.mp is]
        exact Std.ReflCmp.compare_self

end Delonix.Library.Tables
