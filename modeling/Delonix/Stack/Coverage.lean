import Delonix.Stack.Reconcile

/-! A plan covers the manifest and this stack's own resources, and nothing else. -/

namespace Delonix.Stack

/-- The identity of a resource: its Kind and its name. -/
def Desired.key (d : Desired) : String × String := (d.kind, d.name)

def Actual.key (a : Actual) : String × String := (a.kind, a.name)

def Change.key (c : Change) : String × String := (c.kind, c.name)

/-- What a plan promises about the resources it mentions. -/
structure PlanCovers (desired : List Desired) (actual : List Actual) (stack : String)
    (plan : List Change) : Prop where
  /-- One decision for each declared resource in manifest order, then one deletion for each
  resource of this stack that is not declared.
  -/
  shape : ∃ decisions deletions, plan = decisions ++ deletions
    ∧ decisions.map Change.key = desired.map Desired.key
    ∧ (∀ change ∈ decisions, change.action ≠ .delete)
    ∧ deletions.map Change.key
      = (actual.filter (fun a => a.owner = some stack ∧ a.key ∉ desired.map Desired.key)).map
          Actual.key
    ∧ ∀ change ∈ deletions, change.action = .delete
  /-- No resource is mentioned twice. -/
  once : (plan.map Change.key).Nodup
  /-- Nothing that belongs to another stack is changed. -/
  foreign : ∀ change ∈ plan, change.action.isChange = true → ∀ a ∈ actual,
    a.key = change.key → ∀ owner, a.owner = some owner → owner = stack
  /-- What belongs to nobody and is not declared is not mentioned. -/
  unowned : ∀ a ∈ actual, a.owner = none → a.key ∉ desired.map Desired.key →
    ∀ change ∈ plan, change.key ≠ a.key

theorem isUndeclared_iff {desired : List Desired} {stack : String} {a : Actual}
    : isUndeclared desired stack a = true
      ↔ a.owner = some stack ∧ a.key ∉ desired.map Desired.key := by
  simp only [isUndeclared, Bool.and_eq_true, beq_iff_eq, Bool.not_eq_true', List.any_eq_false,
    List.mem_map, not_exists, not_and, Desired.key, Actual.key, Prod.mk.injEq]

theorem convergeChange_key (d : Desired) (a : Actual) (facts : Option Facts)
    : (convergeChange d a facts).key = d.key
      ∧ (convergeChange d a facts).action ≠ .delete := by
  unfold convergeChange
  dsimp only
  split
  · exact ⟨rfl, by simp [Change.new]⟩
  · split
    · exact ⟨rfl, by simp [Change.new]⟩
    · split
      · exact ⟨rfl, by simp [Change.new]⟩
      · split <;> exact ⟨rfl, by simp [Change.new]⟩

/-- A decision is about the resource it was made for, and never deletes it. -/
theorem desiredChange_key (actual : List Actual) (stack : String) (facts : FactsMap)
    (d : Desired)
    : (desiredChange actual stack facts d).key = d.key
      ∧ (desiredChange actual stack facts d).action ≠ .delete := by
  unfold desiredChange
  split
  · exact ⟨rfl, by simp [Change.new]⟩
  · split
    · exact ⟨rfl, by simp [Change.new]⟩
    · split
      · exact ⟨rfl, by simp [Change.new]⟩
      · exact convergeChange_key _ _ _

theorem key_eq_iff {a : Actual} {d : Desired}
    : (a.kind == d.kind && a.name == d.name) = true ↔ a.key = d.key := by
  simp [Actual.key, Desired.key]

/-- A decision that changes something was made about a resource of this stack or of nobody.
The resource found for a declaration is the only one with its key.
-/
theorem owner_of_desiredChange {actual : List Actual} (distinct : (actual.map Actual.key).Nodup)
    {stack : String} {facts : FactsMap} {d : Desired}
    (changes : (desiredChange actual stack facts d).action.isChange = true) {a : Actual}
    (member : a ∈ actual) (same : a.key = d.key) {owner : String}
    (owned : a.owner = some owner)
    : owner = stack := by
  unfold desiredChange at changes
  split at changes
  case h_1 absent =>
    have refused := List.find?_eq_none.mp absent a member
    exact (refused (key_eq_iff.mpr same)).elim
  case h_2 found isFound =>
    have sameFound : found = a := by
      have matched := List.find?_some isFound
      exact List.inj_on_of_nodup_map distinct (List.mem_of_find?_eq_some isFound) member
        ((key_eq_iff.mp matched).trans same.symm)
    subst sameFound
    split at changes
    case h_1 => simp [Change.new, Action.isChange] at changes
    case h_2 mine =>
      by_contra differs
      simp [owned, differs] at mine

theorem map_key_decisions (desired : List Desired) (actual : List Actual) (stack : String)
    (facts : FactsMap)
    : (desired.map (desiredChange actual stack facts)).map Change.key
      = desired.map Desired.key := by
  rw [List.map_map]
  exact List.map_congr_left (fun d _ => (desiredChange_key actual stack facts d).1)

theorem map_key_deletions (actual : List Actual)
    : (actual.map deleteChange).map Change.key = actual.map Actual.key := by
  rw [List.map_map]
  rfl

/-- Every change of a plan is a decision about a declared resource or a deletion of an
undeclared one of this stack.
-/
theorem mem_planWithFacts {desired : List Desired} {actual : List Actual} {stack : String}
    {facts : FactsMap} {change : Change}
    (member : change ∈ planWithFacts desired actual stack facts)
    : (∃ d ∈ desired, desiredChange actual stack facts d = change)
      ∨ ∃ a ∈ actual, isUndeclared desired stack a = true ∧ deleteChange a = change := by
  rcases List.mem_append.mp member with decision | deletion
  · exact .inl (List.mem_map.mp decision)
  · obtain ⟨a, kept, made⟩ := List.mem_map.mp deletion
    obtain ⟨held, undeclared⟩ := List.mem_filter.mp kept
    exact .inr ⟨a, held, undeclared, made⟩

/-- Distinct declarations and distinct resources make a plan that covers exactly the manifest
and this stack's own resources.
-/
theorem planWithFacts_covers {desired : List Desired} {actual : List Actual}
    (declared : (desired.map Desired.key).Nodup) (distinct : (actual.map Actual.key).Nodup)
    (stack : String) (facts : FactsMap)
    : PlanCovers desired actual stack (planWithFacts desired actual stack facts) where
  shape := by
    refine ⟨_, _, rfl, map_key_decisions desired actual stack facts, ?_, ?_, ?_⟩
    · intro change member
      obtain ⟨d, _, rfl⟩ := List.mem_map.mp member
      exact (desiredChange_key actual stack facts d).2
    · rw [map_key_deletions]
      congr 1
      apply List.filter_congr
      intro a _
      rw [Bool.eq_iff_iff, isUndeclared_iff]
      simp
    · intro change member
      obtain ⟨a, _, rfl⟩ := List.mem_map.mp member
      rfl
  once := by
    rw [planWithFacts, List.map_append, map_key_decisions, map_key_deletions]
    refine List.Nodup.append declared ?_ ?_
    · exact distinct.sublist (List.filter_sublist.map _)
    · intro key decided deleted
      obtain ⟨a, kept, rfl⟩ := List.mem_map.mp deleted
      exact (isUndeclared_iff.mp (List.mem_filter.mp kept).2).2 decided
  foreign := by
    intro change member changes a held same owner owned
    rcases mem_planWithFacts member with ⟨d, _, rfl⟩ | ⟨mine, heldMine, undeclared, rfl⟩
    · exact owner_of_desiredChange distinct changes held
        (same.trans (desiredChange_key actual stack facts d).1) owned
    · obtain rfl : a = mine := List.inj_on_of_nodup_map distinct held heldMine same
      have stamped := (isUndeclared_iff.mp undeclared).1
      rw [owned] at stamped
      exact Option.some.inj stamped
  unowned := by
    intro a held nobody undeclared change member same
    rcases mem_planWithFacts member with ⟨d, isDeclared, rfl⟩ | ⟨mine, heldMine, dropped, rfl⟩
    · apply undeclared
      rw [← same, (desiredChange_key actual stack facts d).1]
      exact List.mem_map_of_mem isDeclared
    · obtain rfl : mine = a := List.inj_on_of_nodup_map distinct heldMine held same
      have stamped := (isUndeclared_iff.mp dropped).1
      rw [nobody] at stamped
      contradiction

/-- A volume of the given name and owner, with no compared field. -/
def plainVolume (name : String) (owner : Option String) : Actual :=
  { kind := Kind.volume, name, fields := ∅, owner, lastApplied := none }

/-- One declared volume, and on the machine one of this stack, one of another stack and one
of nobody.
-/
theorem planWithFacts_covers_volumes
    : PlanCovers
        [{ kind := Kind.volume, name := "data", fields := ∅, converges := true,
           ownable := true }]
        [plainVolume "old" (some "shop"), plainVolume "theirs" (some "blog"),
          plainVolume "free" none]
        "shop"
        (planWithFacts
          [{ kind := Kind.volume, name := "data", fields := ∅, converges := true,
             ownable := true }]
          [plainVolume "old" (some "shop"), plainVolume "theirs" (some "blog"),
            plainVolume "free" none]
          "shop" (fun _ _ => none)) :=
  planWithFacts_covers (by decide) (by decide) "shop" (fun _ _ => none)

end Delonix.Stack
