import Delonix.Library.Checks
import Delonix.Library.Collections
import Delonix.Library.Text
import Mathlib.Algebra.GroupWithZero.Nat
import Mathlib.Algebra.Order.BigOperators.Group.List
import Mathlib.Algebra.Order.Group.Nat
import Mathlib.Data.Char
import Mathlib.Data.Finset.Card
import Mathlib.Data.Finset.Dedup
import Mathlib.Data.List.Lex
import Mathlib.Order.Bounds.Basic

/-! Which services of a project start and in which order: those with a requested profile or none,
what these depend on, and a service only after all it depends on.
-/

namespace Delonix.Compose.StartOrder

open Delonix.Library.Collections

abbrev Text := List Char

/-- The services waited for. The long form has a condition for each. -/
inductive DependsOn where
  | short (names : List Text)
  | long (entries : AList fun _ : Text => Text)

def DependsOn.names : DependsOn → List Text
  | short names => names
  | long entries => entries.keys

structure Service where
  profiles : List Text
  dependsOn : DependsOn

abbrev Services := AList fun _ : Text => Service

attribute [local instance] Library.Text.lawfulBEq

def selected (requested : List Text) (svc : Service) : Bool :=
  svc.profiles.isEmpty || svc.profiles.any fun p => requested.contains p

def initial (services : Services) (requested : List Text) : List Text :=
  sortedSet ((services.entries.filter fun entry => selected requested entry.2).map (·.1))

def additions (services : Services) (active : List Text) : List Text :=
  ((active.filterMap fun name => services.lookup name).flatMap fun svc =>
    svc.dependsOn.names).filter fun dep => dep ∉ active

/-- All names that the services depend on, which bounds how far the set can grow. -/
def namedDeps (services : Services) : List Text :=
  services.entries.flatMap fun entry => entry.2.dependsOn.names

theorem mem_additions {services : Services} {active : List Text} {dep : Text}
    : dep ∈ additions services active
      ↔ dep ∉ active ∧ ∃ name ∈ active, ∃ svc, services.lookup name = some svc
        ∧ dep ∈ svc.dependsOn.names := by
  simp only [additions, List.mem_filter, List.mem_flatMap, List.mem_filterMap,
    decide_eq_true_eq]
  constructor
  · intro h
    obtain ⟨⟨svc, ⟨name, member, found⟩, named⟩, new⟩ := h
    exact ⟨new, name, member, svc, found, named⟩
  · intro h
    obtain ⟨new, name, member, svc, found, named⟩ := h
    exact ⟨⟨svc, ⟨name, member, found⟩, named⟩, new⟩

theorem mem_namedDeps {services : Services} {name dep : Text} {svc : Service}
    (found : services.lookup name = some svc) (named : dep ∈ svc.dependsOn.names)
    : dep ∈ namedDeps services :=
  List.mem_flatMap.mpr ⟨⟨name, svc⟩, AList.mem_lookup_iff.mp found, named⟩

/-- Every round adds a name that was missing. -/
theorem fewer_missing {services : Services} {active : List Text}
    (more : additions services active ≠ [])
    : ((namedDeps services).toFinset
        \ (sortedSet (active ++ additions services active)).toFinset).card
      < ((namedDeps services).toFinset \ active.toFinset).card := by
  obtain ⟨dep, member⟩ := List.exists_mem_of_ne_nil _ more
  obtain ⟨new, name, -, svc, found, named⟩ := mem_additions.mp member
  refine Finset.card_lt_card (Finset.ssubset_iff_of_subset ?_ |>.mpr ⟨dep, ?_, ?_⟩)
  · intro other
    simp only [Finset.mem_sdiff, List.mem_toFinset, mem_sortedSet, List.mem_append, not_or]
    exact fun h => ⟨h.1, h.2.1⟩
  · simp [mem_namedDeps found named, new]
  · simp [member]

/-- The rounds of the loop. -/
def activeFrom (services : Services) (active : List Text) : List Text :=
  if _more : additions services active = [] then active
  else activeFrom services (sortedSet (active ++ additions services active))
termination_by ((namedDeps services).toFinset \ active.toFinset).card
decreasing_by exact fewer_missing _more

def activeServices (services : Services) (requested : List Text) : List Text :=
  activeFrom services (initial services requested)

/-- Where a run ends without an order: an index that is not there, or an error that is shown. -/
inductive Failure where
  | panic
  | invalid (message : Text)

def undefinedDep (name dep : Text) : Failure :=
  .invalid ("compose: service '".toList ++ name ++ "' depends_on undefined service '".toList
    ++ dep ++ "'".toList)

def circular (names : List Text) : Failure :=
  .invalid ("compose: circular depends_on involving: ".toList
    ++ List.intercalate ", ".toList names)

/-- The dependencies of an active service, all of them declared. -/
def checkedDeps (services : Services) (name : Text) : Except Failure (Text × List Text) :=
  match services.lookup name with
  | none => .error .panic
  | some svc =>
      match svc.dependsOn.names.find? fun dep => dep ∉ services with
      | some dep => .error (undefinedDep name dep)
      | none => .ok (name, svc.dependsOn.names)

/-- `dependents.get_mut(dep).unwrap().push(name)`: the keys are the active services. -/
def pushDependent (active : List Text) (name : Text) (dependents : Text → List Text) (dep : Text)
    : Except Failure (Text → List Text) :=
  if dep ∈ active then .ok (Function.update dependents dep (dependents dep ++ [name]))
  else .error .panic

def dependentsOf (active : List Text) (deps : List (Text × List Text))
    : Except Failure (Text → List Text) :=
  deps.foldlM (fun dependents (name, names) =>
    names.foldlM (pushDependent active name) dependents) fun _ => []

/-- How many dependencies each service waits for, and the services that wait for none. -/
structure Waiting where
  remaining : Text → Nat
  ready : List Text

/-- One dependency of `dependent` is in the order. -/
def release (active : List Text) (waiting : Waiting) (dependent : Text) : Except Failure Waiting :=
  if dependent ∈ active then
    match waiting.remaining dependent with
    | 0 => .error .panic
    | count + 1 => .ok {
        remaining := Function.update waiting.remaining dependent count
        ready := if count = 0 then waiting.ready ++ [dependent] else waiting.ready }
  else .error .panic

def sort (names : List Text) : List Text := names.insertionSort fun a b => a ≤ b

/-- The steps that a loop over the ready services can still take. -/
def Waiting.budget (active : List Text) (waiting : Waiting) : Nat :=
  waiting.ready.length + (active.map waiting.remaining).sum

theorem sum_update_lt {active : List Text} {remaining : Text → Nat} {name : Text} {count : Nat}
    (member : name ∈ active) (one : remaining name = count + 1)
    : (active.map (Function.update remaining name count)).sum + 1
      ≤ (active.map remaining).sum := by
  have below (names : List Text)
      : (names.map (Function.update remaining name count)).sum ≤ (names.map remaining).sum := by
    refine List.sum_le_sum fun other _ => ?_
    by_cases same : other = name
    · simp [same, one]
    · simp [same]
  obtain ⟨front, back, rfl⟩ := List.append_of_mem member
  have hf := below front
  have hb := below back
  simp only [List.map_append, List.map_cons, List.sum_append, List.sum_cons,
    Function.update_self, one]
  omega

theorem budget_release {active : List Text} {waiting waiting' : Waiting} {dependent : Text}
    (released : release active waiting dependent = .ok waiting')
    : waiting'.budget active ≤ waiting.budget active := by
  unfold release at released
  split at released
  case isFalse => cases released
  case isTrue member =>
    split at released
    case h_1 => cases released
    case h_2 count one =>
      cases released
      have fewer := sum_update_lt member one
      simp only [Waiting.budget]
      split <;> simp <;> omega

theorem budget_releaseAll {active dependents : List Text} {waiting waiting' : Waiting}
    (released : dependents.foldlM (release active) waiting = .ok waiting')
    : waiting'.budget active ≤ waiting.budget active := by
  induction dependents generalizing waiting with
  | nil =>
      cases released
      exact le_rfl
  | cons dependent rest ih =>
      rw [List.foldlM_cons] at released
      obtain ⟨next, first, later⟩ := Library.Checks.bind_eq_ok.mp released
      exact (ih later).trans (budget_release first)

/-- The loop: the first ready service goes into the order. -/
def drain (active : List Text) (dependents : Text → List Text) (waiting : Waiting)
    (order : List Text)
    : Except Failure (List Text × (Text → Nat)) :=
  match _sorted : sort waiting.ready with
  | [] => .ok (order, waiting.remaining)
  | n :: rest =>
      if n ∈ active then
        match _released : (dependents n).foldlM (release active) { waiting with ready := rest } with
        | .error failure => .error failure
        | .ok next => drain active dependents next (order ++ [n])
      else .error .panic
termination_by waiting.budget active
decreasing_by
  have fewer := budget_releaseAll _released
  have length : waiting.ready.length = rest.length + 1 := by
    rw [← List.length_insertionSort (fun a b => a ≤ b) waiting.ready]
    exact congrArg List.length _sorted
  simp only [Waiting.budget] at fewer ⊢
  omega

def topoSort (services : Services) (active : List Text) : Except Failure (List Text) := do
  let deps ← active.mapM (checkedDeps services)
  let dependents ← dependentsOf active deps
  let remaining := fun name => ((deps.lookup name).map List.length).getD 0
  let ready := (deps.filter fun (_, names) => names.length = 0).map (·.1)
  let (order, remaining) ← drain active dependents ⟨remaining, sort ready⟩ []
  if order.length ≠ active.length then
    .error (circular (active.filter fun name => remaining name > 0))
  else .ok order

end Delonix.Compose.StartOrder
