import Delonix.Compose.StartOrder
import Delonix.Library.TopologicalOrder

/-! What the start order of a project is worth: the active services are the least set that the
dependencies close, and the order is one exactly when the dependencies of that set are declared
and without cycles, but for services that are asked for before they are looked for.
-/

namespace Delonix.Compose.StartOrder

open Delonix.Library.Checks
open Delonix.Library.Collections
open Delonix.Library.TopologicalOrder
open Relation

variable {services : Services} {requested active : List Text}

-----------------------------------------------------------------------------------------
-- The active services
-----------------------------------------------------------------------------------------

def Depends (services : Services) (name dep : Text) : Prop :=
  ∃ svc, services.lookup name = some svc ∧ dep ∈ svc.dependsOn.names

def Selected (services : Services) (requested : List Text) (name : Text) : Prop :=
  ∃ svc, services.lookup name = some svc ∧ selected requested svc = true

/-- A service that the selected ones need, over any number of dependencies. -/
def Reached (services : Services) (requested : List Text) (name : Text) : Prop :=
  ∃ start, Selected services requested start ∧ ReflTransGen (Depends services) start name

theorem mem_initial {name : Text}
    : name ∈ initial services requested ↔ Selected services requested name := by
  simp only [initial, mem_sortedSet, List.mem_map, List.mem_filter, Selected]
  constructor
  · intro h
    obtain ⟨⟨key, svc⟩, ⟨entry, chosen⟩, rfl⟩ := h
    exact ⟨svc, AList.mem_lookup_iff.mpr entry, chosen⟩
  · intro h
    obtain ⟨svc, found, chosen⟩ := h
    exact ⟨⟨name, svc⟩, ⟨AList.mem_lookup_iff.mp found, chosen⟩, rfl⟩

theorem mem_additions_iff {dep : Text}
    : dep ∈ additions services active
      ↔ dep ∉ active ∧ ∃ name ∈ active, Depends services name dep :=
  mem_additions

/-- The rounds add what the set needs and end on a closed set, by induction over them. -/
theorem mem_activeFrom {name : Text}
    : name ∈ activeFrom services active
      ↔ ∃ start ∈ active, ReflTransGen (Depends services) start name := by
  fun_induction activeFrom services active with
  | case1 active closed =>
      constructor
      · exact fun member => ⟨name, member, .refl⟩
      · intro h
        obtain ⟨start, member, path⟩ := h
        induction path with
        | refl => exact member
        | @tail middle dep _ depends ih =>
            by_contra new
            have added := mem_additions_iff.mpr ⟨new, middle, ih, depends⟩
            rw [closed] at added
            cases added
  | case2 active _ ih =>
      rw [ih]
      constructor
      · intro h
        obtain ⟨start, member, path⟩ := h
        rcases List.mem_append.mp (mem_sortedSet.mp member) with old | added
        · exact ⟨start, old, path⟩
        · obtain ⟨-, first, inActive, depends⟩ := mem_additions_iff.mp added
          exact ⟨first, inActive, .head depends path⟩
      · intro h
        obtain ⟨start, member, path⟩ := h
        exact ⟨start, mem_sortedSet.mpr (List.mem_append_left _ member), path⟩

theorem mem_activeServices {name : Text}
    : name ∈ activeServices services requested ↔ Reached services requested name := by
  rw [activeServices, mem_activeFrom]
  simp only [mem_initial, Reached]

/-- The active services are the least set with the selected ones that dependencies close. -/
theorem isLeast_activeServices (services : Services) (requested : List Text)
    : IsLeast
        { set : Set Text | (∀ name, Selected services requested name → name ∈ set)
          ∧ ∀ name ∈ set, ∀ dep, Depends services name dep → dep ∈ set }
        { name | name ∈ activeServices services requested } := by
  refine ⟨⟨fun name chosen => ?_, fun name member dep depends => ?_⟩,
    fun set closed name member => ?_⟩
  · exact mem_activeServices.mpr ⟨name, chosen, .refl⟩
  · obtain ⟨start, chosen, path⟩ := mem_activeServices.mp member
    exact mem_activeServices.mpr ⟨start, chosen, path.tail depends⟩
  · obtain ⟨start, chosen, path⟩ := mem_activeServices.mp member
    induction path with
    | refl => exact closed.1 start chosen
    | tail before depends ih =>
        exact closed.2 _ (ih (mem_activeServices.mpr ⟨start, chosen, before⟩)) _ depends

theorem pairwise_sortedSet (names : List Text) : (sortedSet names).Pairwise (· < ·) := by
  have ordered : (sortedSet names).Pairwise (· ≤ ·) :=
    List.sortedLE_insertionSort.pairwise.sublist (List.dedup_sublist _)
  exact (ordered.and (nodup_sortedSet names)).imp fun both => lt_of_le_of_ne both.1 both.2

/-- The set is visited in ascending order. -/
theorem pairwise_activeFrom (ordered : active.Pairwise (· < ·))
    : (activeFrom services active).Pairwise (· < ·) := by
  fun_induction activeFrom services active with
  | case1 => exact ordered
  | case2 active _ ih => exact ih (pairwise_sortedSet _)

theorem pairwise_activeServices (services : Services) (requested : List Text)
    : (activeServices services requested).Pairwise (· < ·) :=
  pairwise_activeFrom (pairwise_sortedSet _)

-----------------------------------------------------------------------------------------
-- The tables of the sort
-----------------------------------------------------------------------------------------

variable {deps : Text → List Text} {dependents : Text → List Text}

theorem pushDependents_eq (name : Text) {names : List Text} (known : ∀ dep ∈ names, dep ∈ active)
    (table : Text → List Text)
    : names.foldlM (pushDependent active name) table
      = .ok fun n => table n ++ List.replicate (names.count n) name := by
  induction names generalizing table with
  | nil => simp [pure, Except.pure]
  | cons dep names ih =>
      have later := ih (fun other member => known other (by simp [member]))
        (Function.update table dep (table dep ++ [name]))
      rw [List.foldlM_cons, pushDependent, if_pos (known dep (by simp))]
      refine later.trans (congrArg Except.ok (funext fun n => ?_))
      by_cases same : n = dep
      · subst same
        simp [List.replicate_succ]
      · simp [same, List.count_cons_of_ne (Ne.symm same)]

/-- The table lists the dependents of a service, once for each time they name it. -/
theorem dependentsOf_eq {entries : List (Text × List Text)}
    (known : ∀ entry ∈ entries, ∀ dep ∈ entry.2, dep ∈ active) (table : Text → List Text)
    : entries.foldlM (fun table entry => entry.2.foldlM (pushDependent active entry.1) table) table
      = .ok fun n => table n
        ++ entries.flatMap fun entry => List.replicate (entry.2.count n) entry.1 := by
  induction entries generalizing table with
  | nil => simp [pure, Except.pure]
  | cons entry entries ih =>
      rw [List.foldlM_cons, pushDependents_eq _ (known entry (by simp))]
      refine (ih (fun other member => known other (by simp [member])) _).trans ?_
      simp

attribute [local instance] Library.Text.lawfulBEq in
/-- What the loop needs of the table: a service is listed once for each time it names `n`. -/
def ListsDependents (active : List Text) (deps dependents : Text → List Text) : Prop :=
  ∀ n m, (dependents n).count m = if m ∈ active then (deps m).count n else 0

theorem listsDependents (once : active.Nodup) (deps : Text → List Text)
    : ListsDependents active deps fun n =>
      active.flatMap fun name => List.replicate ((deps name).count n) name := by
  intro n m
  induction active with
  | nil => simp
  | cons first rest ih =>
      obtain ⟨new, once⟩ := List.nodup_cons.mp once
      have later := ih once
      simp only [List.flatMap_cons, List.count_append, List.count_replicate] at later ⊢
      rw [later]
      by_cases same : first = m
      · subst same
        simp [new]
      · have other : (m = first) = False := by simp [Ne.symm same]
        simp [same, other]

-----------------------------------------------------------------------------------------
-- One round of the loop
-----------------------------------------------------------------------------------------

/-- Releasing dependents subtracts from what they wait for, and those that wait for nothing more
become ready. By induction over the dependents.
-/
theorem releaseAll_eq {listed : List Text} (known : ∀ m ∈ listed, m ∈ active) {waiting : Waiting}
    (enough : ∀ m, listed.count m ≤ waiting.remaining m)
    : ∃ freed : List Text, listed.foldlM (release active) waiting
        = .ok ⟨fun m => waiting.remaining m - listed.count m, waiting.ready ++ freed⟩
      ∧ freed.Nodup ∧ ∀ m, m ∈ freed ↔ m ∈ listed ∧ listed.count m = waiting.remaining m := by
  induction listed generalizing waiting with
  | nil => exact ⟨[], by simp [pure, Except.pure], by simp, by simp⟩
  | cons d listed ih =>
      obtain ⟨count, one⟩ : ∃ count, waiting.remaining d = count + 1 :=
        Nat.exists_eq_succ_of_ne_zero (by have := enough d; simp at this; omega)
      let next : Waiting := {
        remaining := Function.update waiting.remaining d count
        ready := if count = 0 then waiting.ready ++ [d] else waiting.ready }
      have first : release active waiting d = .ok next := by
        rw [release, if_pos (known d (by simp)), one]
      have left (m : Text) : listed.count m ≤ next.remaining m := by
        have all := enough m
        by_cases same : m = d
        · subst same
          simp only [next, Function.update_self, List.count_cons_self] at all ⊢
          omega
        · simpa [next, same, List.count_cons_of_ne (Ne.symm same)] using all
      obtain ⟨freed, folded, once, members⟩ :=
        ih (fun m member => known m (by simp [member])) left
      have newcomer : d ∈ freed ↔ d ∈ listed ∧ listed.count d = count := by
        simpa [next] using members d
      refine ⟨(if count = 0 then [d] else []) ++ freed, ?_, ?_, ?_⟩
      · rw [List.foldlM_cons, first]
        refine folded.trans (congrArg Except.ok ?_)
        simp only [next, Waiting.mk.injEq]
        constructor
        · funext m
          by_cases same : m = d
          · subst same
            simp only [Function.update_self, one, List.count_cons_self]
            omega
          · simp [same, List.count_cons_of_ne (Ne.symm same)]
        · split <;> simp
      · split
        case isTrue zero =>
          refine List.nodup_cons.mpr ⟨fun member => ?_, once⟩
          obtain ⟨inside, counted⟩ := newcomer.mp member
          have some := List.count_pos_iff.mpr inside
          omega
        case isFalse => exact once
      · intro m
        by_cases same : m = d
        · subst same
          simp only [List.mem_append, List.mem_cons, true_or, true_and, List.count_cons_self, one,
            newcomer]
          have all := left m
          simp only [next, Function.update_self] at all
          rcases Nat.eq_zero_or_pos count with zero | pos
          · have empty : listed.count m = 0 := by omega
            simp [zero, empty]
          · have inside : listed.count m = count → m ∈ listed :=
              fun counted => List.count_pos_iff.mp (by omega)
            simpa [Nat.ne_of_gt pos] using inside
        · have others := members m
          simp only [next, Function.update_of_ne same] at others
          have head : m ∉ (if count = 0 then [d] else []) := by split <;> simp [same]
          simp [head, others, same, List.count_cons_of_ne (Ne.symm same)]

/-- What the loop keeps: the order and the ready services are the active ones that wait for
nothing, and every service waits for its dependencies that are not in the order.
-/
structure Draining (active : List Text) (deps : Text → List Text) (waiting : Waiting)
    (order : List Text) : Prop where
  known : ∀ m ∈ order ++ waiting.ready, m ∈ active
  once : (order ++ waiting.ready).Nodup
  counted : ∀ m ∈ active, waiting.remaining m = (deps m).countP (· ∉ order)
  free : ∀ m ∈ active, m ∈ order ++ waiting.ready ↔ waiting.remaining m = 0
  respects : Respects (fun m d => d ∈ deps m) order

theorem countP_not_mem_append (names order : List Text) {n : Text} (new : n ∉ order)
    : names.countP (· ∉ order ++ [n]) + names.count n = names.countP (· ∉ order) := by
  induction names with
  | nil => rfl
  | cons first rest ih =>
      by_cases same : first = n
      · subst same
        simp [new] at ih ⊢
        omega
      · by_cases member : first ∈ order <;> simp [same, member] at ih ⊢ <;> omega

/-- The first ready service goes into the order and its dependents wait for one thing less. -/
theorem Draining.step {waiting : Waiting} {order rest : List Text} {n : Text}
    (draining : Draining active deps waiting order)
    (lists : ListsDependents active deps dependents)
    (sorted : sort waiting.ready = n :: rest)
    : ∃ next, (dependents n).foldlM (release active) { waiting with ready := rest } = .ok next
      ∧ Draining active deps next (order ++ [n]) := by
  have moved : waiting.ready.Perm (n :: rest) :=
    sorted ▸ (List.perm_insertionSort _ waiting.ready).symm
  have all : (order ++ waiting.ready).Perm ((order ++ [n]) ++ rest) := by
    simpa using moved.append_left order
  have once := all.nodup_iff.mp draining.once
  have new : n ∉ order := fun member =>
    (List.nodup_append.mp (List.nodup_append.mp once).1).2.2 n member n (by simp) rfl
  have ready : n ∈ active := draining.known n (all.mem_iff.mpr (by simp))
  have listed (m : Text) (member : m ∈ active) : (dependents n).count m = (deps m).count n := by
    rw [lists, if_pos member]
  have inActive : ∀ m ∈ dependents n, m ∈ active := by
    intro m member
    by_contra outside
    have none := lists n m
    rw [if_neg outside] at none
    exact absurd (List.count_pos_iff.mpr member) (by omega)
  have enough : ∀ m, (dependents n).count m ≤ waiting.remaining m := by
    intro m
    by_cases member : m ∈ active
    · rw [listed m member, draining.counted m member, ← countP_not_mem_append (deps m) order new]
      omega
    · rw [lists, if_neg member]
      omega
  obtain ⟨freed, folded, onceFreed, members⟩ :=
    @releaseAll_eq active _ inActive { waiting with ready := rest } enough
  have waited : ∀ m ∈ freed, m ∉ order ++ waiting.ready := by
    intro m member old
    obtain ⟨inside, counted⟩ := (members m).mp member
    have zero := (draining.free m (inActive m inside)).mp old
    have pos := List.count_pos_iff.mpr inside
    simp only at counted
    omega
  refine ⟨_, folded, ?_, ?_, ?_, ?_, ?_⟩
  · intro m member
    rw [← List.append_assoc] at member
    rcases List.mem_append.mp member with old | added
    · exact draining.known m (all.mem_iff.mpr old)
    · exact inActive m ((members m).mp added).1
  · rw [← List.append_assoc]
    refine List.nodup_append.mpr ⟨once, onceFreed, ?_⟩
    intro m old other added same
    subst same
    exact waited m added (all.mem_iff.mpr old)
  · intro m member
    have cut := countP_not_mem_append (deps m) order new
    simp only [listed m member, draining.counted m member]
    omega
  · intro m member
    rw [← List.append_assoc, List.mem_append, ← all.mem_iff, draining.free m member, members m]
    constructor
    · intro h
      rcases h with zero | added
      · simp [zero]
      · simp [added.2]
    · intro zero
      have bound := enough m
      rcases Nat.eq_zero_or_pos (waiting.remaining m) with before | pos
      · exact .inl before
      · simp only at zero
        exact .inr ⟨List.count_pos_iff.mp (by omega), by simp only; omega⟩
  · refine draining.respects.append_singleton fun d depends => ?_
    have zero := (draining.free n ready).mp (all.mem_iff.mpr (by simp))
    rw [draining.counted n ready] at zero
    simpa using List.countP_eq_zero.mp zero d depends

/-- The loop ends with no service ready, by induction along its rounds. -/
theorem drain_eq {waiting : Waiting} {order : List Text}
    (draining : Draining active deps waiting order)
    (lists : ListsDependents active deps dependents)
    : ∃ order' remaining, drain active dependents waiting order = .ok (order', remaining)
      ∧ Draining active deps ⟨remaining, []⟩ order' := by
  fun_induction drain active dependents waiting order with
  | case1 waiting order sorted =>
      have nothing : waiting.ready = [] :=
        List.perm_nil.mp (sorted ▸ (List.perm_insertionSort _ waiting.ready).symm)
      exact ⟨order, waiting.remaining, rfl, nothing ▸ draining⟩
  | case2 waiting order n rest sorted _ failure failed =>
      obtain ⟨next, released, -⟩ := draining.step lists sorted
      rw [released] at failed
      cases failed
  | case3 waiting order n rest sorted _ next released ih =>
      obtain ⟨next', released', later⟩ := draining.step lists sorted
      rw [released] at released'
      cases released'
      exact ih later
  | case4 waiting order n rest sorted outside =>
      have member : n ∈ waiting.ready :=
        (List.perm_insertionSort (fun a b => a ≤ b) waiting.ready).mem_iff.mp (by
          rw [sort] at sorted
          simp [sorted])
      exact absurd (draining.known n (List.mem_append_right _ member)) outside

/-- The order that the loop ends with: all of the services, or else some go round in a cycle. -/
theorem Draining.finish {remaining : Text → Nat} {order : List Text}
    (draining : Draining active deps ⟨remaining, []⟩ order) (once : active.Nodup)
    (closed : ∀ m ∈ active, ∀ d ∈ deps m, d ∈ active)
    : (order.length = active.length → order.Perm active)
      ∧ (order.length ≠ active.length →
        ∃ m ∈ active, TransGen (fun m d => d ∈ deps m) m m) := by
  have inside : order.Nodup := by simpa using draining.once
  have within : order.Subperm active :=
    inside.subperm fun m member => draining.known m (by simp [member])
  constructor
  · exact fun full => within.perm_of_length_le (by omega)
  · intro short
    obtain ⟨m, member, outside⟩ : ∃ m ∈ active, m ∉ order := by
      by_contra none
      push Not at none
      have back : active.Subperm order := once.subperm none
      exact short (Nat.le_antisymm within.length_le back.length_le)
    let left := active.filter (· ∉ order)
    have nonempty : left ≠ [] := List.ne_nil_of_mem (List.mem_filter.mpr ⟨member, by simpa⟩)
    obtain ⟨item, inLeft, cycle⟩ := exists_cycle (r := fun m d => d ∈ deps m) nonempty
      (fun item inLeft => by
        obtain ⟨known, missing⟩ := List.mem_filter.mp inLeft
        have waits : (deps item).countP (· ∉ order) ≠ 0 := by
          rw [← draining.counted item known]
          intro zero
          have found := (draining.free item known).mpr zero
          simp only [List.append_nil] at found
          exact absurd found (by simpa using missing)
        obtain ⟨d, depends, absent⟩ := List.countP_pos_iff.mp (Nat.pos_of_ne_zero waits)
        exact ⟨d, List.mem_filter.mpr ⟨closed item known d depends, absent⟩, depends⟩)
    exact ⟨item, (List.mem_filter.mp inLeft).1, cycle⟩

-----------------------------------------------------------------------------------------
-- The sort
-----------------------------------------------------------------------------------------

/-- The names that a service waits for. -/
def depsOf (services : Services) (name : Text) : List Text :=
  ((services.lookup name).map fun svc => svc.dependsOn.names).getD []

theorem mem_depsOf {name dep : Text} : dep ∈ depsOf services name ↔ Depends services name dep := by
  cases found : services.lookup name <;> simp [depsOf, Depends, found]

theorem checkedDeps_ok {name : Text} (declared : name ∈ services)
    (all : ∀ dep, Depends services name dep → dep ∈ services)
    : checkedDeps services name = .ok (name, depsOf services name) := by
  obtain ⟨svc, found⟩ := Option.isSome_iff_exists.mp (AList.lookup_isSome.mpr declared)
  have none : (svc.dependsOn.names.find? fun dep => dep ∉ services) = none :=
    List.find?_eq_none.mpr fun dep member => by simpa using all dep ⟨svc, found, member⟩
  simp only [checkedDeps, found, none, depsOf, Option.map_some, Option.getD_some]

theorem checkedDeps_panic {name : Text} (undeclared : name ∉ services)
    : checkedDeps services name = .error .panic := by
  have none : services.lookup name = none := AList.lookup_eq_none.mpr undeclared
  rw [checkedDeps, none]

theorem checkedDeps_invalid {name dep : Text} (depends : Depends services name dep)
    (undeclared : dep ∉ services)
    : ∃ message, checkedDeps services name = .error (.invalid message) := by
  obtain ⟨svc, found, member⟩ := depends
  have some : (svc.dependsOn.names.find? fun dep => dep ∉ services).isSome :=
    List.find?_isSome.mpr ⟨dep, member, by simpa⟩
  obtain ⟨first, missing⟩ := Option.isSome_iff_exists.mp some
  exact ⟨_, by rw [checkedDeps, found]; simp only [missing]; rfl⟩

/-- Where the loop starts. -/
theorem draining_start (once : active.Nodup) (deps : Text → List Text) {remaining : Text → Nat}
    (counted : ∀ m ∈ active, remaining m = (deps m).length)
    : Draining active deps ⟨remaining, sort (active.filter fun m => (deps m).length = 0)⟩ [] := by
  have moved := List.perm_insertionSort (fun a b => a ≤ b)
    (active.filter fun m => (deps m).length = 0)
  have members (m : Text)
      : m ∈ [] ++ sort (active.filter fun m => (deps m).length = 0)
        ↔ m ∈ active ∧ (deps m).length = 0 := by
    rw [List.nil_append, sort, moved.mem_iff]
    simp
  refine ⟨fun m member => ((members m).mp member).1, ?_, ?_, ?_, respects_nil⟩
  · exact moved.nodup_iff.mpr (once.filter _)
  · intro m member
    simp [counted m member]
  · intro m member
    rw [members]
    simp only [counted m member]
    exact ⟨fun h => h.2, fun zero => ⟨member, zero⟩⟩

/-- With all names declared, the sort finds an order or says that there is a cycle. -/
theorem topoSort_declared (once : active.Nodup)
    (closed : ∀ m ∈ active, ∀ d, Depends services m d → d ∈ active)
    (declared : ∀ m ∈ active, m ∈ services)
    : (∃ order, topoSort services active = .ok order ∧ order.Perm active
        ∧ Respects (Depends services) order)
      ∨ (∃ message, topoSort services active = .error (.invalid message))
        ∧ ∃ m ∈ active, TransGen (Depends services) m m := by
  let deps := depsOf services
  have inside : ∀ m ∈ active, ∀ d ∈ deps m, d ∈ active :=
    fun m member d depends => closed m member d (mem_depsOf.mp depends)
  have same : (fun m d => d ∈ deps m) = Depends services := by
    funext m d
    exact propext mem_depsOf
  have checked : active.mapM (checkedDeps services)
      = .ok (active.map fun name => (name, deps name)) := by
    rw [mapM_eq_ok, List.forall₂_map_right_iff]
    exact List.forall₂_same.mpr fun name member => checkedDeps_ok (declared name member)
      fun dep depends => declared dep (closed name member dep depends)
  have table : dependentsOf active (active.map fun name => (name, deps name))
      = .ok fun n => active.flatMap fun name => List.replicate ((deps name).count n) name := by
    refine (dependentsOf_eq ?_ _).trans (congrArg Except.ok (funext fun n => ?_))
    · intro entry member
      obtain ⟨name, inActive, rfl⟩ := List.mem_map.mp member
      exact inside name inActive
    · simp [List.flatMap_map]
  have ready : ((active.map fun name => (name, deps name)).filter
        fun entry => entry.2.length = 0).map (·.1)
      = active.filter fun name => (deps name).length = 0 := by
    rw [List.filter_map, List.map_map]
    exact List.map_id _
  have counted : ∀ m ∈ active,
      (((active.map fun name => (name, deps name)).lookup m).map List.length).getD 0
        = (deps m).length := by
    intro m member
    rw [List.lookup_graph _ member]
    rfl
  obtain ⟨order, remaining, drained, draining⟩ := drain_eq
    (draining_start once deps counted) (listsDependents once deps)
  have result : topoSort services active
      = if order.length ≠ active.length then
          .error (circular (active.filter fun name => remaining name > 0))
        else .ok order := by
    rw [topoSort, checked]
    simp only [bind, Except.bind, table, ready, drained]
  obtain ⟨full, short⟩ := draining.finish once inside
  rw [result]
  split
  case isTrue fewer => exact .inr ⟨⟨_, rfl⟩, same ▸ short fewer⟩
  case isFalse all =>
    exact .inl ⟨order, rfl, full (not_not.mp all), same ▸ draining.respects⟩

/-- The dependencies that are needed can be put in order. -/
structure Orderable (services : Services) (requested : List Text) : Prop where
  declared : ∀ name, Reached services requested name → name ∈ services
  acyclic : ∀ name, Reached services requested name → ¬ TransGen (Depends services) name name

/-- What the two functions are to do together. -/
structure StartsSoundly (services : Services) (requested : List Text) : Prop where
  least : IsLeast
    { set : Set Text | (∀ name, Selected services requested name → name ∈ set)
      ∧ ∀ name ∈ set, ∀ dep, Depends services name dep → dep ∈ set }
    { name | name ∈ activeServices services requested }
  result : match topoSort services (activeServices services requested) with
    | .ok order => Orderable services requested
        ∧ order.Perm (activeServices services requested)
        ∧ Respects (Depends services) order
    | .error (.invalid _) => ¬ Orderable services requested
    | .error .panic => False

/-- Every undeclared name that is needed has a service before it, in the order of names, that
needs an undeclared one.
-/
def WarnedFirst (services : Services) (requested : List Text) : Prop :=
  ∀ name, Reached services requested name → name ∉ services →
    ∃ user, Reached services requested user ∧ user < name ∧ user ∈ services
      ∧ ∃ dep, Depends services user dep ∧ dep ∉ services

/-- The first service that the check stops at. -/
theorem topoSort_stops {name : Text} (member : name ∈ active) (undeclared : name ∉ services)
    : ∃ front first back failure, active = front ++ first :: back
      ∧ (∀ passed ∈ front, ∃ deps, checkedDeps services passed = .ok deps)
      ∧ checkedDeps services first = .error failure
      ∧ topoSort services active = .error failure := by
  cases checked : active.mapM (checkedDeps services) with
  | ok deps =>
      obtain ⟨entry, -, passed⟩ := exists_of_forall₂_left (mapM_eq_ok.mp checked) member
      rw [checkedDeps_panic undeclared] at passed
      cases passed
  | error failure =>
      obtain ⟨front, first, back, split, passed, stopped⟩ := mapM_eq_error.mp checked
      exact ⟨front, first, back, failure, split, passed, stopped, by rw [topoSort, checked]; rfl⟩

/-- A failing check names what is missing. -/
theorem checkedDeps_failure {name : Text} {failure : Failure}
    (stopped : checkedDeps services name = .error failure)
    : (failure = .panic ∧ name ∉ services)
      ∨ (∃ message, failure = .invalid message) ∧ name ∈ services
        ∧ ∃ dep, Depends services name dep ∧ dep ∉ services := by
  by_cases declared : name ∈ services
  · by_cases all : ∀ dep, Depends services name dep → dep ∈ services
    · rw [checkedDeps_ok declared all] at stopped
      cases stopped
    · push Not at all
      obtain ⟨dep, depends, missing⟩ := all
      obtain ⟨message, invalid⟩ := checkedDeps_invalid depends missing
      rw [invalid] at stopped
      cases stopped
      exact .inr ⟨⟨message, rfl⟩, declared, dep, depends, missing⟩
  · rw [checkedDeps_panic declared] at stopped
    cases stopped
    exact .inl ⟨rfl, declared⟩

theorem sound_of_declared (declared : ∀ name, Reached services requested name → name ∈ services)
    : StartsSoundly services requested := by
  refine ⟨isLeast_activeServices services requested, ?_⟩
  have once : (activeServices services requested).Nodup :=
    (pairwise_activeServices services requested).imp ne_of_lt
  rcases topoSort_declared once (isLeast_activeServices services requested).1.2
      (fun name member => declared name (mem_activeServices.mp member))
    with ⟨order, found, all, respects⟩ | ⟨⟨message, failed⟩, name, member, cycle⟩
  · rw [found]
    refine ⟨⟨declared, fun name reached => respects.not_cycle ?_⟩, all, respects⟩
    exact all.mem_iff.mpr (mem_activeServices.mpr reached)
  · rw [failed]
    exact fun orderable => orderable.acyclic name (mem_activeServices.mp member) cycle

/-- The active services are the least closed set, and the sort finds an order exactly when there
is one and fails otherwise, unless a name that no service has is asked for before the service
that needs it is checked: then the run ends in a panic.
-/
theorem startsSoundly_iff (services : Services) (requested : List Text)
    : StartsSoundly services requested ↔ WarnedFirst services requested := by
  have ordered := pairwise_activeServices services requested
  constructor
  · intro sound name reached undeclared
    have member := mem_activeServices.mpr reached
    obtain ⟨front, first, back, failure, split, passed, stopped, result⟩ :=
      topoSort_stops member undeclared
    have sorted := sound.result
    rw [result] at sorted
    rcases checkedDeps_failure stopped with ⟨panics, -⟩ | ⟨-, declared, missing⟩
    · rw [panics] at sorted
      exact sorted.elim
    · refine ⟨first, mem_activeServices.mp (by simp [split]), ?_, declared, missing⟩
      rw [split] at member ordered
      rcases List.mem_append.mp member with before | later
      · obtain ⟨deps, ok⟩ := passed name before
        rw [checkedDeps_panic undeclared] at ok
        cases ok
      · rcases List.mem_cons.mp later with same | after
        · exact absurd declared (same ▸ undeclared)
        · exact (List.pairwise_cons.mp (List.pairwise_append.mp ordered).2.1).1 name after
  · intro warned
    by_cases declared : ∀ name, Reached services requested name → name ∈ services
    · exact sound_of_declared declared
    · refine ⟨isLeast_activeServices services requested, ?_⟩
      have unorderable : ¬ Orderable services requested := fun h => declared h.declared
      push Not at declared
      obtain ⟨name, reached, undeclared⟩ := declared
      obtain ⟨front, first, back, failure, split, passed, stopped, result⟩ :=
        topoSort_stops (mem_activeServices.mpr reached) undeclared
      rw [result]
      rcases checkedDeps_failure stopped with ⟨-, missing⟩ | ⟨⟨message, invalid⟩, -⟩
      · have firstReached : Reached services requested first :=
          mem_activeServices.mp (by simp [split])
        obtain ⟨user, userReached, before, -, dep, depends, noDep⟩ :=
          warned first firstReached missing
        have inFront : user ∈ front := by
          have inside := mem_activeServices.mpr userReached
          rw [split] at inside ordered
          rcases List.mem_append.mp inside with here | later
          · exact here
          · rcases List.mem_cons.mp later with same | after
            · exact absurd before (same ▸ lt_irrefl first)
            · have larger := (List.pairwise_cons.mp (List.pairwise_append.mp ordered).2.1).1
                user after
              exact absurd before larger.not_gt
        obtain ⟨deps, ok⟩ := passed user inFront
        obtain ⟨message, invalid⟩ := checkedDeps_invalid depends noDep
        rw [invalid] at ok
        cases ok
      · rw [invalid]
        exact unorderable

/-- One service, `web`, that depends on `db`, which no service is. -/
def webWithoutDb : Services :=
  ⟨[⟨"web".toList, [], .short ["db".toList]⟩], by simp⟩

/-- The sort looks `db` up before it checks what `web` depends on. -/
theorem webWithoutDb_panics
    : topoSort webWithoutDb (activeServices webWithoutDb []) = .error .panic
      ∧ ¬ StartsSoundly webWithoutDb [] := by
  have active : activeServices webWithoutDb [] = ["db".toList, "web".toList] := by
    rw [activeServices, show initial webWithoutDb [] = ["web".toList] by decide, activeFrom,
      dif_neg (by decide), activeFrom, dif_pos (by decide)]
    decide
  have panics : topoSort webWithoutDb (activeServices webWithoutDb []) = .error .panic := by
    rw [active]
    rfl
  refine ⟨panics, fun sound => ?_⟩
  have sorted := sound.result
  rw [panics] at sorted
  exact sorted

end Delonix.Compose.StartOrder
