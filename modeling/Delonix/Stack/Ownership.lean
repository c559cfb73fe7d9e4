import Delonix.Stack.Apply

/-! Which stopping points of an apply leave a resource that it created without the stamp. -/

namespace Delonix.Stack

open Delonix.Library.Stops

/-- The Kinds whose declarations say that a stack can own the resource. -/
def isOwnable (kind : String) : Bool :=
  !([Kind.gateway, Kind.app, Kind.image, Kind.firewallPolicy, Kind.secret,
    Kind.runtimePolicy].contains kind)

/-- Every ownable Kind of the apply has a stamp. -/
theorem hasStamp_of_isOwnable {kind : String} (converging : converges kind = true)
    (ownable : isOwnable kind = true)
    : hasStamp kind = true := by
  have all : ∀ row ∈ kindTable, row.converges = true → isOwnable row.kind = true →
      hasStamp row.kind = true := by
    decide +kernel
  simp only [converges, facts, Option.any_eq_true] at converging
  obtain ⟨row, found, holds⟩ := converging
  have same : row.kind = kind := by simpa using List.find?_some found
  rw [← same] at ownable ⊢
  exact all row (List.mem_of_find?_eq_some found) holds ownable

/-- The plan decides this action for the resource. -/
def Planned (changes : List Change) (action : Action) (key : String × String) : Prop :=
  ∃ c ∈ changes, c.action = action ∧ c.key = key

/-- A resource this run is to create: new, or destroyed and rebuilt. -/
def Recreated (changes : List Change) (key : String × String) : Prop :=
  Planned changes .create key ∨ Planned changes .replace key

/-- An ownable resource of a converging Kind. -/
structure Claimable (key : String × String) : Prop where
  converging : converges key.1 = true
  ownable : isOwnable key.1 = true

/-- Everything the run created and left on the machine carries the stamp of the stack. -/
def LeavesNoOrphan (stack : String) (changes : List Change) (run : ApplyRun) : Prop :=
  ∀ key ∈ run.created, Claimable key → Recreated changes key → run.machine key ≠ none →
    run.machine key = some (some stack)

/-- What the creation pass created is declared, on the machine, and has no stamp. -/
def Unstamped (desired : List Desired) (progress : Progress) : Prop :=
  ∀ key ∈ progress.created, key ∈ desired.map Desired.key ∧ progress.machine key = some none

theorem Unstamped.runLayer {desired : List Desired} {progress : Progress}
    (unstamped : Unstamped desired progress) (outcomes : Outcomes) (layer : Layer)
    : Unstamped desired (runLayer outcomes desired layer progress).1 := by
  intro key member
  simp only [Stack.runLayer, List.mem_append, List.mem_filter] at member ⊢
  rcases member with earlier | ⟨_, fresh⟩
  · obtain ⟨declared, present⟩ := unstamped key earlier
    refine ⟨declared, ?_⟩
    have old : creates desired layer (outcomes.layer layer).1 progress.machine key = false := by
      simp [creates, present]
    simp [old, present]
  · constructor
    · simp only [creates, Bool.and_eq_true] at fresh
      exact List.contains_iff_mem.mp fresh.1.2
    · simp [fresh]

theorem unstamped_runLayers (outcomes : Outcomes) (desired : List Desired) (machine : Machine)
    : Unstamped desired (runLayers outcomes desired machine).1 := by
  apply untilError_invariant (Unstamped desired)
  · intro layer _ progress unstamped
    exact unstamped.runLayer outcomes layer
  · intro key member
    exact absurd member (List.not_mem_nil)

/-- The stamp of a claimable declared resource that is on the machine. -/
theorem stampAll_claimable {desired : List Desired} {stack : String}
    {only : Option (String × String → Bool)} {machine : Machine} {key : String × String}
    (claimable : Claimable key) (declared : key ∈ desired.map Desired.key)
    : stampAll desired stack only machine key
      = if only.all (fun included => included key) then (machine key).map (fun _ => some stack)
        else machine key := by
  have inDesired : desired.any (fun d => d.key == key) = true := by
    obtain ⟨d, member, same⟩ := List.mem_map.mp declared
    exact List.any_eq_true.mpr ⟨d, member, by simp [same]⟩
  simp only [stampAll, inDesired, claimable.converging,
    hasStamp_of_isOwnable claimable.converging claimable.ownable, Bool.true_and, Bool.and_true]

/-- A removal leaves a resource as it was or takes it away. -/
theorem destroyOne_machine (outcomes : Outcomes) (c : Change) (machine : Machine)
    (key : String × String)
    : (destroyOne outcomes c machine).1 key = none
      ∨ (destroyOne outcomes c machine).1 key = machine key := by
  unfold destroyOne
  split
  case isTrue =>
    dsimp only
    split
    case isTrue =>
      rcases eq_or_ne key c.key with rfl | other
      · exact .inl (Function.update_self ..)
      · exact .inr (Function.update_of_ne other ..)
    case isFalse => exact .inr rfl
  case isFalse => exact .inr rfl

/-- A prune leaves the stamps of what it does not remove. -/
theorem prune_keeps_stamp {outcomes : Outcomes} {changes : List Change} {machine : Machine}
    {key : String × String} {stack : String}
    (stamped : machine key = none ∨ machine key = some (some stack))
    : (prune outcomes changes machine).1 key = none
      ∨ (prune outcomes changes machine).1 key = some (some stack) := by
  apply untilError_invariant
    (fun machine : Machine => machine key = none ∨ machine key = some (some stack))
  · intro c _ machine before
    rcases destroyOne_machine outcomes c machine key with gone | same
    · exact .inl gone
    · rw [same]
      exact before
  · exact stamped

section Apply

variable {request : ApplyRequest} {desired : List Desired} {changes : List Change}
  {outcomes : Outcomes} {machine : Machine}

/-- The creation pass of an apply that reaches it. -/
def creationPass (outcomes : Outcomes) (desired : List Desired) (changes : List Change)
    (machine : Machine) : Progress × Option ApplyError :=
  runLayers outcomes desired (destroyForReplace outcomes changes machine).1

/-- The apply stops in no layer after it rebuilt a resource, and at no converge step after it
created one.
-/
structure StopsSafely (request : ApplyRequest) (desired : List Desired) (changes : List Change)
    (outcomes : Outcomes) (machine : Machine) : Prop where
  layers : (destroyForReplace outcomes changes machine).2 = none →
    rebootForConverge outcomes changes = none →
    (creationPass outcomes desired changes machine).2 ≠ none →
    ∀ key ∈ (creationPass outcomes desired changes machine).1.created, Claimable key →
      Planned changes .replace key → Planned changes .create key
  converging : (destroyForReplace outcomes changes machine).2 = none →
    rebootForConverge outcomes changes = none →
    (creationPass outcomes desired changes machine).2 = none →
    changes.findSome? (convergeOne outcomes request.docs) ≠ none →
    ∀ key ∈ (creationPass outcomes desired changes machine).1.created, Claimable key →
      ¬ Recreated changes key

theorem planned_iff {action : Action} {key : String × String}
    : changes.any (fun c => c.action = action && c.key == key) = true
      ↔ Planned changes action key := by
  simp [Planned]

/-- After a failed layer the stamp is on what the plan creates, and on nothing it rebuilds. -/
theorem salvageOwnership_eq {stack : String} {key : String × String} (claimable : Claimable key)
    (declared : key ∈ desired.map Desired.key) (present : machine key = some none)
    : salvageOwnership desired stack changes machine key = some (some stack)
      ↔ Planned changes .create key := by
  rw [salvageOwnership, stampAll_claimable claimable declared, ← planned_iff]
  simp only [Option.all_some, present, Option.isSome_some, Bool.and_true, Option.map_some]
  split
  case isTrue created => exact ⟨fun _ => created, fun _ => rfl⟩
  case isFalse other =>
    exact ⟨fun owned => absurd owned (by simp), fun created => (other created).elim⟩

theorem leavesNoOrphan_layers {progress : Progress} (unstamped : Unstamped desired progress)
    (refusal : ApplyError)
    : LeavesNoOrphan request.stack changes
        { machine := salvageOwnership desired request.stack changes progress.machine
          created := progress.created
          stop := .layers refusal }
      ↔ ∀ key ∈ progress.created, Claimable key → Planned changes .replace key →
        Planned changes .create key := by
  constructor
  · intro stamped key member claimable rebuilt
    obtain ⟨declared, present⟩ := unstamped key member
    apply (salvageOwnership_eq claimable declared present).mp
    apply stamped key member claimable (.inr rebuilt)
    dsimp only
    rw [salvageOwnership, stampAll_claimable claimable declared]
    split <;> simp [present]
  · intro safe key member claimable recreated _
    obtain ⟨declared, present⟩ := unstamped key member
    apply (salvageOwnership_eq claimable declared present).mpr
    rcases recreated with new | rebuilt
    · exact new
    · exact safe key member claimable rebuilt

theorem leavesNoOrphan_converging {progress : Progress}
    (unstamped : Unstamped desired progress) (refusal : ApplyError)
    : LeavesNoOrphan request.stack changes
        { machine := progress.machine, created := progress.created,
          stop := .converging refusal }
      ↔ ∀ key ∈ progress.created, Claimable key → ¬ Recreated changes key := by
  constructor
  · intro stamped key member claimable recreated
    have present := (unstamped key member).2
    have owned : progress.machine key = some (some request.stack) :=
      stamped key member claimable recreated (by simp [present])
    rw [present] at owned
    exact absurd owned (by simp)
  · intro safe key member claimable recreated
    exact (safe key member claimable recreated).elim

/-- Past the converge steps everything declared is stamped, and a prune only removes. -/
theorem leavesNoOrphan_stamped {progress : Progress} (unstamped : Unstamped desired progress)
    {final : Machine} {stop : Stop}
    (kept : ∀ key stack, stampAll desired request.stack none progress.machine key
      = some (some stack) → final key = none ∨ final key = some (some stack))
    : LeavesNoOrphan request.stack changes
        { machine := final, created := progress.created, stop } := by
  intro key member claimable _ present
  obtain ⟨declared, fresh⟩ := unstamped key member
  have stamped : stampAll desired request.stack none progress.machine key
      = some (some request.stack) := by
    rw [stampAll_claimable claimable declared]
    simp [fresh]
  rcases kept key request.stack stamped with gone | owned
  · exact (present gone).elim
  · exact owned

theorem leavesNoOrphan_nothingCreated {final : Machine} {stop : Stop}
    : LeavesNoOrphan request.stack changes { machine := final, created := [], stop } := by
  intro key member
  exact absurd member (List.not_mem_nil)

/-- The last step of an apply, with or without a prune. -/
theorem pruned_keeps_stamp (request : ApplyRequest) (outcomes : Outcomes)
    (changes : List Change) (stamped : Machine) (key : String × String) (stack : String)
    (owned : stamped key = some (some stack))
    : (if request.prune then prune outcomes changes stamped else (stamped, none)).1 key = none
      ∨ (if request.prune then prune outcomes changes stamped else (stamped, none)).1 key
        = some (some stack) := by
  split
  · exact prune_keeps_stamp (.inr owned)
  · exact .inr owned

/-- An apply leaves nothing it created without the stamp exactly when it stops safely. -/
theorem applyChanges_leavesNoOrphan_iff
    : LeavesNoOrphan request.stack changes (applyChanges request desired changes outcomes machine)
      ↔ StopsSafely request desired changes outcomes machine := by
  have unstamped := unstamped_runLayers outcomes desired
    (destroyForReplace outcomes changes machine).1
  -- One case per stopping point, in the order of the apply.
  unfold applyChanges
  split
  case h_1 refusal destroyed =>
    refine ⟨fun _ => ⟨?_, ?_⟩, fun _ => leavesNoOrphan_nothingCreated⟩ <;>
      simp [destroyed]
  case h_2 rest destroyed =>
    rw [destroyed] at unstamped
    split
    case h_1 refusal rebooted =>
      refine ⟨fun _ => ⟨?_, ?_⟩, fun _ => leavesNoOrphan_nothingCreated⟩ <;>
        simp [rebooted]
    case h_2 rebooted =>
      split
      case h_1 progress refusal stopped =>
        rw [stopped] at unstamped
        rw [leavesNoOrphan_layers unstamped refusal]
        have pass : creationPass outcomes desired changes machine = (progress, some refusal) := by
          rw [creationPass, destroyed, stopped]
        refine ⟨fun safe => ⟨fun _ _ _ => by rwa [pass], by simp [pass]⟩, fun safe => ?_⟩
        have layers := safe.layers (by rw [destroyed]) rebooted (by simp [pass])
        rwa [pass] at layers
      case h_2 progress passed =>
        rw [passed] at unstamped
        have pass : creationPass outcomes desired changes machine = (progress, none) := by
          rw [creationPass, destroyed, passed]
        split
        case h_1 refusal stopped =>
          rw [leavesNoOrphan_converging unstamped refusal]
          refine ⟨fun safe => ⟨by simp [pass], fun _ _ _ _ => by rwa [pass]⟩, fun safe => ?_⟩
          have converging := safe.converging (by rw [destroyed]) rebooted (by rw [pass])
            (by simp [stopped])
          rwa [pass] at converging
        case h_2 converged =>
          refine ⟨fun _ => ⟨by simp [pass], by simp [converged]⟩, fun _ => ?_⟩
          have kept := pruned_keeps_stamp request outcomes changes
            (stampAll desired request.stack none progress.machine)
          dsimp only
          split
          case h_1 final refusal pruned =>
            rw [pruned] at kept
            exact leavesNoOrphan_stamped unstamped kept
          case h_2 final pruned =>
            rw [pruned] at kept
            exact leavesNoOrphan_stamped unstamped kept

/-- The plan of an apply, empty when it is refused. -/
def applyPlan (request : ApplyRequest) (reading : Reading) : List Change :=
  match decideApply request reading with
  | .ok changes => changes
  | .error _ => []

/-- From any machine and for any outcome of the handlers, an apply leaves nothing it created
without the stamp exactly when it stops safely or is refused before its first write.
-/
theorem applyDocs_leavesNoOrphan_iff {reading : Reading}
    : LeavesNoOrphan request.stack (applyPlan request reading)
        (applyDocs request reading outcomes machine)
      ↔ ∀ changes desired, decideApply request reading = .ok changes →
        reading.desiredOf = .ok desired →
        StopsSafely request desired changes outcomes machine := by
  cases decided : decideApply request reading with
  | error refusal =>
      simp only [applyDocs, applyPlan, decided]
      exact ⟨fun _ changes _ absent => absurd absent (by simp),
        fun _ => leavesNoOrphan_nothingCreated⟩
  | ok changes =>
      cases read : reading.desiredOf with
      | error refusal =>
          simp only [applyDocs, applyPlan, decided, read]
          exact ⟨fun _ _ desired _ absent => absurd absent (by simp),
            fun _ => leavesNoOrphan_nothingCreated⟩
      | ok desired =>
          simp only [applyDocs, applyPlan, decided, read, Except.ok.injEq]
          rw [applyChanges_leavesNoOrphan_iff]
          constructor
          · intro safe _ _ sameChanges sameDesired
            rwa [← sameChanges, ← sameDesired]
          · intro safe
            exact safe changes desired rfl rfl

end Apply

-- A network that is recreated on request, and a container whose layer fails after it.

def frontDocs : List ManifestDoc :=
  [ { kind := Kind.network, metadata := { name := "front", namespaceName := none },
      spec := .null },
    { kind := Kind.container, metadata := { name := "web", namespaceName := none },
      spec := .null } ]

def frontRequest : ApplyRequest :=
  { docs := frontDocs, stack := "shop", replace := ["Network/front"], reboot := [],
    prune := false, guards := .ok () }

def frontReading : Reading :=
  { desiredOf := .ok (frontDocs.map (fun doc =>
      { kind := doc.kind, name := planName doc, fields := ∅, converges := true,
        ownable := true }))
    actualOf := .ok [{ kind := Kind.network, name := "front", fields := ∅,
                       owner := some "shop", lastApplied := none }]
    factsOf := .ok (fun _ _ => none)
    providerHolds := fun _ => .ok none
    digestInputs := fun _ => .ok none }

def frontOutcomes : Outcomes :=
  { remove := fun _ => (true, none)
    convergeAcrossReboot := fun _ => (false, none)
    layer := fun layer =>
      if layer.name = Kind.network then ([(Kind.network, "front")], none)
      else if layer.name = Kind.container then ([], some { message := "image not found" })
      else ([], none)
    converge := fun _ => (false, none) }

def frontMachine : Machine := fun key =>
  if key = (Kind.network, "front") then some (some "shop") else none

/-- The rebuilt network is on the machine and no stack owns it. -/
theorem rebuiltNetwork_not_leavesNoOrphan
    : ¬ LeavesNoOrphan "shop" (applyPlan frontRequest frontReading)
      (applyDocs frontRequest frontReading frontOutcomes frontMachine) := by
  have orphan : (applyDocs frontRequest frontReading frontOutcomes frontMachine).machine
      (Kind.network, "front") = some none := by decide +kernel
  have rebuilt : Planned (applyPlan frontRequest frontReading) .replace
      (Kind.network, "front") := planned_iff.mp (by decide +kernel)
  intro stamped
  have owned := stamped (Kind.network, "front") (by decide +kernel)
    ⟨by decide +kernel, by decide +kernel⟩ (.inr rebuilt) (by simp [orphan])
  rw [orphan] at owned
  exact absurd owned (by simp)

end Delonix.Stack
