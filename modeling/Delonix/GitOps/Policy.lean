import Delonix.GitOps.Spec
import Delonix.Stack.Reconcile

/-! The safety policy of a registration, weighed over a plan.

What a decision that blocks nothing has granted.
Each loop is described by what one round does to the verdict.
-/

namespace Delonix.GitOps

open Delonix.Library.Text
open Delonix.Stack

/-- What a plan is allowed to do, and what it is not. -/
structure Decision where
  /-- One line per refused change. -/
  blocked : List String
  prune : List Change
  kept : List String
  /-- `Kind/name` of each allowed `Replace`. -/
  replace : List String
  /-- `Kind/name` of each allowed `Reboot`. -/
  reboot : List String
  changes : Bool
  /-- The stack the source's own record is taken from. -/
  handover : Option String

def Decision.default : Decision :=
  { blocked := [], prune := [], kept := [], replace := [], reboot := [], changes := false,
    handover := none }

/-- The entry of the protected resources names this Kind, and this name or every name. -/
def entryNames (entry kind name : String) : Bool :=
  match splitOnce '/' entry.toList with
  | some (k, n) =>
      canonicalKind (String.ofList k) == kind && (n == ['*'] || String.ofList n == name)
  | none => false

def isProtected (spec : GitOpsSourceSpec) (c : Change) : Bool :=
  spec.safety.protectedResources.any (fun entry => entryNames entry c.kind c.name)

/-- The record of the source whose pass this is. -/
def isOwn (own : String) (c : Change) : Bool := c.kind == Kind.gitopsSource && c.name == own

namespace Decision

def block (d : Decision) (line : String) : Decision := { d with blocked := d.blocked ++ [line] }

/-- Refuse the change unless `safety.allow` names its action. -/
def unlessAllowed (d : Decision) (spec : GitOpsSourceSpec) (c : Change) (action : String)
    (granted : Decision) : Decision :=
  if spec.safety.allow.contains action then granted
  else d.block (changeId c ++ ": " ++ action ++ " is not in spec.safety.allow")

/-- The verdict on one change. Deletions are set aside. -/
def weighAction (spec : GitOpsSourceSpec) (own : String) (d : Decision) (c : Change)
    : Decision :=
  match c.action with
  | .noOp | .notConverged | .delete => d
  | .conflict =>
      if isOwn own c then { d with handover := some (c.owner.getD ""), changes := true }
      else d.block (changeId c ++ ": owned by another stack — a pass never takes it")
  | .adopt => if isOwn own c then d else d.unlessAllowed spec c "Adopt" d
  | .create => d.unlessAllowed spec c "Create" d
  | .update => d.unlessAllowed spec c "Update" d
  | .replace =>
      d.unlessAllowed spec c "Replace" { d with replace := d.replace ++ [changeId c] }
  | .reboot => d.unlessAllowed spec c "Reboot" { d with reboot := d.reboot ++ [changeId c] }

/-- One round of the first loop: the verdict so far and the deletions set aside. -/
def weigh (spec : GitOpsSourceSpec) (own : String) (state : Decision × List Change)
    (c : Change) : Decision × List Change :=
  let d := weighAction spec own state.1 c
  let deletes := if c.action = .delete then state.2 ++ [c] else state.2
  if c.action.isChange && c.action != .delete then ({ d with changes := true }, deletes)
  else (d, deletes)

/-- One round of the second loop: a deletion is kept, with the reason, or pruned. -/
def weighDelete (spec : GitOpsSourceSpec) (d : Decision) (c : Change) : Decision :=
  if c.kind = Kind.gitopsSource then
    { d with kept := d.kept
        ++ [changeId c ++ ": a pass never prunes a GitOpsSource (remove one on the node)"] }
  else if !spec.safety.prune then
    { d with kept := d.kept
        ++ [changeId c ++ ": no longer declared — kept (spec.safety.prune is false)"] }
  else if isProtected spec c then
    { d with kept := d.kept
        ++ [changeId c ++ ": no longer declared — kept (spec.safety.protectedResources)"] }
  else { d with prune := d.prune ++ [c] }

/-- The number of deletions, against `safety.maximumDeletes`. -/
def limitDeletes (spec : GitOpsSourceSpec) (d : Decision) : Decision :=
  let d :=
    if spec.safety.maximumDeletes.toNat < d.prune.length then
      d.block ("the commit would prune " ++ toString d.prune.length
        ++ " resource(s) — spec.safety.maximumDeletes is "
        ++ toString spec.safety.maximumDeletes.toNat)
    else d
  if d.prune.isEmpty then d else { d with changes := true }

end Decision

/-- A plan against the policy. `own` is the plan name of the source whose pass this is. -/
def GitOpsSourceSpec.decide (spec : GitOpsSourceSpec) (changes : List Change) (own : String)
    : Decision :=
  let (d, deletes) := changes.foldl (Decision.weigh spec own) (Decision.default, [])
  Decision.limitDeletes spec (deletes.foldl (Decision.weighDelete spec) d)

/-- The name of an action in `safety.allow`. -/
def grantName : Action → Option String
  | .create => some "Create"
  | .update => some "Update"
  | .adopt => some "Adopt"
  | .replace => some "Replace"
  | .reboot => some "Reboot"
  | .noOp | .delete | .conflict | .notConverged => none

/-- The change is one the policy grants, or it is about the source's own record. -/
structure Permitted (spec : GitOpsSourceSpec) (own : String) (c : Change) : Prop where
  allowed : ∀ action, grantName c.action = some action →
    isOwn own c = true ∨ action ∈ spec.safety.allow
  unowned : c.action = .conflict → isOwn own c = true

/-- The `metadata.name` of the resource a change is about. -/
def metadataName (c : Change) : String :=
  if hasScopedName c.kind then (splitPlanName c.name).2 else c.name

/-- The Kind and the metadata name of the resource are listed in the protected resources. -/
def isListed (spec : GitOpsSourceSpec) (c : Change) : Bool :=
  spec.safety.protectedResources.any (fun entry => entryNames entry c.kind (metadataName c))

namespace Decision

variable {spec : GitOpsSourceSpec} {own : String}

theorem block_blocked_ne_nil (d : Decision) (line : String) : (d.block line).blocked ≠ [] := by
  simp [block]

/-- The tokens of the changes with an action, in plan order. -/
def tokens (action : Action) (changes : List Change) : List String :=
  (changes.filter (fun c => c.action = action)).map changeId

/-- What one verdict that blocks nothing has done. -/
structure Granted (spec : GitOpsSourceSpec) (own : String) (d : Decision) (c : Change)
    (next : Decision) : Prop where
  before : d.blocked = []
  permitted : Permitted spec own c
  replace : next.replace = d.replace ++ tokens .replace [c]
  reboot : next.reboot = d.reboot ++ tokens .reboot [c]

theorem unlessAllowed_blocked {d granted : Decision} {c : Change} {action : String}
    (silent : (d.unlessAllowed spec c action granted).blocked = [])
    : action ∈ spec.safety.allow ∧ d.unlessAllowed spec c action granted = granted := by
  unfold unlessAllowed at silent ⊢
  split
  case isTrue named => exact ⟨by simpa using named, rfl⟩
  case isFalse refused =>
    rw [if_neg refused] at silent
    exact (block_blocked_ne_nil _ _ silent).elim

theorem weighAction_granted {d : Decision} {c : Change}
    (silent : (weighAction spec own d c).blocked = [])
    : Granted spec own d c (weighAction spec own d c) := by
  unfold weighAction at silent ⊢
  -- One case per action, in the order of the verdict.
  split at silent
  case h_1 h | h_2 h | h_3 h =>
    exact ⟨silent, ⟨by simp [h, grantName], by simp [h]⟩, by simp [tokens, h],
      by simp [tokens, h]⟩
  case h_4 h =>
    split at silent
    case isTrue mine =>
      simp only [mine, if_true]
      exact ⟨silent, ⟨by simp [h, grantName], fun _ => mine⟩, by simp [tokens, h],
        by simp [tokens, h]⟩
    case isFalse => exact (block_blocked_ne_nil _ _ silent).elim
  case h_5 h =>
    split at silent
    case isTrue mine =>
      simp only [mine, if_true]
      exact ⟨silent, ⟨fun _ _ => .inl mine, by simp [h]⟩, by simp [tokens, h],
        by simp [tokens, h]⟩
    case isFalse other =>
      obtain ⟨named, same⟩ := unlessAllowed_blocked silent
      rw [same] at silent
      simp only [if_neg other, same]
      exact ⟨silent, ⟨by simp [h, grantName, named], by simp [h]⟩, by simp [tokens, h],
        by simp [tokens, h]⟩
  case h_6 h | h_7 h | h_8 h | h_9 h =>
    obtain ⟨named, same⟩ := unlessAllowed_blocked silent
    rw [same] at silent ⊢
    exact ⟨silent, ⟨by simp [h, grantName, named], by simp [h]⟩, by simp [tokens, h],
      by simp [tokens, h]⟩

theorem weighAction_prune (d : Decision) (c : Change)
    : (weighAction spec own d c).prune = d.prune := by
  unfold weighAction unlessAllowed
  repeat' split
  all_goals rfl

/-- What the first loop has done to the changes it has seen. -/
structure Weighed (spec : GitOpsSourceSpec) (own : String) (seen : List Change)
    (state : Decision × List Change) : Prop where
  deletes : state.2 = seen.filter (fun c => c.action = .delete)
  prune : state.1.prune = []
  permitted : state.1.blocked = [] → ∀ c ∈ seen, Permitted spec own c
  replace : state.1.blocked = [] → state.1.replace = tokens .replace seen
  reboot : state.1.blocked = [] → state.1.reboot = tokens .reboot seen

/-- The round's flag leaves the verdict on the change as it was. -/
theorem weigh_eq (spec : GitOpsSourceSpec) (own : String) (state : Decision × List Change)
    (c : Change)
    : ∃ changes, weigh spec own state c
      = ({ weighAction spec own state.1 c with changes },
        if c.action = .delete then state.2 ++ [c] else state.2) := by
  dsimp only [weigh]
  cases c.action.isChange && c.action != .delete with
  | true => exact ⟨true, rfl⟩
  | false => exact ⟨_, rfl⟩

theorem Weighed.weigh {seen : List Change} {state : Decision × List Change}
    (weighed : Weighed spec own seen state) (c : Change)
    : Weighed spec own (seen ++ [c]) (weigh spec own state c) := by
  obtain ⟨changes, round⟩ := weigh_eq spec own state c
  rw [round]
  refine ⟨?_, ?_, ?_, ?_, ?_⟩
  · dsimp only
    rw [weighed.deletes, List.filter_append]
    split
    case isTrue delete => simp [delete]
    case isFalse other => simp [other]
  · exact (weighAction_prune state.1 c).trans weighed.prune
  · intro silent other member
    have granted := weighAction_granted silent
    obtain before | now := List.mem_append.mp member
    · exact weighed.permitted granted.before other before
    · exact List.mem_singleton.mp now ▸ granted.permitted
  · intro silent
    have granted := weighAction_granted silent
    dsimp only
    rw [granted.replace, weighed.replace granted.before]
    simp [tokens]
  · intro silent
    have granted := weighAction_granted silent
    dsimp only
    rw [granted.reboot, weighed.reboot granted.before]
    simp [tokens]

theorem Weighed.foldl {seen : List Change} {state : Decision × List Change}
    (weighed : Weighed spec own seen state) (changes : List Change)
    : Weighed spec own (seen ++ changes) (changes.foldl (Decision.weigh spec own) state) := by
  induction changes generalizing seen state with
  | nil => simpa using weighed
  | cons c rest ih => simpa using ih (weighed.weigh c)

/-- The deletions the second loop prunes. -/
def prunable (spec : GitOpsSourceSpec) (c : Change) : Bool :=
  c.kind != Kind.gitopsSource && spec.safety.prune && !isProtected spec c

end Decision

end Delonix.GitOps
