import Delonix.Library.Checks
import Delonix.Stack.Coverage
import Delonix.Stack.PlanDigest
import Delonix.Stack.Reconcile
import Mathlib.Logic.Function.Basic

/-! The apply: what is decided before the first write, and the sequence of effects after it.
What the Kinds' own handlers do to the machine and where they fail is given by `Outcomes`, so
that every stopping point and every partial effect is one of its values.
-/

namespace Delonix.Stack

open Delonix.Library.Stops

structure ApplyError where
  message : String
  deriving DecidableEq, Repr

/-- What is on the machine: nothing, or a resource and its stamp. -/
abbrev Machine := String × String → Option (Option String)

structure ApplyRequest where
  docs : List ManifestDoc
  stack : String
  replace : List String
  reboot : List String
  prune : Bool
  /-- The answer of the guards that read only the manifest. -/
  guards : Except PlanError Unit

def hasTeardown (kind : String) : Bool := (facts kind).any KindFacts.teardown

/-- Why a converging Kind has no automatic teardown. -/
def noTeardownReason (kind : String) : Option String :=
  if kind = Kind.runtimePolicy then
    some ("lowering the node's security ceiling is never automatic — `stack destroy`/`--prune` "
      ++ "would silently reopen it the moment a manifest stops declaring it. Use "
      ++ "`delonix policy unset` to remove it on purpose")
  else if kind = Kind.firewallPolicy then
    some ("changing `target` or `direction` cannot be undone automatically — the previous "
      ++ "target keeps its rules, because a policy has no record of its own (it lives on the "
      ++ "target's). Clear them by hand with `delonix net ingress clear <old-target>` (or "
      ++ "`net egress clear`), then apply again")
  else if kind = Kind.image then
    some "an image is shared content-addressed cache, owned by no stack"
  else if kind = Kind.objectStorage then
    some ("an object store holds a tenant's S3 data — removing it because a manifest stops "
      ++ "naming it would orphan the buckets and objects. Remove the S3 identity on purpose "
      ++ "with `radosgw-admin user rm`, and the generated credentials with `delonix secret rm`")
  else if kind = Kind.secret then
    some ("a secret has no record of ownership to stamp, so no stack prunes or destroys it; "
      ++ "remove one on purpose with `delonix secret rm`")
  else if kind = Kind.app then
    some "an App's output is an image — shared content-addressed cache, owned by no stack"
  else if kind = Kind.gateway then
    some "a tunnel has no labels to stamp ownership on"
  else none

def teardownRefusal (kind : String) : String :=
  (noTeardownReason kind).getD "removing this Kind declaratively is not implemented"

/-- A token other than `all` that names no resource of the plan is a typo. -/
def refuseTypos (flag : String) (changes : List Change) (tokens : List String)
    : Except PlanError Unit :=
  if tokens.contains "all" then .ok ()
  else
    forM tokens (fun token =>
      if changes.any (replaceMatches token) then .ok ()
      else
        .error (.invalid ("--" ++ flag ++ " '" ++ token
          ++ "': no resource with that name in this manifest (`stack plan` lists them)")))

/-- A `Kind/name` token makes a recreate of a resource the plan would leave in place. -/
def promoteNamedReplace (tokens : List String) (c : Change) : Except PlanError Change :=
  if tokens.any (fun token => token.toList.contains '/' && replaceMatches token c) then
    match c.action with
    | .noOp | .update | .adopt | .reboot =>
        if hasTeardown c.kind then
          .ok { c with
            action := .replace
            changed := true
            rebootFields := []
            reason := some "recreate requested by --replace" }
        else
          .error (.invalid ("--replace " ++ changeId c ++ ": " ++ teardownRefusal c.kind))
    | .notConverged =>
        .error (.invalid ("--replace " ++ changeId c ++ ": this Kind is ensure-present in this "
          ++ "version and cannot be recreated by `stack apply` (nothing was changed)"))
    | .create | .replace | .delete | .conflict => .ok c
  else .ok c

/-- The changes the flags do not authorise. -/
def blockedChanges (replace reboot : List String) (changes : List Change) : List Change :=
  changes.filter (fun c =>
    match c.action with
    | .conflict => true
    | .replace => !replace.contains "all" && !replace.any (fun token => replaceMatches token c)
    | .reboot => !reboot.contains "all" && !reboot.any (fun token => replaceMatches token c)
    | _ => false)

def refuseUnallowed (replace reboot : List String) (changes : List Change)
    : Except PlanError Unit :=
  let blocked := blockedChanges replace reboot changes
  let conflicts := changes.filter (fun c => c.action = .conflict)
  if blocked.isEmpty then .ok ()
  else if !conflicts.isEmpty then
    .error (.invalid ("stack apply refused: " ++ toString conflicts.length
      ++ " resource(s) belong to another stack or only to the provider (nothing was changed)"))
  else
    .error (.invalid ("stack apply refused: " ++ toString blocked.length
      ++ " resource(s) need an explicit decision (nothing was changed)"))

/-- Everything an apply decides before its first write. -/
def decideApply (request : ApplyRequest) (reading : Reading)
    : Except PlanError (List Change) := do
  request.guards
  let changes ← buildPlan request.docs request.stack reading
  refuseTypos "replace" changes request.replace
  refuseTypos "reboot" changes request.reboot
  let changes ← changes.mapM (promoteNamedReplace request.replace)
  refuseUnallowed request.replace request.reboot changes
  return changes

/-- One stage of the creation pass, with the Kinds it creates. -/
structure Layer where
  name : String
  kinds : List String
  deriving DecidableEq, Repr

/-- The creation pass, in dependency order. Two stages create nothing of their own. -/
def applyLayers : List Layer :=
  [ ⟨Kind.runtimePolicy, [Kind.runtimePolicy]⟩, ⟨Kind.secret, [Kind.secret]⟩,
    ⟨Kind.network, [Kind.network]⟩, ⟨Kind.networkRoute, [Kind.networkRoute]⟩,
    ⟨Kind.networkZone, [Kind.networkZone]⟩, ⟨Kind.storagePool, [Kind.storagePool]⟩,
    ⟨Kind.volume, [Kind.volume]⟩, ⟨Kind.objectStorage, [Kind.objectStorage]⟩,
    ⟨Kind.image, [Kind.image]⟩, ⟨Kind.app, [Kind.app]⟩, ⟨Kind.vm, [Kind.vm]⟩,
    ⟨"ensure_workload_reservations", []⟩,
    ⟨Kind.systemContainer, [Kind.systemContainer]⟩, ⟨Kind.container, [Kind.container]⟩,
    ⟨Kind.pod, [Kind.pod]⟩, ⟨Kind.service, [Kind.service]⟩, ⟨Kind.ipPool, [Kind.ipPool]⟩,
    ⟨Kind.firewallPolicy, [Kind.firewallPolicy]⟩,
    ⟨Kind.networkAccessRule, [Kind.networkAccessRule]⟩,
    ⟨"release_policy_holds", []⟩,
    ⟨Kind.networkGateway, [Kind.networkGateway]⟩,
    ⟨Kind.httpRoute, [Kind.httpRoute, Kind.ingress]⟩, ⟨Kind.gateway, [Kind.gateway]⟩,
    ⟨Kind.gitopsSource, [Kind.gitopsSource]⟩ ]

/-- What the Kinds' handlers did, step by step, and where they failed. -/
structure Outcomes where
  /-- Whether the resource is gone after its removal, and the error of the removal. -/
  remove : String × String → Bool × Option ApplyError
  /-- Whether the VM was stopped or reshaped, and the error, which may come behind it. -/
  convergeAcrossReboot : Change → Bool × Option ApplyError
  /-- The resources a layer created or wrote anew before it ended, and its error. -/
  layer : Layer → List (String × String) × Option ApplyError
  /-- Whether anything of the resource was changed, and the error. -/
  converge : Change → Bool × Option ApplyError

/-- The apply so far: the machine, the resources that the creation pass has created, and those
it found there and wrote anew.
-/
structure Progress where
  machine : Machine
  created : List (String × String)
  rewritten : List (String × String)

def destroyOne (outcomes : Outcomes) (c : Change) (machine : Machine)
    : Machine × Option ApplyError :=
  if hasTeardown c.kind then
    let (gone, refusal) := outcomes.remove c.key
    (if gone then Function.update machine c.key none else machine, refusal)
  else
    (machine, some { message := changeId c ++ ": " ++ teardownRefusal c.kind })

/-- Destroys what the plan recreates, so that the creation pass rebuilds it. -/
def destroyForReplace (outcomes : Outcomes) (changes : List Change) (machine : Machine)
    : Machine × Option ApplyError :=
  untilError (destroyOne outcomes) (changes.filter (fun c => c.action = .replace)) machine

/-- Stops and reshapes each VM whose fields converge across a reboot. -/
def rebootForConverge (outcomes : Outcomes) (changes : List Change) : Option ApplyError :=
  (changes.filter (fun c => c.kind = Kind.vm && (c.action = .reboot || c.action = .update)
    && c.diffs.any FieldDiff.reboot)).findSome? fun c => (outcomes.convergeAcrossReboot c).2

/-- A resource the layer created: declared, of one of its Kinds, and not there before. -/
def creates (desired : List Desired) (layer : Layer) (made : List (String × String))
    (machine : Machine) (key : String × String) : Bool :=
  made.contains key && layer.kinds.contains key.1 && (desired.map Desired.key).contains key
    && (machine key).isNone

/-- A resource the layer wrote anew: declared, of one of its Kinds, and there before. -/
def rewrites (desired : List Desired) (layer : Layer) (made : List (String × String))
    (machine : Machine) (key : String × String) : Bool :=
  made.contains key && layer.kinds.contains key.1 && (desired.map Desired.key).contains key
    && (machine key).isSome

/-- One stage of the creation pass. What it creates has no stamp yet. -/
def runLayer (outcomes : Outcomes) (desired : List Desired) (layer : Layer)
    (progress : Progress) : Progress × Option ApplyError :=
  let (made, refusal) := outcomes.layer layer
  let fresh := creates desired layer made progress.machine
  let old := rewrites desired layer made progress.machine
  let machine := fun key => if fresh key then some none else progress.machine key
  ({ machine, created := progress.created ++ made.filter fresh
     rewritten := progress.rewritten ++ made.filter old }, refusal)

def runLayers (outcomes : Outcomes) (desired : List Desired) (machine : Machine)
    : Progress × Option ApplyError :=
  untilError (runLayer outcomes desired) applyLayers { machine, created := [], rewritten := [] }

/-- The Kinds whose records hold the stamp of a stack. -/
def hasStamp (kind : String) : Bool :=
  [ Kind.container, Kind.volume, Kind.objectStorage, Kind.network, Kind.networkRoute,
    Kind.service, Kind.gitopsSource, Kind.networkGateway, Kind.networkZone,
    Kind.systemContainer, Kind.ipPool, Kind.storagePool, Kind.httpRoute, Kind.ingress, Kind.pod,
    Kind.vm, Kind.networkAccessRule ].contains kind

/-- Stamps what the manifest declares, or only the given part of it. -/
def stampAll (desired : List Desired) (stack : String)
    (only : Option (String × String → Bool)) (machine : Machine) : Machine :=
  fun key =>
    if (desired.any (fun d => d.key == key)) && converges key.1
        && (only.all (fun included => included key)) && hasStamp key.1 then
      (machine key).map (fun _ => some stack)
    else machine key

/-- After a layer failed: the stamp for what this run created, by the plan and the machine. -/
def salvageOwnership (desired : List Desired) (stack : String) (changes : List Change)
    (machine : Machine) : Machine :=
  let created := fun key => changes.any (fun c => c.action = .create && c.key == key)
  stampAll desired stack (some (fun key => created key && (machine key).isSome)) machine

/-- How an update of a Kind converges live. -/
inductive LivePath where
  | perField
  | wholeDocument
  | alreadyWritten
  | none
  deriving DecidableEq, Repr

def livePath (kind : String) : LivePath :=
  if [Kind.container, Kind.volume, Kind.vm, Kind.network, Kind.image, Kind.httpRoute,
      Kind.ingress].contains kind then .perField
  else if kind = Kind.secret then .alreadyWritten
  else if [Kind.runtimePolicy, Kind.objectStorage, Kind.firewallPolicy, Kind.networkAccessRule,
      Kind.service, Kind.networkGateway, Kind.systemContainer, Kind.networkZone, Kind.ipPool,
      Kind.storagePool, Kind.gitopsSource, Kind.gateway].contains kind then .wholeDocument
  else .none

/-- The document an update is converged from. A storage pool is looked up by its metadata
name.
-/
def updateDoc (docs : List ManifestDoc) (c : Change) : Option ManifestDoc :=
  if c.kind = Kind.storagePool then
    docs.find? (fun d => d.kind == c.kind && d.metadata.name == c.name)
  else docOf docs c

/-- The name a message calls a Kind by, where it differs. -/
def updateLabel (kind : String) : String :=
  if kind = Kind.firewallPolicy then "FirewallPolicy"
  else if kind = Kind.gateway then "Tunnel"
  else kind

def convergeUpdate (outcomes : Outcomes) (docs : List ManifestDoc) (c : Change)
    : Option ApplyError :=
  match livePath c.kind with
  | .perField => (outcomes.converge c).2
  | .alreadyWritten => .none
  | .wholeDocument =>
      match updateDoc docs c with
      | some _ => (outcomes.converge c).2
      | none =>
          some { message := updateLabel c.kind ++ "/" ++ c.name ++ ": not in the manifest" }
  | .none => some { message := c.kind ++ "/" ++ c.name ++ ": no live update path" }

/-- The live change of one resource, of the Kinds that converge. -/
def convergeOne (outcomes : Outcomes) (docs : List ManifestDoc) (c : Change)
    : Option ApplyError :=
  if !converges c.kind then none
  else if c.action = .reboot ∧ c.kind = Kind.vm then (outcomes.converge c).2
  else if c.action = .update then convergeUpdate outcomes docs c
  else none

/-- The Kinds in teardown order. -/
def teardownOrder (changes : List Change) : List Change :=
  ((kindTable.filter KindFacts.inStack).reverse.map KindFacts.kind).flatMap (fun kind =>
    changes.filter (fun c => c.kind == kind))

def prune (outcomes : Outcomes) (changes : List Change) (machine : Machine)
    : Machine × Option ApplyError :=
  untilError (destroyOne outcomes)
    ((teardownOrder changes).filter (fun c => c.action = .delete)) machine

/-- Where an apply stopped. -/
inductive Stop where
  | decided (refusal : PlanError)
  | destroying (refusal : ApplyError)
  | rebooting (refusal : ApplyError)
  | layers (refusal : ApplyError)
  | converging (refusal : ApplyError)
  | pruning (refusal : ApplyError)
  | finished

/-- What an apply leaves: the machine, what it created and where it stopped. -/
structure ApplyRun where
  machine : Machine
  created : List (String × String)
  stop : Stop

/-- The effects of an apply whose plan is decided. -/
def applyChanges (request : ApplyRequest) (desired : List Desired) (changes : List Change)
    (outcomes : Outcomes) (machine : Machine) : ApplyRun :=
  match destroyForReplace outcomes changes machine with
  | (machine, some refusal) => { machine, created := [], stop := .destroying refusal }
  | (machine, none) =>
      match rebootForConverge outcomes changes with
      | some refusal => { machine, created := [], stop := .rebooting refusal }
      | none =>
          match runLayers outcomes desired machine with
          | (progress, some refusal) =>
              { machine := salvageOwnership desired request.stack changes progress.machine
                created := progress.created
                stop := .layers refusal }
          | (progress, none) =>
              match changes.findSome? (convergeOne outcomes request.docs) with
              | some refusal =>
                  { machine := progress.machine, created := progress.created,
                    stop := .converging refusal }
              | none =>
                  let stamped := stampAll desired request.stack none progress.machine
                  match if request.prune then prune outcomes changes stamped
                    else (stamped, none) with
                  | (machine, some refusal) =>
                      { machine, created := progress.created, stop := .pruning refusal }
                  | (machine, none) =>
                      { machine, created := progress.created, stop := .finished }

/-- The apply itself, on documents already in hand. -/
def applyDocs (request : ApplyRequest) (reading : Reading) (outcomes : Outcomes)
    (machine : Machine) : ApplyRun :=
  match decideApply request reading with
  | .error refusal => { machine, created := [], stop := .decided refusal }
  | .ok changes =>
      match reading.desiredOf with
      | .error refusal => { machine, created := [], stop := .decided refusal }
      | .ok desired => applyChanges request desired changes outcomes machine

end Delonix.Stack
