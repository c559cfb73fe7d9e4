import Delonix.Library.DebugText
import Delonix.Library.Pieces
import Delonix.Stack.Manifest
import Delonix.Stack.Reconcile
import Mathlib.Data.List.Sort

/-! The plan of an apply with a digest on every change, and the check of given digests before
the first write.
A `Reading` is what one visit to the machine and its providers answered. The hash of the
digests is `sha256`, from texts to their hexadecimal digests.
-/

namespace Delonix.Stack

open Delonix.Library.DebugText
open Delonix.Library.Text

inductive PlanError where
  | invalid (message : String)
  | stalePlan (message : String)
  | reading (message : String)
  deriving DecidableEq

/-- The inputs of a network document's plan, each as its canonical JSON text. -/
structure DigestInputs where
  intent : String
  observed : String
  provider : String
  catalog : String
  capabilities : String

/-- What one visit to the machine answered about a manifest. -/
structure Reading where
  desiredOf : Except PlanError (List Desired)
  actualOf : Except PlanError (List Actual)
  factsOf : Except PlanError FactsMap
  providerHolds : ManifestDoc → Except PlanError (Option Bool)
  digestInputs : ManifestDoc → Except PlanError (Option DigestInputs)

/-- The document a change is about. -/
def docOf (docs : List ManifestDoc) (c : Change) : Option ManifestDoc :=
  docs.find? (fun d => d.kind == c.kind && planName d == c.name)

/-- A VM that only the provider knows is a conflict: creating it would make a second one. -/
def providerConflict (reading : Reading) (doc : ManifestDoc) (c : Change) : Change :=
  if c.kind = Kind.vm ∧ c.action = .create then
    match reading.providerHolds doc with
    | .ok (some true) =>
        { c with
          action := .conflict
          changed := false
          reason := some ("the provider already holds a VM named '" ++ c.name
            ++ "' that this node's registry does not know — creating would make a second one. "
            ++ "Remove it at the provider, or rename this VM") }
    | _ => c
  else c

def buildPlan (docs : List ManifestDoc) (stack : String) (reading : Reading)
    : Except PlanError (List Change) := do
  let desired ← reading.desiredOf
  let actual ← reading.actualOf
  let facts ← reading.factsOf
  return (planWithFacts desired actual stack facts).map (fun c =>
    match docOf docs c with
    | some doc => providerConflict reading doc c
    | none => c)

/-- The variant's name, as its derived `Debug` writes it. -/
def Action.debugName : Action → String
  | .create => "Create"
  | .adopt => "Adopt"
  | .update => "Update"
  | .replace => "Replace"
  | .reboot => "Reboot"
  | .noOp => "NoOp"
  | .delete => "Delete"
  | .conflict => "Conflict"
  | .notConverged => "NotConverged"

variable (unprintable : Char → Bool)

/-- One differing field with both of its values. -/
def diffText (d : FieldDiff) : List Char :=
  d.field.toList ++ '=' :: (debugOption unprintable d.fromValue
    ++ '-' :: '>' :: (debugOption unprintable d.toValue ++ [';']))

/-- The text that is hashed for a change. -/
def changeText (c : Change) : List Char :=
  "v1\n".toList ++ c.kind.toList ++ '\n' :: (c.name.toList
    ++ '\n' :: (c.action.debugName.toList
    ++ '\n' :: ((joinWith ',' (c.coldFields.insertionSort (fun a b => a ≤ b))).toList
    ++ '\n' :: ((c.owner.getD "").toList
    ++ '\n' :: (c.diffs.insertionSort (fun a b => a.field ≤ b.field)).flatMap
      (diffText unprintable)))))

/-- The text that is hashed for a network document: the object of the inputs, keys in order.
-/
def planDigestText (inputs : DigestInputs) : String :=
  "\x7b" ++ ("\"capabilities\":" ++ inputs.capabilities ++ ",\"catalog\":" ++ inputs.catalog
    ++ ",\"format\":1,\"intent\":" ++ inputs.intent ++ ",\"observed\":" ++ inputs.observed
    ++ ",\"provider\":" ++ inputs.provider ++ "\x7d")

/-- The Kinds whose plan is decided from a remote provider's state. -/
def isNetworkKind (kind : String) : Bool :=
  kind == Kind.networkGateway || kind == Kind.networkZone

variable (sha256 : String → String)

def changeDigest (c : Change) : String := sha256 (String.ofList (changeText unprintable c))

def networkPlanDigest (reading : Reading) (doc : ManifestDoc)
    : Except PlanError (Option String) :=
  if isNetworkKind doc.kind then
    (reading.digestInputs doc).map (fun inputs => inputs.map (fun i => sha256 (planDigestText i)))
  else .ok none

/-- The digest of the document a change is about, when it has one. -/
def docDigest (docs : List ManifestDoc) (reading : Reading) (c : Change)
    : Except PlanError (Option String) :=
  match docOf docs c with
  | some doc => networkPlanDigest sha256 reading doc
  | none => .ok none

/-- The digest of a change: its document's, when that has one, or its own. -/
def planDigest (docs : List ManifestDoc) (reading : Reading) (c : Change)
    : Except PlanError String :=
  (docDigest sha256 docs reading c).map (fun net =>
    net.getD (changeDigest unprintable sha256 c))

def planWithDigests (docs : List ManifestDoc) (stack : String) (reading : Reading)
    : Except PlanError (List Change) := do
  let changes ← buildPlan docs stack reading
  changes.mapM (fun c => do
    let digest ← planDigest unprintable sha256 docs reading c
    return { c with planDigest := some digest })

def stalePlan {α : Type} (id now what : String) : Except PlanError α :=
  .error (.stalePlan (id ++ ": the plan is stale — its digest is now " ++ now
    ++ ", which is not among the --plan-digest given. " ++ what
    ++ " changed since the plan. Nothing was written; plan again"))

/-- The digest of a network document has to be one of those given. Other documents are not
looked at. Answers how many were checked.
-/
def confirmDoc (reading : Reading) (given : List String) (doc : ManifestDoc)
    : Except PlanError Nat :=
  let id := doc.kind ++ "/" ++ doc.metadata.name
  if isNetworkKind doc.kind then do
    match ← networkPlanDigest sha256 reading doc with
    | none =>
        .error (.stalePlan (id ++ ": no plan digest can be computed (no provider resolves for "
          ++ "it), so the plan it was given cannot be confirmed — nothing was written"))
    | some now =>
        if given.contains now then .ok 1
        else
          stalePlan id now
            "The manifest, what the provider holds, the provider or its capabilities"
  else .ok 0

/-- The digest of a change has to be one of those given, except for the network Kinds. -/
def confirmChange (given : List String) (c : Change) : Except PlanError Nat :=
  if isNetworkKind c.kind then .ok 0
  else
    match c.planDigest with
    | none => .ok 0
    | some now =>
        if given.contains now then .ok 1
        else stalePlan (c.kind ++ "/" ++ c.name) now "The manifest or the machine"

/-- `--plan-digest`: what would be applied now is what was planned. -/
def refuseStalePlan (docs : List ManifestDoc) (stack : String) (reading : Reading)
    (given : List String) : Except PlanError Unit :=
  if given.isEmpty then .ok ()
  else do
    let documents ← docs.mapM (confirmDoc sha256 reading given)
    let plan ← planWithDigests unprintable sha256 docs stack reading
    let changes ← plan.mapM (confirmChange given)
    if documents.sum + changes.sum = 0 then
      .error (.invalid "--plan-digest was given, and the manifest has nothing to check it against")
    else .ok ()

end Delonix.Stack
