import Delonix.Library.Collections
import Delonix.Library.Text
import Delonix.Stack.Manifest
import Std.Data.ExtTreeMap

/-! The declarative reconciler: what has to change for the machine to match the manifest.
`planWithFacts` is a pure function of both sides, already read.
-/

namespace Delonix.Stack

open Delonix.Library.Collections
open Delonix.Library.Text

/-- Manifest-named fields with their normalized values. -/
abbrev Fields := Std.ExtTreeMap String String

/-- What a resource in the manifest asks for. -/
structure Desired where
  kind : String
  name : String
  fields : Fields
  converges : Bool
  ownable : Bool

/-- What is on the machine. -/
structure Actual where
  kind : String
  name : String
  fields : Fields
  owner : Option String
  lastApplied : Option Fields

inductive Action where
  | create
  | adopt
  | update
  | replace
  | reboot
  | noOp
  | delete
  | conflict
  | notConverged
  deriving DecidableEq, Repr

/-- Whether the action changes anything on the machine. -/
def Action.isChange : Action → Bool
  | .create | .adopt | .update | .replace | .reboot | .delete => true
  | .noOp | .conflict | .notConverged => false

/-- One field that differs, with the value on the machine and the one the manifest asks for.
-/
structure FieldDiff where
  field : String
  fromValue : Option String
  toValue : Option String
  hot : Bool
  reboot : Bool
  deriving DecidableEq, Repr

/-- The decision for one resource. -/
structure Change where
  kind : String
  name : String
  action : Action
  reason : Option String
  coldFields : List String
  rebootFields : List String
  owner : Option String
  diffs : List FieldDiff
  changed : Bool
  planDigest : Option String
  deriving DecidableEq, Repr

def Change.new (kind name : String) (action : Action) : Change :=
  { kind, name, action, reason := none, coldFields := [], rebootFields := [], owner := none,
    diffs := [], changed := action.isChange, planDigest := none }

/-- Fields that converge without recreating the resource. -/
def hotFields (kind : String) : List String :=
  if kind = Kind.container then
    ["ports", "volumes", "memory", "cpus", "netBps", "netBurst", "credentials"]
  else if kind = Kind.volume then ["quota", "alertPct", "labels"]
  else if kind = Kind.objectStorage then
    ["backend", "bucket", "uid", "endpoint", "region", "credentialsSecret", "maxSize",
      "maxObjects"]
  else if kind = Kind.systemContainer then ["memory", "swap", "cores"]
  else if kind = Kind.vm then ["labels", "credentials"]
  else if kind = Kind.network then ["peers", "labels"]
  else if kind = Kind.image then ["ref", "digest"]
  else if kind = Kind.firewallPolicy then ["defaultPolicy", "rules", "scope"]
  else if kind = Kind.httpRoute ∨ kind = Kind.ingress then
    ["entrypoints", "tls", "rules", "hosts", "pool"]
  else if kind = Kind.secret then ["keys", "fingerprint"]
  else if kind = Kind.service then
    ["matchLabels", "port", "type", "vip", "readiness", "publish"]
  else if kind = Kind.gitopsSource then
    ["url", "ref", "path", "interval", "secretRef", "knownHostsRef", "signedCommitsRequired",
      "trustedKeysRef", "automated", "allow", "prune", "maximumDeletes", "protectedResources",
      "kinds", "stack"]
  else if kind = Kind.networkGateway then ["applied"]
  else if kind = Kind.gateway then
    ["provider", "localPort", "hostname", "insecureSkipTlsVerify"]
  else if kind = Kind.networkZone then
    ["applied", "reservations", "dns", "subnetSettings", "gatewayEntries"]
  else if kind = Kind.ipPool then ["addresses", "announce", "interface"]
  else if kind = Kind.storagePool then ["maxRatio", "alertPct"]
  else if kind = Kind.runtimePolicy then
    ["mode", "denyPrivileged", "denyHostNetwork", "denyLatestTag", "allowedRegistries",
      "denyDevicePassthrough", "denyLatestVmImage", "allowedImageUrlHosts",
      "allowedSourcePrefixes", "allowSourceCheckOptOut", "denyPrivateEgress",
      "allowedEgressPrefixes", "workloadSecurity"]
  else []

def isHot (kind field : String) : Bool := field ∈ hotFields kind

/-- Fields that converge live only when they grow. -/
def growOnlyFields (kind : String) : List String :=
  if kind = Kind.systemContainer then ["rootfs"] else []

/-- `str::parse::<u64>`. -/
def parseU64 (text : String) : Option Nat := parseUnsigned 10 (2 ^ 64 - 1) text.toList

/-- A hot field converges live, a grow-only one when both sides are numbers and it does not
shrink.
-/
def isHotChange (kind field : String) (fromValue toValue : Option String) : Bool :=
  if isHot kind field then true
  else if field ∉ growOnlyFields kind then false
  else
    match fromValue.bind parseU64, toValue.bind parseU64 with
    | some f, some t => f ≤ t
    | _, _ => false

/-- A field that grows live up to `ceiling`, in the units `parse` returns. -/
structure LiveGrowth where
  ceiling : UInt64
  parse : String → Option UInt64

/-- What the plan knows about a resource that is not one of its fields. -/
structure Facts where
  running : Option Bool
  reboot : List String
  liveGrowth : Std.ExtTreeMap String LiveGrowth
  numeric : Std.ExtTreeMap String (String → Option UInt64)

inductive Convergence where
  | hot
  | reboot
  | cold
  deriving DecidableEq, Repr

/-- The field grows within the headroom of a running resource. -/
def growsLive (facts : Facts) (field : String) (fromValue toValue : Option String) : Bool :=
  facts.running == some true && match facts.liveGrowth[field]? with
    | none => false
    | some growth =>
        match fromValue.bind growth.parse, toValue.bind growth.parse with
        | some a, some b => a < b && b ≤ growth.ceiling
        | _, _ => false

/-- How one field change converges. -/
def classify (kind field : String) (fromValue toValue : Option String) (facts : Option Facts)
    : Convergence :=
  if isHotChange kind field fromValue toValue then .hot
  else
    match facts with
    | none => .cold
    | some f =>
        if growsLive f field fromValue toValue then .hot
        else if field ∈ f.reboot then .reboot
        else .cold

/-- Whether two values of one field are the same thing: as texts, or through the parser the
facts name for the field.
-/
def sameValue (field a b : String) (facts : Option Facts) : Bool :=
  if a = b then true
  else
    match facts.bind (fun f => f.numeric[field]?) with
    | none => false
    | some parse =>
        match parse a, parse b with
        | some x, some y => x == y
        | _, _ => false

def fieldDiff (kind field : String) (fromValue toValue : Option String) (facts : Option Facts)
    : FieldDiff :=
  let convergence := classify kind field fromValue toValue facts
  { field, fromValue, toValue, hot := convergence == .hot, reboot := convergence == .reboot }

/-- The three-way decision for one field. A field gone from the manifest is reverted only
when the last apply set it.
-/
def diffField (desired : Desired) (actual : Actual) (facts : Option Facts) (key : String)
    : Option FieldDiff :=
  match desired.fields[key]?, actual.fields[key]? with
  | some d, some a =>
      if sameValue key d a facts then none
      else some (fieldDiff desired.kind key (some a) (some d) facts)
  | some d, none => some (fieldDiff desired.kind key none (some d) facts)
  | none, some a =>
      if key ∈ actual.lastApplied.getD ∅ then
        some (fieldDiff desired.kind key (some a) none facts)
      else none
  | none, none => none

/-- The fields of the manifest, of the machine and of the last apply, each once. -/
def diffKeys (desired : Desired) (actual : Actual) : List String :=
  sortedSet (desired.fields.keys ++ actual.fields.keys
    ++ (actual.lastApplied.getD ∅).keys)

def diffFields (desired : Desired) (actual : Actual) (facts : Option Facts)
    : List FieldDiff :=
  (diffKeys desired actual).filterMap (diffField desired actual facts)

/-- The change for a resource that is on the machine and may be converged. -/
def convergeChange (desired : Desired) (actual : Actual) (facts : Option Facts) : Change :=
  let diffs := diffFields desired actual facts
  let unmanaged := desired.ownable && actual.owner.isNone
  let cold := (diffs.filter (fun x => !x.hot && !x.reboot)).map FieldDiff.field
  let reboot := (diffs.filter (fun x => x.reboot)).map FieldDiff.field
  -- A reboot of something that is not running costs nothing.
  let stopped := facts.bind Facts.running == some false
  let change := Change.new desired.kind desired.name
  if !cold.isEmpty then
    { change .replace with
      reason := some ("does not converge hot: " ++ ", ".intercalate cold)
      coldFields := cold, diffs }
  else if !reboot.isEmpty && !stopped then
    { change .reboot with
      reason := some ("converges by a stop and a start, the disk kept: "
        ++ ", ".intercalate reboot)
      rebootFields := reboot, diffs }
  else if !diffs.isEmpty then
    { change .update with diffs }
  else if unmanaged then
    { change .adopt with
      reason := some "exists and belongs to no stack — will be taken over", diffs }
  else
    { change .noOp with diffs }

/-- The facts of each resource, by Kind and name. -/
abbrev FactsMap := String → String → Option Facts

/-- The change for one resource of the manifest. -/
def desiredChange (actual : List Actual) (stack : String) (facts : FactsMap)
    (d : Desired) : Change :=
  match actual.find? (fun a => a.kind == d.kind && a.name == d.name) with
  | none => Change.new d.kind d.name .create
  | some a =>
      match a.owner.filter (fun owner => owner != stack) with
      | some owner =>
          { Change.new d.kind d.name .conflict with
            reason := some ("owned by stack '" ++ owner ++ "'"), owner := some owner }
      | none =>
          if !d.converges then
            { Change.new d.kind d.name .notConverged with
              reason := some "this Kind is ensure-present in this version" }
          else
            convergeChange d a (facts d.kind d.name)

/-- The resource carries this stack's stamp and the manifest no longer declares it. -/
def isUndeclared (desired : List Desired) (stack : String) (a : Actual) : Bool :=
  a.owner == some stack && !desired.any (fun d => d.kind == a.kind && d.name == a.name)

def deleteChange (a : Actual) : Change :=
  { Change.new a.kind a.name .delete with
    reason := some "no longer declared in the manifest" }

/-- What has to change: one decision for each declared resource, then the resources of this
stack the manifest dropped.
-/
def planWithFacts (desired : List Desired) (actual : List Actual) (stack : String)
    (facts : FactsMap) : List Change :=
  desired.map (desiredChange actual stack facts)
    ++ (actual.filter (isUndeclared desired stack)).map deleteChange

def plan (desired : List Desired) (actual : List Actual) (stack : String) : List Change :=
  planWithFacts desired actual stack (fun _ _ => none)

/-- `Kind/name` of a change. -/
def changeId (c : Change) : String := c.kind ++ "/" ++ c.name

/-- Whether a token authorises the change: `Kind/name` in any spelling of the Kind, or a bare
name.
-/
def replaceMatches (token : String) (c : Change) : Bool :=
  match splitOnce '/' token.toList with
  | some (kind, name) =>
      String.ofList name == c.name
        && (resolveKind (String.ofList kind)).any (fun row => row.kind == c.kind)
  | none => token == c.name

end Delonix.Stack
