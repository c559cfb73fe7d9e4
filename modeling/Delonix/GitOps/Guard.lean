import Delonix.GitOps.Spec
import Delonix.Library.Pieces

/-! The guard a commit's documents pass before they are planned.
The parsers of a document's spec into its typed form are given by `DocReaders`.
-/

namespace Delonix.GitOps

open Delonix.Library.Text
open Delonix.Stack

/-- The fields of a spec as texts, in key order. Lists are joined and absent options are
empty.
-/
def gitopsFields (spec : GitOpsSourceSpec) : List (String × String) :=
  [ ("allow", joinWith ',' spec.safety.allow),
    ("automated", toString spec.sync.automated),
    ("interval", spec.source.interval),
    ("kinds", joinWith ',' spec.safety.kinds),
    ("knownHostsRef", spec.source.knownHostsRef.getD ""),
    ("maximumDeletes", toString spec.safety.maximumDeletes.toNat),
    ("path", spec.source.path),
    ("protectedResources", joinWith ',' spec.safety.protectedResources),
    ("prune", toString spec.safety.prune),
    ("ref", spec.source.gitRef),
    ("secretRef", spec.source.secretRef.getD ""),
    ("signedCommitsRequired", toString spec.source.signedCommitsRequired),
    ("stack", spec.stack.getD ""),
    ("trustedKeysRef", spec.source.trustedKeysRef.getD ""),
    ("url", spec.source.url) ]

/-- The fields a source declared in its own repository may change. -/
def selfMutable : List String := ["ref", "path", "interval"]

/-- The fields of the local registration that the document spells differently. -/
def changedFields (mine them : List (String × String)) : List String :=
  (mine.filter (fun field =>
    !selfMutable.contains field.1 && them.lookup field.1 != some field.2)).map Prod.fst

/-- The options of a container that the guard reads. -/
structure RunOpts where
  privileged : Bool
  net : String
  pod : Option String
  hostPid : Bool
  hostIpc : Bool
  volumes : List String
  devices : List String
  gpus : Option String
  capAdd : List String
  securityOpt : List String
  apparmor : Option String
  selinux : Option String
  envFile : List String

/-- How the raw spec of a document is read as its typed form, the refusal as a text. -/
structure DocReaders where
  sourceSpec : Yaml → Except String GitOpsSourceSpec
  docRunOpts : ManifestDoc → Except String RunOpts
  podMembers : ManifestDoc → Except String (List RunOpts)

/-- A volume source that is a path rather than a volume name. -/
def isBindSource (spec : String) : Bool :=
  match (spec.toList.takeWhile (fun c => c != ':')).head? with
  | some c => c == '/' || c == '.' || c == '~'
  | none => false

/-- The ways a container asks for the host. -/
def hostAccessReasons (o : RunOpts) : List String :=
  (if o.privileged then ["privileged"] else [])
    ++ (if (o.net.isEmpty || o.net == "host") && o.pod.isNone then ["host network"] else [])
    ++ (if o.hostPid then ["host PID namespace"] else [])
    ++ (if o.hostIpc then ["host IPC namespace"] else [])
    ++ (if o.volumes.any isBindSource then ["a bind mount of a host path"] else [])
    ++ (if !o.devices.isEmpty then ["a host device"] else [])
    ++ (if o.gpus.isSome then ["a GPU"] else [])
    ++ (if !o.capAdd.isEmpty then ["an added capability"] else [])
    ++ (if o.securityOpt.any (fun s => decide ("unconfined".toList <:+: s.toList))
          || o.apparmor == some "unconfined" || o.selinux == some "unconfined" then
        ["an unconfined security profile"] else [])
    ++ (if !o.envFile.isEmpty then ["an env file read from a host path"] else [])

def pushHostAccess (id : String) (o : RunOpts) : List String :=
  let found := hostAccessReasons o
  if found.isEmpty then []
  else
    [id ++ ": asks for host access (" ++ ", ".intercalate found
      ++ ") — refused from a pull source"]

/-- Kinds a pass applies only when the registration names them. -/
def optIn : List String :=
  [Kind.vm, Kind.systemContainer, Kind.networkZone, Kind.networkGateway, Kind.storagePool,
    Kind.gateway, Kind.ipPool]

def kindAllowed (spec : GitOpsSourceSpec) (kind : String) : Except String Unit :=
  if hardRefused.contains kind then
    .error (kind ++ " is never applied from a pull source")
  else if spec.safety.kinds.isEmpty then
    if optIn.contains kind then
      .error (kind ++ " is applied from a pull source only when spec.safety.kinds names it")
    else .ok ()
  else if spec.safety.kinds.any (fun k => canonicalKind k == kind) then .ok ()
  else .error (kind ++ " is not in spec.safety.kinds")

mutual

/-- Whether any text of a value is one of the needles. -/
def namesAny (needles : List String) : Yaml → Bool
  | .string s => needles.contains s
  | .sequence items => namesAnyItem needles items
  | .mapping entries => namesAnyEntry needles entries
  | .tagged _ value => namesAny needles value
  | _ => false

def namesAnyItem (needles : List String) : List Yaml → Bool
  | [] => false
  | item :: rest => namesAny needles item || namesAnyItem needles rest

def namesAnyEntry (needles : List String) : List (Yaml × Yaml) → Bool
  | [] => false
  | (key, value) :: rest =>
      namesAny needles key || namesAny needles value || namesAnyEntry needles rest

end

/-- `spec` keys of a volume that reach beyond a plain local directory. -/
def volumeHostKeys : List String :=
  ["driver", "device", "mountOptions", "options", "share", "nfs", "cifs", "webdav",
    "provision", "pool"]

def docId (d : ManifestDoc) : String := d.kind ++ "/" ++ d.metadata.name

/-- The checks of one Kind's own spec. -/
def guardKind (readers : DocReaders) (d : ManifestDoc) : List String :=
  if d.kind = Kind.image then
    if (d.spec.get "build").isSome then
      [docId d ++ ": an Image with build: runs the repository's code on the node — pull a "
        ++ "built image instead"]
    else []
  else if d.kind = Kind.volume then
    (volumeHostKeys.filter (fun key => (d.spec.get key).isSome)).map (fun key =>
      docId d ++ ": spec." ++ key ++ " reaches beyond a plain local volume")
  else if d.kind = Kind.network then
    let driver := ((d.spec.get "driver").bind Yaml.asStr).getD "bridge"
    if driver != "bridge" || (d.spec.get "peers").isSome then
      [docId d ++ ": only a bridge network on this node is applied from a pull source"]
    else []
  else if d.kind = Kind.container then
    match readers.docRunOpts d with
    | .ok o => pushHostAccess (docId d) o
    | .error e => [docId d ++ ": " ++ e]
  else if d.kind = Kind.pod then
    match readers.podMembers d with
    | .ok members => members.flatMap (pushHostAccess (docId d))
    | .error e => [docId d ++ ": " ++ e]
  else []

def namespaceOf (d : ManifestDoc) : String :=
  (d.metadata.namespaceName.filter (fun n => !n.isEmpty)).getD "default"

/-- A source declared in its own repository: the same identity, and nothing changed but
`ref`, `path` and `interval`.
-/
def guardSelf (readers : DocReaders) (d : ManifestDoc) (namespaceName name : String)
    (spec : GitOpsSourceSpec) : List String :=
  if d.metadata.name ≠ name ∨ eqIgnoreAsciiCase (namespaceOf d) namespaceName = false then
    [docId d ++ ": a source declares only itself — another source in its tree is how one "
      ++ "repository would acquire the node's others"]
  else
    match readers.sourceSpec d.spec with
    | .error e =>
        [docId d ++ ": invalid argument: " ++ d.kind ++ " '" ++ d.metadata.name
          ++ "': invalid spec: " ++ e]
    | .ok theirs =>
        let changed := changedFields (gitopsFields spec) (gitopsFields theirs)
        if changed.isEmpty then []
        else
          [docId d ++ ": the repository may change only ref, path and interval of its own "
            ++ "source — " ++ ", ".intercalate changed
            ++ " differ from the local registration (change them on the node)"]

/-- The names of the secrets the source itself uses. -/
def credentials (spec : GitOpsSourceSpec) : List String :=
  [spec.source.secretRef, spec.source.knownHostsRef, spec.source.trustedKeysRef].filterMap id

def guardDocument (readers : DocReaders) (namespaceName name : String)
    (spec : GitOpsSourceSpec) (d : ManifestDoc) : List String :=
  if d.kind = Kind.gitopsSource then guardSelf readers d namespaceName name spec
  else
    match kindAllowed spec d.kind with
    | .error why => [docId d ++ ": " ++ why]
    | .ok () =>
        (if !(credentials spec).isEmpty && namesAny (credentials spec) d.spec then
          [docId d ++ ": names the source's own credential — a workload never consumes the "
            ++ "key that fetches its manifest"]
        else [])
          ++ guardKind readers d

def maxDocuments : Nat := 512

/-- Every reason the documents of a commit cannot be applied by this source. -/
def guardDocuments (readers : DocReaders) (docs : List ManifestDoc)
    (namespaceName name : String) (spec : GitOpsSourceSpec) : List String :=
  if maxDocuments < docs.length then
    [toString docs.length ++ " documents — at most " ++ toString maxDocuments
      ++ " are applied from one commit"]
  else
    docs.flatMap (guardDocument readers namespaceName name spec)

end Delonix.GitOps
