import Delonix.Stack.Manifest
import Mathlib.Data.List.Infix

/-! The registration of a pull source and everything about it that can be judged without the
machine.
-/

namespace Delonix.GitOps

open Delonix.Library.Text
open Delonix.Stack

/-- `spec.source`. -/
structure SourceSpec where
  url : String
  gitRef : String
  path : String
  interval : String
  secretRef : Option String
  knownHostsRef : Option String
  signedCommitsRequired : Bool
  trustedKeysRef : Option String
  deriving DecidableEq, Repr

/-- `spec.sync`. -/
structure SyncSpec where
  automated : Bool
  deriving DecidableEq, Repr

/-- `spec.safety`. -/
structure SafetySpec where
  allow : List String
  prune : Bool
  maximumDeletes : UInt32
  protectedResources : List String
  kinds : List String
  deriving DecidableEq, Repr

/-- `spec` of `kind: GitOpsSource`. -/
structure GitOpsSourceSpec where
  source : SourceSpec
  sync : SyncSpec
  safety : SafetySpec
  stack : Option String
  deriving DecidableEq, Repr

/-- A registration that is refused (code 1601). -/
structure InvalidSource where
  message : String
  deriving DecidableEq, Repr

def invalidSource {α : Type} (message : String) : Except InvalidSource α :=
  .error { message }

/-- A check with one message. -/
def require (holds : Bool) (message : String) : Except InvalidSource Unit :=
  if holds then .ok () else invalidSource message

inductive Transport where
  | file (path : String)
  | https
  | ssh
  deriving DecidableEq, Repr

def refuseUrl {α : Type} (url why : String) : Except InvalidSource α :=
  invalidSource ("spec.source.url '" ++ url ++ "': " ++ why)

/-- Both sides of the first `://`. -/
def splitScheme : List Char → Option (List Char × List Char)
  | [] => none
  | c :: rest =>
      if "://".toList.isPrefixOf (c :: rest) then some ([], (c :: rest).drop 3)
      else (splitScheme rest).map (fun (scheme, after) => (c :: scheme, after))

/-- The transport of a URL whose scheme and authority are known. -/
def schemeTransport (url : String) (scheme authority : List Char)
    : Except InvalidSource Transport :=
  if scheme = "https".toList then
    if authority.contains '@' then
      refuseUrl url ("carries credentials in the URL — name a kind: Secret instead "
        ++ "(https with a credential is not implemented)")
    else .ok .https
  else if scheme = "ssh".toList then
    match splitOnce '@' authority with
    | some (user, _) =>
        if user.contains ':' then refuseUrl url "carries a password in the URL" else .ok .ssh
    | none => .ok .ssh
  else
    refuseUrl url "only file://, https:// and ssh:// are fetched (no http://, git:// or ext::)"

/-- Only three forms of URL are accepted. -/
def validateUrl (url : String) : Except InvalidSource Transport :=
  let s := url.toList
  if s.isEmpty || 2048 < url.utf8ByteSize then
    refuseUrl url "empty or longer than 2048 characters"
  else if s.any (fun c => isControl c || isWhitespace c || c == '\\') then
    refuseUrl url "carries a space, a backslash or a control character"
  else if "file://".toList.isPrefixOf s then
    let path := s.drop 7
    if path.head? != some '/' || (path.splitOn '/').contains "..".toList then
      refuseUrl url "a file:// URL names an absolute path without '..'"
    else .ok (.file (String.ofList path))
  else
    match splitScheme s with
    | none =>
        refuseUrl url
          "not a URL this engine fetches — use file:///<path>, https:// or ssh://"
    | some (scheme, rest) =>
        let authority := rest.takeWhile (fun c => c != '/')
        if authority.isEmpty || authority.head? == some '-' then refuseUrl url "names no host"
        else schemeTransport url scheme authority

def isAsciiAlphanumeric (c : Char) : Bool := c.isAlphanum

/-- A branch or a tag that neither git nor a shell can read as anything else. -/
def validateRef (r : String) : Except InvalidSource Unit :=
  let s := r.toList
  require
    (("refs/heads/".toList.isPrefixOf s || "refs/tags/".toList.isPrefixOf s)
      && r.utf8ByteSize ≤ 255
      && !decide ("..".toList <:+: s)
      && !decide ("//".toList <:+: s)
      && !decide ("@\x7b".toList <:+: s)
      && s.getLast? != some '/'
      && !".lock".toList.isSuffixOf s
      && s.getLast? != some '.'
      && (s.splitOn '/').all (fun c =>
        !c.isEmpty && c.head? != some '.' && c.head? != some '-')
      && s.all (fun c => isAsciiAlphanumeric c || ['/', '.', '_', '-'].contains c))
    ("spec.source.ref '" ++ r ++ "': expected refs/heads/<branch> or refs/tags/<tag> "
      ++ "(letters, digits, '.', '_', '-', '/')")

/-- A relative directory of plain components inside the repository. -/
def validateRepoPath (p : String) : Except InvalidSource Unit :=
  let s := p.toList
  require
    (s.isEmpty ||
      (p.utf8ByteSize ≤ 1024
        && s.head? != some '/'
        && ((s.rdropWhile (fun c => c == '/')).splitOn '/').all (fun c =>
          !c.isEmpty && c != ".".toList && c != "..".toList && c.head? != some '-'
            && c.all (fun ch => isAsciiAlphanumeric ch || ['.', '_', '-'].contains ch))))
    ("spec.source.path '" ++ p ++ "': a relative directory of plain components "
      ++ "(no '..', no leading '/' or '-')")

/-- The number and the unit of an interval. -/
def splitInterval (t : List Char) : List Char × Nat :=
  match t.getLast? with
  | some 's' => (t.dropLast, 1)
  | some 'm' => (t.dropLast, 60)
  | some 'h' => (t.dropLast, 3600)
  | _ => (t, 1)

/-- An interval in seconds, between 15 seconds and 24 hours. -/
def parseInterval (text : String) : Except InvalidSource Nat :=
  let (num, mult) := splitInterval (trim text.toList)
  let secs := (parseUnsigned 10 (2 ^ 64 - 1) num).bind (fun n =>
    -- `checked_mul` and the range: a product above `u64::MAX` is outside it anyway.
    if 15 ≤ n * mult && n * mult ≤ 86400 then some (n * mult) else none)
  match secs with
  | some n => .ok n
  | none =>
      invalidSource ("spec.source.interval '" ++ text ++ "': a number of seconds, minutes or "
        ++ "hours (30s, 5m, 1h), from 15s to 24h")

/-- A DNS label. -/
def validIdent (text : String) : Bool :=
  let s := text.toList
  !s.isEmpty && text.utf8ByteSize ≤ 63
    && s.all (fun c => c.isLower || c.isDigit || c == '-')
    && s.head? != some '-' && s.getLast? != some '-'

/-- The name of a secret that neither hides nor reads as an option. -/
def validSecretRef (text : String) : Bool :=
  let s := text.toList
  !s.isEmpty && text.utf8ByteSize ≤ 64
    && s.all (fun c => isAsciiAlphanumeric c || ['.', '_', '-'].contains c)
    && s.head? != some '-' && s.head? != some '.'

/-- The plan actions `safety.allow` may name. -/
def allowable : List String := ["Create", "Update", "Adopt", "Replace", "Reboot"]

/-- Kinds a pass never applies. -/
def hardRefused : List String := [Kind.runtimePolicy, Kind.secret, Kind.app]

def checkIdentity (namespaceName name : String) : Except InvalidSource Unit :=
  require (validIdent name && validIdent namespaceName)
    ("GitOpsSource '" ++ namespaceName ++ "/" ++ name ++ "': the name and namespace are "
      ++ "lowercase letters, digits and '-' (at most 63)")

def checkSecretRef (field : String) (value : Option String) : Except InvalidSource Unit :=
  match value with
  | none => .ok ()
  | some v =>
      require (validSecretRef v)
        ("spec.source." ++ field ++ " '" ++ v ++ "': not a secret name")

/-- Credentials are read for an ssh source, which needs them, and for no other. -/
def checkTransport (source : SourceSpec) : Transport → Except InvalidSource Unit
  | .ssh =>
      require (source.secretRef.isSome && source.knownHostsRef.isSome)
        ("an ssh:// source needs secretRef (the key) and knownHostsRef (the pinned host "
          ++ "keys) — a host key is never accepted on first sight")
  | .https | .file _ =>
      require (source.secretRef.isNone && source.knownHostsRef.isNone)
        ("secretRef/knownHostsRef are read only for an ssh:// source (an https:// credential "
          ++ "is not implemented) — remove them, or use ssh://")

def checkAllow (action : String) : Except InvalidSource Unit :=
  require (allowable.contains action)
    ("spec.safety.allow '" ++ action ++ "': the actions a pass may take are Create, Update, "
      ++ "Adopt, Replace and Reboot (NoOp always; Delete is spec.safety.prune; Conflict never)")

def checkKind (kind : String) : Except InvalidSource Unit := do
  let canon := canonicalKind kind
  require (!hardRefused.contains canon)
    ("spec.safety.kinds '" ++ kind ++ "': a pull source never applies RuntimePolicy, Secret "
      ++ "or App")
  require (canon != Kind.gitopsSource && inStack canon)
    ("spec.safety.kinds '" ++ kind ++ "': not a Kind a pass applies (a source declares itself "
      ++ "without being listed, and never another source)")

/-- `Kind/name` of a Kind in the table, with a name. -/
def acceptedEntry (entry : String) : Bool :=
  match splitOnce '/' entry.toList with
  | some (kind, name) =>
      (facts (canonicalKind (String.ofList kind))).isSome && !name.isEmpty
  | none => false

def checkProtected (entry : String) : Except InvalidSource Unit :=
  require (acceptedEntry entry)
    ("spec.safety.protectedResources '" ++ entry ++ "': expected <Kind>/<name> or <Kind>/*")

def checkStack (stack : Option String) : Except InvalidSource Unit :=
  match stack with
  | none => .ok ()
  | some s =>
      require (validIdent s)
        ("spec.stack '" ++ s ++ "': lowercase letters, digits and '-' (at most 63)")

/-- Everything about a registration that can be judged without the machine. -/
def validateSpec (spec : GitOpsSourceSpec) (namespaceName name : String)
    : Except InvalidSource Unit := do
  checkIdentity namespaceName name
  let transport ← validateUrl spec.source.url
  validateRef spec.source.gitRef
  validateRepoPath spec.source.path
  let _ ← parseInterval spec.source.interval
  checkSecretRef "secretRef" spec.source.secretRef
  checkSecretRef "knownHostsRef" spec.source.knownHostsRef
  checkSecretRef "trustedKeysRef" spec.source.trustedKeysRef
  checkTransport spec.source transport
  require (spec.source.signedCommitsRequired == spec.source.trustedKeysRef.isSome)
    ("signedCommitsRequired and trustedKeysRef go together: one without the other would read "
      ++ "as a protection that is not there")
  forM spec.safety.allow checkAllow
  forM spec.safety.kinds checkKind
  forM spec.safety.protectedResources checkProtected
  checkStack spec.stack

/-- A registration over https that prunes, and protects the given resources. -/
def siteSpec (entries : List String) : GitOpsSourceSpec :=
  { source :=
      { url := "https://git.example/site", gitRef := "refs/heads/main", path := "deploy"
        interval := "60s", secretRef := none, knownHostsRef := none
        signedCommitsRequired := false, trustedKeysRef := none }
    sync := { automated := true }
    safety :=
      { allow := ["Create", "Update"], prune := true, maximumDeletes := 5
        protectedResources := entries, kinds := [] }
    stack := none }

end Delonix.GitOps
