import Delonix.Library.Text
import Mathlib.Tactic.Common

/-! The table of Kinds, in the order in which an apply visits them.
The columns are the ones the reconciler, the apply and the pull sources read.
-/

namespace Delonix.Stack

/-- Whether `metadata.namespace` means anything on a Kind. -/
inductive Namespaced where
  | never
  | always
  | perDocument
  deriving DecidableEq, Repr

structure KindFacts where
  kind : String
  plural : String
  short : List String
  inStack : Bool
  converges : Bool
  teardown : Bool
  namespaced : Namespaced
  deriving DecidableEq, Repr

namespace Kind

def secret : String := "Secret"
def runtimePolicy : String := "RuntimePolicy"
def network : String := "Network"
def networkRoute : String := "NetworkRoute"
def networkZone : String := "NetworkZone"
def storagePool : String := "StoragePool"
def volume : String := "Volume"
def objectStorage : String := "ObjectStorage"
def image : String := "Image"
def app : String := "App"
def vm : String := "VirtualMachine"
def systemContainer : String := "SystemContainer"
def container : String := "Container"
def pod : String := "Pod"
def ingress : String := "Ingress"
def firewallPolicy : String := "NetworkPolicy"
def networkAccessRule : String := "NetworkAccessRule"
def networkGateway : String := "NetworkGateway"
def httpRoute : String := "HTTPRoute"
def gateway : String := "Gateway"
def service : String := "Service"
def ipPool : String := "IPPool"
def workload : String := "Workload"
def dependency : String := "Dependency"
def stack : String := "Stack"
def gitopsSource : String := "GitOpsSource"
def cluster : String := "KubernetesCluster"

end Kind

/-- The row of a Kind that `stack apply` applies and converges. -/
def stackRow (kind plural : String) (short : List String) (teardown : Bool)
    (namespaced : Namespaced) : KindFacts :=
  { kind, plural, short, inStack := true, converges := true, teardown, namespaced }

/-- The row of a Kind that `stack apply` never applies as itself. -/
def loweredRow (kind plural : String) (short : List String) (namespaced : Namespaced)
    : KindFacts :=
  { kind, plural, short, inStack := false, converges := false, teardown := false, namespaced }

/-- `FACTS`: the rows in apply order, and the Kinds outside the apply after them. -/
def kindTable : List KindFacts :=
  [ stackRow Kind.runtimePolicy "runtimepolicies" ["policy"] false .never,
    stackRow Kind.secret "secrets" ["sec"] false .never,
    stackRow Kind.network "networks" ["net"] true .never,
    stackRow Kind.networkRoute "networkroutes" ["nr"] true .never,
    stackRow Kind.networkZone "networkzones" ["nz"] true .never,
    stackRow Kind.storagePool "storagepools" ["sp"] true .never,
    stackRow Kind.volume "volumes" ["vol"] true .perDocument,
    stackRow Kind.objectStorage "objectstorages" [] false .never,
    stackRow Kind.image "images" ["img"] false .never,
    stackRow Kind.app "apps" [] false .never,
    stackRow Kind.vm "virtualmachines" ["vm"] true .always,
    stackRow Kind.systemContainer "systemcontainers" ["sc"] true .never,
    stackRow Kind.container "containers" [] true .always,
    stackRow Kind.pod "pods" ["po"] true .always,
    stackRow Kind.service "services" ["svc"] true .always,
    stackRow Kind.ingress "ingresses" ["ing"] true .never,
    stackRow Kind.firewallPolicy "networkpolicies" ["np"] false .never,
    stackRow Kind.networkAccessRule "networkaccessrules" ["nar"] true .never,
    stackRow Kind.networkGateway "networkgateways" ["ngw"] true .never,
    stackRow Kind.ipPool "ippools" ["pool"] true .never,
    stackRow Kind.httpRoute "httproutes" ["hr"] true .never,
    stackRow Kind.gateway "gateways" ["gw"] false .never,
    stackRow Kind.gitopsSource "gitopssources" ["gos"] true .always,
    loweredRow Kind.workload "workloads" ["wl"] .always,
    loweredRow Kind.dependency "dependencies" ["dep"] .never,
    loweredRow Kind.stack "stacks" [] .always,
    loweredRow Kind.cluster "kubernetesclusters" ["kc", "clusters"] .never ]

/-- The row of a Kind. -/
def facts (kind : String) : Option KindFacts := kindTable.find? (fun row => row.kind == kind)

def inStack (kind : String) : Bool := (facts kind).any KindFacts.inStack

def converges (kind : String) : Bool := (facts kind).any KindFacts.converges

end Delonix.Stack

/-! Manifest documents, the spellings of a Kind, and the name a document has in a plan. -/

namespace Delonix.Stack

open Delonix.Library.Text

/-- `serde_yaml::Value`. -/
inductive Yaml where
  | null
  | bool (value : Bool)
  | integer (value : Int)
  | float (text : String)
  | string (value : String)
  | sequence (items : List Yaml)
  | mapping (entries : List (Yaml × Yaml))
  | tagged (tag : String) (value : Yaml)

/-- The value under a string key of a mapping. -/
def Yaml.get (value : Yaml) (key : String) : Option Yaml :=
  match value with
  | .mapping entries =>
      (entries.find? (fun entry => match entry.1 with
        | .string name => name == key
        | _ => false)).map Prod.snd
  | _ => none

def Yaml.asStr : Yaml → Option String
  | .string value => some value
  | _ => none

/-- The part of `metadata` that identifies a document. -/
structure Metadata where
  name : String
  namespaceName : Option String

structure ManifestDoc where
  kind : String
  metadata : Metadata
  spec : Yaml

def toAsciiLowercase (text : String) : String := String.ofList (text.toList.map Char.toLower)

def eqIgnoreAsciiCase (a b : String) : Bool := toAsciiLowercase a == toAsciiLowercase b

/-- Spellings of renamed Kinds and the canonical name of each. -/
def kindAliases : List (String × String) :=
  [ ("Vm", Kind.vm), ("VirtualMachine", Kind.vm),
    ("FirewallPolicy", Kind.firewallPolicy), ("NetworkPolicy", Kind.firewallPolicy),
    ("Cluster", Kind.cluster), ("KubernetesCluster", Kind.cluster),
    ("Tunnel", Kind.gateway), ("Gateway", Kind.gateway),
    ("KnowDepends", Kind.dependency), ("Dependency", Kind.dependency),
    ("Stack", Kind.stack), ("Pod", Kind.pod), ("Workload", Kind.workload) ]

def canonicalKind (kind : String) : String :=
  match kindAliases.find? (fun entry => eqIgnoreAsciiCase entry.1 kind) with
  | some (_, canonical) => canonical
  | none => kind

/-- The row answers to the lowercase token by its name, its plural or an abbreviation. -/
def answersTo (want : String) (row : KindFacts) : Bool :=
  toAsciiLowercase row.kind == want || row.plural == want || row.short.contains want

/-- The one Kind a token names, in any accepted spelling. -/
def resolveKind (token : String) : Option KindFacts :=
  if token.isEmpty then none
  else
    match kindTable.filter (answersTo (toAsciiLowercase (canonicalKind token))) with
    | [row] => some row
    | _ => none

/-- `namespace/name` outside `default`, the bare name inside it. -/
def scopedPlanName (namespaceName name : String) : String :=
  if namespaceName.isEmpty || eqIgnoreAsciiCase namespaceName "default" then name
  else namespaceName ++ "/" ++ name

/-- The Kinds whose plan name carries the namespace. -/
def hasScopedName (kind : String) : Bool :=
  kind == Kind.container || kind == Kind.service || kind == Kind.gitopsSource

/-- The name a document goes by in a plan. -/
def planName (doc : ManifestDoc) : String :=
  if hasScopedName doc.kind then
    scopedPlanName (doc.metadata.namespaceName.getD "") doc.metadata.name
  else
    doc.metadata.name

/-- The namespace and the name a plan name stands for. -/
def splitPlanName (plan : String) : String × String :=
  match splitOnce '/' plan.toList with
  | some (namespaceName, name) => (String.ofList namespaceName, String.ofList name)
  | none => ("default", plan)

end Delonix.Stack
