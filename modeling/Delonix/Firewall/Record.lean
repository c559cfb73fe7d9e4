import Delonix.Firewall.Gateway
import Delonix.Firewall.Namespaces

/-! A workload's firewall record as the typed policy of both directions. One rule that has no
place in the policy refuses the whole record.
-/

namespace Delonix.Firewall

open Delonix.Library.Text
open Delonix.Library.DebugText
open Delonix.Net

structure FwRule where
  dir : String
  proto : String
  port : String
  src : String
  action : String
  icmpType : String
  log : Bool
  origin : Option String
  deriving DecidableEq, Repr

structure ContainerFw where
  enabled : Bool
  policyIn : String
  policyOut : String
  rules : List FwRule
  ownNamespace : String
  deriving DecidableEq, Repr

/-- Both directions of one workload. -/
structure TargetPolicy where
  ingress : Policy
  egress : Policy
  deriving DecidableEq

section

-- Which characters the `Debug` text of a value in a refusal escapes.
variable (unprintable : Char → Bool)

def quoted (text : String) : String := String.ofList (debugString unprintable text)

def refuse (why : String) : Error :=
  .policyNotRepresentable
    ("firewall refused, nothing of this set was taken (ADR-0059 D6): " ++ why)

def defaultOf (field value : String) : Except Error Action :=
  match value with
  | "" | "allow" => .ok .allow
  | "deny" => .ok .deny
  | other =>
      .error (refuse (field ++ " " ++ quoted unprintable other
        ++ " is neither `allow` nor `deny`"))

def guardrail (action : Action) (peer : Peer) : Rule :=
  { Rule.new action .any peer with guardrail := true }

/-- One port of a range: a number from 1 on. -/
def portOf (s : List Char) : Option UInt16 := (parseU16 s).filter (1 ≤ ·)

/-- `n` or `n-m`, each from 1 on, in order. -/
def portRange (text : String) : Option PortRange :=
  match splitOnce '-' text.toList with
  | some (a, b) => do
      let first ← portOf a
      let last ← portOf b
      if first ≤ last then some { first := first, last := last } else none
  | none => (portOf text.toList).map PortRange.one

def parsePrefix (text : String) : Option Prefix :=
  match parsed : Cidr.parse text with
  | some net => some ⟨net, Cidr.parse_wellFormed parsed⟩
  | none => none

/-- A single address as a prefix. -/
def hostPrefix (base : UInt32) : Prefix :=
  ⟨{ base := base, len := 32 }, {
    cleared := UInt32.and_neg_one
    short := Nat.le_refl 32
  }⟩

/-- The other end: any address, an IPv4 prefix written with four octets, or an address. -/
def peerOf (src : String) : Except String Peer :=
  if src = "" ∨ src = "*" ∨ src = "0.0.0.0/0" then .ok .any
  else if src.toList.contains ':' then
    .error ("peer " ++ quoted unprintable src
      ++ " is IPv6; the policy is IPv4-only (audit 62 P3)")
  else if src.toList.contains '/' then
    let fourOctets :=
      match src.toList.splitOn '/' with
      | address :: _ => (address.splitOn '.').length = 4
      | [] => false
    match (parsePrefix src).filter (fun _ => fourOctets) with
    | some net => .ok (.cidr net)
    | none => .error ("peer " ++ quoted unprintable src ++ " is not an IPv4 prefix")
  else
    match Cidr.parseAddr src with
    | some base => .ok (.cidr (hostPrefix base))
    | none => .error ("peer " ++ quoted unprintable src ++ " is not an IPv4 address")

def actionOf (action : String) : Except String Action :=
  match action with
  | "allow" => .ok .allow
  | "deny" => .ok .deny
  | other => .error ("action " ++ quoted unprintable other ++ " is neither `allow` nor `deny`")

def protoOf (proto : String) : Except String Proto :=
  match proto with
  | "" | "any" => .ok .any
  | "tcp" => .ok .tcp
  | "udp" => .ok .udp
  | "icmp" => .ok .icmp
  | other => .error ("proto " ++ quoted unprintable other ++ " is not tcp, udp, icmp or any")

def portsOf (port : String) : Except String (Option PortRange) :=
  if port = "" ∨ port = "*" then .ok none
  else
    match portRange port with
    | some range => .ok (some range)
    | none => .error ("port " ++ quoted unprintable port ++ " is not a port or a range")

/-- The `Debug` text of a protocol. -/
def Proto.debug : Proto → String
  | .any => "Any"
  | .tcp => "Tcp"
  | .udp => "Udp"
  | .icmp => "Icmp"

/-- An ICMP type has a meaning on an ICMP rule only. -/
def icmpTypeOf (proto : Proto) (icmpType : String) : Except String (Option UInt8) :=
  if icmpType = "" then .ok none
  else if proto ≠ .icmp then
    .error ("ICMP type " ++ quoted unprintable icmpType ++ " is set on a " ++ proto.debug
      ++ " rule, not an ICMP one")
  else
    match parseU8 icmpType.toList with
    | some type => .ok (some (UInt8.ofNat type))
    | none => .error ("ICMP type " ++ quoted unprintable icmpType ++ " is not a number 0..=255")

/-- One persisted rule as a policy rule, or why it cannot be one. -/
def ruleOf (r : FwRule) : Except String Rule := do
  let action ← actionOf unprintable r.action
  let proto ← protoOf unprintable r.proto
  let ports ← portsOf unprintable r.port
  if proto = .icmp ∧ ports.isSome then
    .error "an ICMP rule carries a port; ICMP has no transport ports"
  else
    let icmpType ← icmpTypeOf unprintable proto r.icmpType
    let peer ← peerOf unprintable r.src
    return { Rule.new action proto peer with
      ports := ports
      icmpType := icmpType
      log := r.log
      origin := r.origin }

/-- The loop over the persisted rules, each put into its direction. -/
def rulesFrom : Nat → List FwRule → Except Error (List Rule × List Rule)
  | _, [] => .ok ([], [])
  | i, r :: rest => do
      let number := "rule #" ++ toString (i + 1) ++ ": "
      let rule ← (ruleOf unprintable r).mapError (fun why => refuse (number ++ why))
      if r.dir = "in" then
        let (ins, outs) ← rulesFrom (i + 1) rest
        return (rule :: ins, outs)
      else if r.dir = "out" then
        let (ins, outs) ← rulesFrom (i + 1) rest
        return (ins, rule :: outs)
      else
        .error (refuse (number ++ "direction " ++ quoted unprintable r.dir
          ++ " is neither `in` nor `out`"))

/-- The isolation of namespaces, behind the user's rules. Without an explicit inbound intent
the namespace itself is let in first.
-/
def guardrails (default : Action) (ins : List Rule) (ns : String) : List Rule :=
  let explicitIn := default == .deny || !ins.isEmpty
  (if explicitIn then [] else [guardrail .allow (.namespaced ns)])
    ++ [guardrail .deny (.otherNamespaces ns)]

/-- The record as a policy, or the reason it is refused. A disabled record is open. -/
def fromContainerFw (fw : ContainerFw) : Except Error TargetPolicy :=
  if !fw.enabled then .ok { ingress := .opened .ingress, egress := .opened .egress }
  else do
    let defaultIn ← defaultOf unprintable "policyIn" fw.policyIn
    let defaultOut ← defaultOf unprintable "policyOut" fw.policyOut
    let (ins, outs) ← rulesFrom unprintable 0 fw.rules
    let guards := guardrails defaultIn ins (namespaceOf fw.ownNamespace)
    return {
      ingress := { direction := .ingress, default := defaultIn, rules := ins ++ guards }
      egress := { direction := .egress, default := defaultOut, rules := outs }
    }

end

end Delonix.Firewall
