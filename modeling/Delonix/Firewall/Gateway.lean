import Delonix.Firewall.Ir

/-! The perimeter lowering: a policy as the filter rules of a gateway appliance, and the
verdict the appliance reads off such rules.
-/

namespace Delonix.Firewall

open Delonix.Library.Text
open Delonix.Net

inductive Error where
  | policyNotRepresentable (why : String)
  deriving DecidableEq, Repr

inductive GatewayAction where
  | pass
  | block
  deriving DecidableEq, Repr

structure GatewayRule where
  description : String
  source : String
  destination : String
  protocol : Option String
  action : GatewayAction
  destinationPort : Option String
  log : Bool
  stateful : Bool
  sequence : Option UInt32
  deriving DecidableEq, Repr

def gatewayAction : Action → GatewayAction
  | .allow => .pass
  | .deny => .block

/-- Source and destination of a rule between the target and a peer. -/
def ends (direction : Direction) (target peer : String) : String × String :=
  match direction with
  | .ingress => (peer, target)
  | .egress => (target, peer)

/-- A single address loses its `/32`. -/
def addressText (net : Cidr) : String :=
  match stripSuffix "/32".toList net.toStringCidr.toList with
  | some address => String.ofList address
  | none => net.toStringCidr

def portText (range : PortRange) : String :=
  if range.first = range.last then toString range.first.toNat
  else toString range.first.toNat ++ "-" ++ toString range.last.toNat

section

variable (target : String) (policy : Policy) (name : String) (first : UInt32)

def refuseRule {α : Type} (n : Nat) (what : String) : Except Error α :=
  .error (.policyNotRepresentable ("gateway policy '" ++ name ++ "', rule #" ++ toString n
    ++ ": " ++ what ++ " has no form on the appliance (ADR-0059 D6)"))

/-- The peer's text, refused where the appliance would need the engine's namespaces. -/
def peerText (n : Nat) : Peer → Except Error String
  | .any => .ok "any"
  | .cidr net => .ok (addressText net.val)
  | .namespaced _ | .otherNamespaces _ | .selector _ =>
      refuseRule name n "a peer that names this engine's workloads"

def protocolText (n : Nat) (rule : Rule) : Except Error (Option String) :=
  match rule.proto, rule.ports.isSome with
  | .tcp, _ => .ok (some "TCP")
  | .udp, _ => .ok (some "UDP")
  | .any, true => .ok (some "TCP/UDP")
  | .any, false => .ok none
  | .icmp, false => .ok (some "ICMP")
  | .icmp, true => refuseRule name n "an ICMP rule with a port"

/-- The rule at one position. The position is also its number in a refusal. -/
def gatewayRule (rule : Rule) (i : Nat) : Except Error GatewayRule := do
  let n := i + 1
  if rule.guardrail then
    refuseRule name n "an engine guardrail (namespace isolation)"
  else if rule.icmpType.isSome then
    refuseRule name n "an ICMP type"
  else
    let peer ← peerText name n rule.peer
    let protocol ← protocolText name n rule
    let (source, destination) := ends policy.direction target peer
    return {
      description := name ++ "#" ++ toString n
      source := source
      destination := destination
      protocol := protocol
      action := gatewayAction rule.action
      destinationPort := rule.ports.map portText
      log := rule.log
      stateful := rule.stateful
      sequence := some (first + UInt32.ofNat i)
    }

/-- The default verdict as one more rule, after all the others. -/
def defaultRule : GatewayRule :=
  let (source, destination) := ends policy.direction target "any"
  {
    description := name ++ "#default"
    source := source
    destination := destination
    protocol := none
    action := gatewayAction policy.default
    destinationPort := none
    log := false
    stateful := true
    sequence := some (first + UInt32.ofNat policy.rules.length)
  }

/-- The loop over the rules. The first one refused ends it. -/
def gatewayRulesFrom : Nat → List Rule → Except Error (List GatewayRule)
  | _, [] => .ok [defaultRule target policy name first]
  | i, rule :: rest => do
      let lowered ← gatewayRule target policy name first rule i
      let others ← gatewayRulesFrom (i + 1) rest
      return lowered :: others

/-- One direction of a policy as the rules of a gateway appliance. -/
def gatewayRules : Except Error (List GatewayRule) :=
  gatewayRulesFrom target policy name first 0 policy.rules

end

/-- `str::parse::<u16>`. -/
def parseU16 (s : List Char) : Option UInt16 :=
  (parseUnsigned 10 65535 s).map UInt16.ofNat

/-- Whether an address is the one written, or in the prefix that is. A text that is neither
has no answer.
-/
def plainAddr (text : String) (addr : UInt32) : Option Bool :=
  if text.toList.contains '/' then (Cidr.parse text).map (·.contains addr)
  else (Cidr.parseAddr text).map (· == addr)

/-- Whether an end of a rule covers an address. -/
def addrOk (text : String) (addr : UInt32) : Option Bool :=
  if text = "any" then some true else plainAddr text addr

def protocolOk (protocol : Option String) (packet : Packet) : Option Bool :=
  match protocol with
  | none => some true
  | some "TCP" => some (packet.proto == .tcp)
  | some "UDP" => some (packet.proto == .udp)
  | some "TCP/UDP" => some (packet.proto == .tcp || packet.proto == .udp)
  | some "ICMP" => some (packet.proto == .icmp)
  | some _ => none

def portOk (destinationPort : Option String) (packet : Packet) : Option Bool :=
  match destinationPort, packet.dport with
  | none, _ => some true
  | some _, none => some false
  | some text, some port =>
      match splitOnce '-' text.toList with
      | some (a, b) => do
          let low ← parseU16 a
          let high ← parseU16 b
          return low ≤ port && port ≤ high
      | none => (parseU16 text.toList).map (· == port)

/-- Whether the appliance applies the rule to a packet between two addresses. -/
def applies (packet : Packet) (src dst : UInt32) (rule : GatewayRule) : Option Bool := do
  let protoOk ← protocolOk rule.protocol packet
  let portOk ← portOk rule.destinationPort packet
  if protoOk && portOk then
    if ← addrOk rule.source src then addrOk rule.destination dst else return false
  else
    return false

def applianceAction : GatewayAction → Action
  | .pass => .allow
  | .block => .deny

/-- The first rule that applies decides. No answer stands for the appliance finding none, or
a rule it cannot read.
-/
def firstApplied (packet : Packet) (src dst : UInt32) : List GatewayRule → Option Action
  | [] => none
  | rule :: rest => do
      if ← applies packet src dst rule then return applianceAction rule.action
      else firstApplied packet src dst rest

/-- An absent position comes before every present one. -/
def sequenceLe (left right : GatewayRule) : Bool :=
  match left.sequence, right.sequence with
  | none, _ => true
  | some _, none => false
  | some a, some b => a ≤ b

def packetEnds (direction : Direction) (target peer : UInt32) : UInt32 × UInt32 :=
  match direction with
  | .ingress => (peer, target)
  | .egress => (target, peer)

/-- The verdict of the appliance: an established flow passes when every rule keeps state, and
otherwise the first rule in `sequence` order that applies decides.
-/
def applianceVerdict (rules : List GatewayRule) (direction : Direction) (target : UInt32)
    (packet : Packet)
    : Option Action :=
  if !packet.new && rules.all (·.stateful) then some .allow
  else
    let (src, dst) := packetEnds direction target packet.peer
    firstApplied packet src dst (rules.mergeSort sequenceLe)

end Delonix.Firewall
