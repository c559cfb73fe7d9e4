import Delonix.Net.Cidr

/-! The typed policy of one direction of one target: a list of rules, the first of which to
match decides, and a default. `evaluate` is the reference verdict every enforcement point is
compared with.
-/

namespace Delonix.Firewall

open Delonix.Net

/-- What a rule, or a policy's default, does with a packet. -/
inductive Action where
  | allow
  | deny
  deriving DecidableEq, Repr

/-- The guarded side. The peer is the source on ingress and the destination on egress. -/
inductive Direction where
  | ingress
  | egress
  deriving DecidableEq, Repr

inductive Proto where
  | any
  | tcp
  | udp
  | icmp
  deriving DecidableEq, Repr

/-- A destination port, or an inclusive range of them. -/
structure PortRange where
  first : UInt16
  last : UInt16
  deriving DecidableEq, Repr

def PortRange.one (port : UInt16) : PortRange := { first := port, last := port }

def PortRange.contains (range : PortRange) (port : UInt16) : Bool :=
  range.first ≤ port && port ≤ range.last

/-- A prefix a policy may name: host bits cleared, at most 32 bits long. -/
abbrev Prefix := { net : Cidr // net.WellFormed }

/-- The other end of a packet a rule is about. -/
inductive Peer where
  | any
  | cidr (net : Prefix)
  | namespaced (name : String)
  | otherNamespaces (name : String)
  | selector (labels : List (String × String))
  deriving DecidableEq

structure Rule where
  action : Action
  proto : Proto
  ports : Option PortRange
  icmpType : Option UInt8
  peer : Peer
  stateful : Bool
  log : Bool
  origin : Option String
  guardrail : Bool
  deriving DecidableEq

/-- A stateful, unlogged user rule with every port and every ICMP type. -/
def Rule.new (action : Action) (proto : Proto) (peer : Peer) : Rule := {
  action := action
  proto := proto
  ports := none
  icmpType := none
  peer := peer
  stateful := true
  log := false
  origin := none
  guardrail := false
}

/-- One direction of one target: the rules in order, then the default. -/
structure Policy where
  direction : Direction
  default : Action
  rules : List Rule
  deriving DecidableEq

def Policy.opened (direction : Direction) : Policy :=
  { direction := direction, default := .allow, rules := [] }

/-- Every rule is stateful, so the return of an admitted flow is let through before any rule
is evaluated.
-/
def Policy.isStateful (policy : Policy) : Bool := policy.rules.all (·.stateful)

/-- A packet, as a policy sees it. The namespace and the labels are those of the other end
when it is a workload of the engine; `new` is false for the return of an admitted flow.
-/
structure Packet where
  proto : Proto
  dport : Option UInt16
  icmpType : Option UInt8
  peer : UInt32
  peerNamespace : Option String
  peerLabels : List (String × String)
  new : Bool
  deriving DecidableEq, Repr

/-- A rule for any protocol that names ports is about TCP and UDP only. -/
def protoMatches (rule : Rule) (packet : Packet) : Bool :=
  match rule.proto with
  | .any =>
      if rule.ports.isSome then packet.proto == .tcp || packet.proto == .udp else true
  | proto => proto == packet.proto

def portsMatch (rule : Rule) (packet : Packet) : Bool :=
  match rule.ports with
  | none => true
  | some range =>
      match packet.dport with
      | some port => range.contains port
      | none => false

def icmpMatches (rule : Rule) (packet : Packet) : Bool :=
  match rule.icmpType with
  | none => true
  | some type => packet.icmpType == some type

def peerMatches (peer : Peer) (packet : Packet) : Bool :=
  match peer with
  | .any => true
  | .cidr net => net.val.contains packet.peer
  | .namespaced name => packet.peerNamespace == some name
  | .otherNamespaces name =>
      match packet.peerNamespace with
      | some other => other != name
      | none => false
  | .selector labels =>
      packet.peerNamespace.isSome && labels.all (fun label => packet.peerLabels.contains label)

/-- Whether the rule matches the packet. -/
def ruleMatches (rule : Rule) (packet : Packet) : Bool :=
  protoMatches rule packet && portsMatch rule packet && icmpMatches rule packet
    && peerMatches rule.peer packet

/-- The verdict of the first rule that matches, or the default. -/
def firstVerdict (rules : List Rule) (default : Action) (packet : Packet) : Action :=
  match rules.find? (ruleMatches · packet) with
  | some rule => rule.action
  | none => default

/-- The reference verdict: the return of an admitted flow passes when every rule is stateful,
and otherwise the first rule that matches decides.
-/
def evaluate (policy : Policy) (packet : Packet) : Action :=
  if !packet.new && policy.isStateful then .allow
  else firstVerdict policy.rules policy.default packet

theorem firstVerdict_cons (rule : Rule) (rules : List Rule) (default : Action)
    (packet : Packet)
    : firstVerdict (rule :: rules) default packet
      = if ruleMatches rule packet then rule.action
        else firstVerdict rules default packet := by
  cases hit : ruleMatches rule packet with
  | true => simp [firstVerdict, hit]
  | false => simp [firstVerdict, hit]

end Delonix.Firewall
