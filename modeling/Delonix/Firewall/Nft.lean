import Delonix.Firewall.Record
import Delonix.Library.Words

/-! The native lowering: a workload's policy as the rule lines of its chain in the holder, and
the verdict read off such lines.
-/

namespace Delonix.Firewall

open Delonix.Library.Text
open Delonix.Library.Words
open Delonix.Net

def verdictText : Action → String
  | .allow => "counter accept"
  | .deny => "counter drop"

/-- The address fields of the workload and of its peer. -/
def addressFields : Direction → String × String
  | .ingress => ("daddr", "saddr")
  | .egress => ("saddr", "daddr")

/-- The match on the peer, with a blank after it. -/
def peerMatch (peerDir : String) : Peer → Except String String
  | .any => .ok ""
  | .cidr net => .ok ("ip " ++ peerDir ++ " " ++ addressText net.val ++ " ")
  | .namespaced _ | .otherNamespaces _ | .selector _ =>
      .error "a namespace or selector peer on a user rule"

/-- The match on the protocol, the ports and the ICMP type, with a blank after it. -/
def protoMatch (rule : Rule) : String :=
  match rule.proto, rule.ports with
  | .tcp, none => "tcp "
  | .tcp, some range => "tcp dport " ++ portText range ++ " "
  | .udp, none => "udp "
  | .udp, some range => "udp dport " ++ portText range ++ " "
  | .any, some range => "meta l4proto \x7b tcp, udp \x7d th dport " ++ portText range ++ " "
  | .any, none => ""
  | .icmp, _ =>
      "meta l4proto icmp " ++
        match rule.icmpType with
        | some type => "icmp type " ++ toString type.toNat ++ " "
        | none => ""

/-- One user rule: the line that decides, behind a rate-limited line that logs when the rule
asks for it. Both share the match.
-/
def userLine (ip : String) (direction : Direction) (rule : Rule) : Except String String :=
  if !rule.stateful then .error "a stateless rule (the holder chain is stateful)"
  else do
    let (selfDir, peerDir) := addressFields direction
    let peer ← peerMatch peerDir rule.peer
    let matching := "ip " ++ selfDir ++ " " ++ ip ++ " " ++ peer ++ protoMatch rule
    let logging :=
      if rule.log then
        "\t\t" ++ matching ++ "limit rate 10/second counter log prefix \"dlx-fw \"" ++ "\n"
      else ""
    return logging ++ ("\t\t" ++ matching ++ verdictText rule.action ++ "\n")

/-- One line of the namespace isolation. The cut of other namespaces leaves the own one out
only where it was not admitted just before.
-/
def guardLine (ip : String) (rule : Rule) (afterSameNs : Bool) : Except String String :=
  match rule.peer, rule.action with
  | .namespaced ns, .allow =>
      .ok ("\t\tip daddr " ++ ip ++ " ip saddr @" ++ nsSet ns ++ " counter accept\n")
  | .otherNamespaces ns, .deny =>
      if afterSameNs then
        .ok ("\t\tip daddr " ++ ip ++ " ip saddr @" ++ dlxallSet
          ++ " ct state new counter drop\n")
      else
        .ok ("\t\tip daddr " ++ ip ++ " ip saddr @" ++ dlxallSet ++ " ip saddr != @" ++ nsSet ns
          ++ " ct state new counter drop\n")
  | _, _ => .error "a guardrail other than the namespace isolation"

/-- The guard admits a namespace and the next one cuts all others. -/
def sameNs (previous rule : Rule) : Bool :=
  match previous.peer, rule.peer with
  | .namespaced a, .otherNamespaces b => a == b
  | _, _ => false

/-- The loop over the guards, with the one before. -/
def guardLines (ip : String) : Option Rule → List Rule → Except String String
  | _, [] => .ok ""
  | previous, rule :: rest => do
      let line ← guardLine ip rule (previous.any (sameNs · rule))
      let others ← guardLines ip (some rule) rest
      return line ++ others

def defaultLine (ip : String) (policy : Policy) : String :=
  match policy.direction, policy.default with
  | _, .allow => ""
  | .ingress, .deny => "\t\tip daddr " ++ ip ++ " counter drop\n"
  | .egress, .deny => "\t\tip saddr " ++ ip ++ " counter drop\n"

/-- The loop over the user rules of one direction. -/
def userLines (ip : String) (direction : Direction) : List Rule → Except String String
  | [] => .ok ""
  | rule :: rest => do
      let line ← userLine ip direction rule
      let others ← userLines ip direction rest
      return line ++ others

/-- The rule lines of the workload at an address: user rules, guards, defaults. -/
def chainBody (ip : String) (target : TargetPolicy) : Except String String := do
  let ins ← userLines ip .ingress (target.ingress.rules.filter (!·.guardrail))
  let outs ← userLines ip .egress (target.egress.rules.filter (!·.guardrail))
  if target.egress.rules.any (·.guardrail) then
    .error "an egress guardrail has no nft form here"
  else
    let guards ← guardLines ip none (target.ingress.rules.filter (·.guardrail))
    return ins ++ outs ++ guards ++ defaultLine ip target.ingress
      ++ defaultLine ip target.egress

/-- The head of a chain, once for all addresses of the workload. -/
def fwChainPrologue (fw : ContainerFw) : String :=
  if !fw.enabled then ""
  else "\t\tct state invalid counter drop\n\t\tct state established,related counter accept\n"

/-- What a line is read against: the packet, its two addresses, and whether a rate limit it
meets lets this packet through.
-/
structure Reading where
  packet : Packet
  src : UInt32
  dst : UInt32
  underLimit : Bool

def Reading.of (direction : Direction) (own : UInt32) (packet : Packet) (underLimit : Bool)
    : Reading :=
  let (src, dst) := packetEnds direction own packet.peer
  { packet := packet, src := src, dst := dst, underLimit := underLimit }

/-- Whether an address matches a set, a prefix or an address. Sets hold workload addresses, so
only the peer can be in one.
-/
def addrMatches (reading : Reading) (value : String) (addr : UInt32) : Option Bool :=
  match stripStart ['@'] value.toList with
  | some set =>
      some (addr == reading.packet.peer
        && inSet reading.packet.peerNamespace (String.ofList set))
  | none => plainAddr value addr

def ctMatches (reading : Reading) (state : String) : Option Bool :=
  match state with
  | "new" => some reading.packet.new
  | "established,related" => some !reading.packet.new
  | "invalid" => some false
  | _ => none

/-- What the statements of a line say so far: whether they all match, and the verdict. -/
structure LineState where
  matched : Bool
  verdict : Option Action
  deriving DecidableEq, Repr

def LineState.also (state : LineState) (hit : Bool) : LineState :=
  { state with matched := state.matched && hit }

def fieldAddr (reading : Reading) (field : String) : Option UInt32 :=
  if field = "saddr" then some reading.src
  else if field = "daddr" then some reading.dst
  else none

/-- The statements of a line, in order. A word the reader does not know has no answer. -/
def readWords (reading : Reading) : List String → LineState → Option LineState
  | [], state => some state
  | word :: rest, state =>
      if word = "ip" then
        match rest with
        | field :: value :: rest =>
            if value = "!=" then
              match rest with
              | value :: rest => do
                  let hit ← addrMatches reading value (← fieldAddr reading field)
                  readWords reading rest (state.also !hit)
              | [] => none
            else do
              let hit ← addrMatches reading value (← fieldAddr reading field)
              readWords reading rest (state.also hit)
        | _ => none
      else if word = "tcp" ∨ word = "udp" then
        let carried := reading.packet.proto == if word = "tcp" then .tcp else .udp
        match rest with
        | port :: ports :: after =>
            if port = "dport" then do
              let hit ← portOk (some ports) reading.packet
              readWords reading after (state.also (carried && hit))
            else
              readWords reading (port :: ports :: after) (state.also carried)
        | after => readWords reading after (state.also carried)
      else if word = "meta" then
        match rest with
        | l4proto :: proto :: rest =>
            if l4proto = "l4proto" ∧ proto = "icmp" then
              readWords reading rest (state.also (reading.packet.proto == .icmp))
            else
              match rest with
              | tcp :: udp :: close :: th :: dport :: ports :: rest =>
                  if [l4proto, proto, tcp, udp, close, th, dport]
                      = ["l4proto", "\x7b", "tcp,", "udp", "\x7d", "th", "dport"] then do
                    let hit ← portOk (some ports) reading.packet
                    readWords reading rest (state.also
                      ((reading.packet.proto == .tcp || reading.packet.proto == .udp) && hit))
                  else none
              | _ => none
        | _ => none
      else if word = "icmp" then
        match rest with
        | key :: type :: rest => do
            guard (key = "type")
            let wanted ← parseU8 type.toList
            readWords reading rest
              (state.also (reading.packet.icmpType == some (UInt8.ofNat wanted)))
        | _ => none
      else if word = "ct" then
        match rest with
        | key :: ct :: rest => do
            guard (key = "state")
            let hit ← ctMatches reading ct
            readWords reading rest (state.also hit)
        | _ => none
      else if word = "limit" then
        match rest with
        | key :: _ :: rest => do
            guard (key = "rate")
            readWords reading rest (state.also reading.underLimit)
        | _ => none
      else if word = "log" then
        match rest with
        | key :: opening :: closing :: rest => do
            guard (key = "prefix" ∧ opening = "\"dlx-fw" ∧ closing = "\"")
            readWords reading rest state
        | _ => none
      else if word = "counter" then readWords reading rest state
      else if word = "accept" then
        readWords reading rest { state with verdict := some .allow }
      else if word = "drop" then
        readWords reading rest { state with verdict := some .deny }
      else none

def readLine (reading : Reading) (words : List (List Char)) : Option LineState :=
  readWords reading (words.map String.ofList) { matched := true, verdict := none }

/-- The first line that matches and has a verdict decides. A line without one is passed, and
a packet that reaches the end of the chain is let through.
-/
def readLines (reading : Reading) : List (List (List Char)) → Option Action
  | [] => some .allow
  | words :: rest => do
      let state ← readLine reading words
      match state.matched, state.verdict with
      | true, some action => return action
      | _, _ => readLines reading rest

/-- The verdict of a chain on a packet to or from the workload at an address. -/
def nftVerdict (body : String) (direction : Direction) (own : UInt32) (packet : Packet)
    (underLimit : Bool)
    : Option Action :=
  readLines (.of direction own packet underLimit) (wordsOfLines body.toList)

end Delonix.Firewall
