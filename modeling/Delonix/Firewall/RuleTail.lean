import Delonix.Firewall.NftVerdict
import Delonix.IpPool.Addresses

/-! The holder's side of a firewall record: which records it accepts, the text of a rule behind
its own address, and the counters read back from the kernel's listing of a chain.
-/

namespace Delonix.Firewall

open Delonix.Library.Text
open Delonix.Library.Words
open Delonix.Library.Checks
open Delonix.Net
open Delonix.IpPool (parseIpv4)

def fwProtoOk (p : String) : Bool := p ∈ ["", "any", "tcp", "udp", "icmp"]

def fwIcmpTypeOk (t : String) : Bool := t = "" || (parseU8 t.toList).isSome

def portNumberOk (s : List Char) : Bool :=
  match parseUnsigned 10 0xFFFFFFFF s with
  | some n => 1 ≤ n && n ≤ 65535
  | none => false

/-- Empty, `*`, a number or a range. That a range is in order is not asked. -/
def fwPortOk (p : String) : Bool :=
  if p = "" ∨ p = "*" then true
  else
    match splitOnce '-' p.toList with
    | some (a, b) => portNumberOk a && portNumberOk b
    | none => portNumberOk p.toList

def isSrcByte (c : Char) : Bool := c.isDigit || c == '.' || c == '/'

def maskOk (m : List Char) : Bool := (parseUnsigned 10 0xFFFFFFFF m).any (· ≤ 32)

/-- Empty, `*`, `0.0.0.0/0`, an IPv4 address or one with a length. -/
def fwSrcOk (s : String) : Bool :=
  if s = "" ∨ s = "*" ∨ s = "0.0.0.0/0" then true
  else if s.utf8ByteSize > 64 || !s.toList.all isSrcByte then false
  else
    match splitOnce '/' s.toList with
    | some (addr, m) => maskOk m && (parseIpv4 addr).isSome
    | none => (parseIpv4 s.toList).isSome

def FwRule.nftSafe (r : FwRule) : Bool :=
  fwProtoOk r.proto && fwPortOk r.port && fwSrcOk r.src && fwIcmpTypeOk r.icmpType

/-- A text without a `/32` at its end. -/
def withoutHostLen (text : String) : String :=
  match stripSuffix "/32".toList text.toList with
  | some address => String.ofList address
  | none => text

def FwRule.hasPeer (r : FwRule) : Bool := r.src ≠ "" && r.src ≠ "0.0.0.0/0" && r.src ≠ "*"

def FwRule.hasPort (r : FwRule) : Bool := r.port ≠ "" && r.port ≠ "*"

/-- The peer of a rule as its record spells it. -/
def tailPeer (r : FwRule) : String :=
  let peerDir := if r.dir = "out" then "daddr" else "saddr"
  if r.hasPeer then "ip " ++ peerDir ++ " " ++ withoutHostLen r.src ++ " " else ""

/-- The protocol, port and ICMP type of a rule as its record spells them. -/
def tailProto (r : FwRule) : String :=
  if r.proto = "icmp" then
    "meta l4proto icmp " ++ if r.icmpType ≠ "" then "icmp type " ++ r.icmpType ++ " " else ""
  else if r.proto ≠ "" ∧ r.proto ≠ "any" then
    r.proto ++ (if r.hasPort then " dport " ++ r.port else "") ++ " "
  else if r.hasPort then "meta l4proto \x7b tcp, udp \x7d th dport " ++ r.port ++ " "
  else ""

/-- What stands in the line of a rule behind its own address. -/
def fwRuleTail (r : FwRule) : Option String :=
  if !r.nftSafe then none
  else
    some (tailPeer r ++ tailProto r
      ++ if r.action = "allow" then "counter accept" else "counter drop")

inductive HolderError where
  | firewallNoIp (why : String)
  | ipOutsideIngressSpace (why : String)
  | firewallJsonInvalid (why : String)
  deriving DecidableEq, Repr

def Error.text : Error → String
  | .policyNotRepresentable why => why

def refuseSet {α : Type} (what : String) : Except HolderError α :=
  .error (.firewallJsonInvalid
    ("firewall refused, nothing was applied (the previous rules stay in force): " ++ what))

section

variable (unprintable : Char → Bool)

/-- The rule lines of one address of a workload, from its record. -/
def fwChainBody (ip : String) (fw : ContainerFw) : Except HolderError String :=
  match fromContainerFw unprintable fw with
  | .error e => refuseSet e.text
  | .ok policy =>
      match chainBody ip policy with
      | .error why => refuseSet (why ++ " has no nft form in the holder chain")
      | .ok body => .ok body

def validatePolicy (field value : String) : Except HolderError Unit :=
  if value = "" ∨ value = "allow" ∨ value = "deny" then .ok ()
  else
    refuseSet (field ++ " " ++ quoted unprintable value ++ " is neither `allow` nor `deny`")

def validateRule (r : FwRule) (i : Nat) : Except HolderError Unit :=
  let number := "rule #" ++ toString (i + 1) ++ ": "
  if ¬ (r.dir = "in" ∨ r.dir = "out") then
    refuseSet (number ++ "direction " ++ quoted unprintable r.dir
      ++ " is neither `in` nor `out`")
  else if ¬ (r.action = "allow" ∨ r.action = "deny") then
    refuseSet (number ++ "action " ++ quoted unprintable r.action
      ++ " is neither `allow` nor `deny`")
  else if (fwRuleTail r).isNone then
    refuseSet (number ++ "proto " ++ quoted unprintable r.proto ++ " / port "
      ++ quoted unprintable r.port ++ " / peer " ++ quoted unprintable r.src
      ++ " is not a valid tcp|udp|any, port or range, and IPv4 address/CIDR")
  else .ok ()

/-- The loop over the rules of a record. -/
def validateRules : Nat → List FwRule → Except HolderError Unit
  | _, [] => .ok ()
  | i, r :: rest => do
      validateRule unprintable r i
      validateRules (i + 1) rest

/-- Whether the dataplane can enforce a record exactly as it is written. -/
def validateContainerFw (fw : ContainerFw) : Except HolderError Unit := do
  validatePolicy unprintable "policyIn" fw.policyIn
  validatePolicy unprintable "policyOut" fw.policyOut
  validateRules unprintable 0 fw.rules
  discard (fwChainBody unprintable "10.200.0.1" fw)

end

def parseU64 (s : List Char) : Option Nat := parseUnsigned 10 0xFFFFFFFFFFFFFFFF s

/-- A listed rule without the values of its counter, and the values. -/
def counterLine (line : List Char) : Option (String × Nat × Nat) := do
  let (before, after) ← cutAt "counter packets ".toList (trim line)
  match splitWhitespace after with
  | packets :: word :: bytes :: rest => do
      let packets ← parseU64 packets
      guard (word = "bytes".toList)
      let bytes ← parseU64 bytes
      let text := before ++ "counter ".toList ++ [' '].intercalate rest
      some (String.ofList (trim text), packets, bytes)
  | _ => none

/-- The rules of a listing that have a counter. -/
def parseFwCounters (listing : List Char) : List (String × Nat × Nat) :=
  (lines listing).filterMap counterLine

/-- A line as the kernel lists it: its counter has values. -/
def withCounts (packets bytes : Nat) (line : String) : String :=
  match cutAt "counter".toList line.toList with
  | some (before, after) =>
      String.ofList (before ++ "counter packets ".toList ++ decimal packets ++ " bytes ".toList
        ++ decimal bytes ++ after)
  | none => line

theorem validateRules_eq_ok {unprintable : Char → Bool} {i : Nat} {rules : List FwRule}
    (valid : validateRules unprintable i rules = .ok ())
    : ∀ r ∈ rules, (r.dir = "in" ∨ r.dir = "out") ∧ (r.action = "allow" ∨ r.action = "deny")
      ∧ r.nftSafe = true := by
  induction rules generalizing i with
  | nil => simp
  | cons r rest ih =>
      obtain ⟨_, first, later⟩ := bind_eq_ok.mp valid
      refine List.forall_mem_cons.mpr ⟨?_, ih later⟩
      simp only [validateRule, refuseSet] at first
      split at first
      case isTrue => contradiction
      case isFalse directed =>
        split at first
        case isTrue => contradiction
        case isFalse acting =>
          split at first
          case isTrue => contradiction
          case isFalse tailed =>
            refine ⟨not_not.mp directed, not_not.mp acting, ?_⟩
            cases safe : r.nftSafe with
            | true => rfl
            | false => simp [fwRuleTail, safe] at tailed

theorem validateContainerFw_eq_ok {unprintable : Char → Bool} {fw : ContainerFw}
    (valid : validateContainerFw unprintable fw = .ok ())
    : (∀ r ∈ fw.rules, (r.dir = "in" ∨ r.dir = "out") ∧ (r.action = "allow" ∨ r.action = "deny")
        ∧ r.nftSafe = true)
      ∧ ∃ target, fromContainerFw unprintable fw = .ok target := by
  obtain ⟨_, _, valid⟩ := bind_eq_ok.mp valid
  obtain ⟨_, _, valid⟩ := bind_eq_ok.mp valid
  obtain ⟨_, rules, valid⟩ := bind_eq_ok.mp valid
  refine ⟨validateRules_eq_ok rules, ?_⟩
  cases parsed : fromContainerFw unprintable fw with
  | ok target => exact ⟨target, rfl⟩
  | error e =>
      simp only [fwChainBody, parsed, refuseSet] at valid
      cases valid

end Delonix.Firewall
