import Delonix.Firewall.Gateway
import Delonix.Library.Checks

/-! The appliance gives the verdict of the policy it was sent: each text the lowering writes
is read back as the test it was made from, and positions keep the order of the rules.
-/

namespace Delonix.Firewall

open Delonix.Library.Text
open Delonix.Library.Checks
open Delonix.Net

theorem slash_not_mem_decimal (n : Nat) : '/' ∉ decimal n := not_mem_decimal (by decide)

/-- Only a single address loses its length. -/
theorem addressText_eq (net : Cidr)
    : addressText net = if net.len = 32 then Cidr.fmtU32 net.base else net.toStringCidr := by
  have text := Cidr.toList_toStringCidr net
  split
  case isTrue single =>
    have shape : net.toStringCidr.toList = dotted (toBeBytes net.base) ++ "/32".toList := by
      rw [text, single]
      rfl
    rw [addressText, stripSuffix_eq_some.mpr shape, Cidr.fmtU32]
  case isFalse several =>
    have other : ¬ "/32".toList <:+ net.toStringCidr.toList := by
      rintro ⟨front, same⟩
      rw [text] at same
      have digits : decimal 32 = decimal net.len :=
        after_last_separator same (slash_not_mem_decimal 32) (slash_not_mem_decimal _)
      exact several (decimal_inj digits).symm
    have kept : stripSuffix "/32".toList net.toStringCidr.toList = none := by
      rw [stripSuffix, if_neg (mt List.isSuffixOf_iff_suffix.mp other)]
    rw [addressText, kept]

/-- A text that starts with a digit is not the word for every address. -/
theorem fmtU32_ne_any (v : UInt32) : Cidr.fmtU32 v ≠ "any" := by
  intro same
  have chars : dotted (toBeBytes v) = "any".toList := by
    rw [← same, Cidr.fmtU32, String.toList_ofList]
  have letter : 'a' ∈ dotted (toBeBytes v) := by
    rw [chars]
    decide
  rcases mem_dotted letter with dot | digit
  · exact absurd dot (by decide)
  · exact absurd digit.2 (by decide)

theorem toStringCidr_ne_any (net : Cidr) : net.toStringCidr ≠ "any" := by
  intro same
  have slash : '/' ∈ net.toStringCidr.toList := by simp [Cidr.toList_toStringCidr]
  rw [same] at slash
  exact absurd slash (by decide)

theorem addressText_ne_any (net : Cidr) : addressText net ≠ "any" := by
  rw [addressText_eq]
  split
  case isTrue => exact fmtU32_ne_any net.base
  case isFalse => exact toStringCidr_ne_any net

theorem plainAddr_fmtU32 (v addr : UInt32)
    : plainAddr (Cidr.fmtU32 v) addr = some (v == addr) := by
  have plain : (Cidr.fmtU32 v).toList.contains '/' = false := by
    simpa [Cidr.fmtU32] using slash_not_mem_dotted (toBeBytes v)
  rw [plainAddr, plain]
  simp [Cidr.parseAddr_fmtU32]

theorem plainAddr_toStringCidr {net : Cidr} (wellFormed : net.WellFormed) (addr : UInt32)
    : plainAddr net.toStringCidr addr = some (net.contains addr) := by
  have slash : '/' ∈ net.toStringCidr.toList := by simp [Cidr.toList_toStringCidr]
  rw [plainAddr, if_pos (List.contains_iff_mem.mpr slash),
    Cidr.parse_toStringCidr wellFormed, Option.map_some]

/-- A peer's text is read as the prefix it was made from. -/
theorem plainAddr_addressText (net : Prefix) (addr : UInt32)
    : plainAddr (addressText net.val) addr = some (net.val.contains addr) := by
  rw [addressText_eq]
  split
  case isTrue single =>
    have whole : Cidr.mask 32 = 0xFFFFFFFF := by decide
    have kept : addr &&& 0xFFFFFFFF = addr := UInt32.and_neg_one
    rw [plainAddr_fmtU32, Cidr.contains, single, whole, kept, Bool.beq_comm]
  case isFalse => exact plainAddr_toStringCidr net.property addr

theorem parseU16_decimal (port : UInt16) : parseU16 (decimal port.toNat) = some port := by
  rw [parseU16, parseUnsigned_decimal (by have := port.toNat_lt; omega)]
  simp

theorem splitOnce_portText {range : PortRange} (several : range.first ≠ range.last)
    : splitOnce '-' (portText range).toList
      = some (decimal range.first.toNat, decimal range.last.toNat) := by
  rw [portText, if_neg several, String.toList_append, String.toList_append, List.append_assoc,
    toList_toString, toList_toString]
  exact splitOnce_append _ (not_mem_decimal (by decide))

theorem PortRange.contains_single {range : PortRange} (single : range.first = range.last)
    (port : UInt16)
    : range.contains port = (range.first == port) := by
  rw [Bool.eq_iff_iff]
  simp only [PortRange.contains, ← single, Bool.and_eq_true, decide_eq_true_eq, beq_iff_eq]
  constructor
  · rintro ⟨low, high⟩
    exact UInt16.le_antisymm low high
  · rintro rfl
    exact ⟨UInt16.le_refl _, UInt16.le_refl _⟩

/-- The appliance reads the ports of a rule as the range they were made from. -/
theorem portOk_portText (rule : Rule) (packet : Packet)
    : portOk (rule.ports.map portText) packet = some (portsMatch rule packet) := by
  cases ranged : rule.ports with
  | none => simp [portOk, portsMatch, ranged]
  | some range =>
      cases port : packet.dport with
      | none => simp [portOk, portsMatch, ranged, port]
      | some d =>
          by_cases single : range.first = range.last
          · have text : (portText range).toList = decimal range.first.toNat := by
              rw [portText, if_pos single, toList_toString]
            have plain : splitOnce '-' (decimal range.first.toNat) = none :=
              splitOnce_eq_none (not_mem_decimal (by decide))
            simp only [portOk, portsMatch, ranged, port, Option.map_some, text, plain,
              parseU16_decimal, PortRange.contains_single single]
          · simp only [portOk, portsMatch, ranged, port, Option.map_some,
              splitOnce_portText single, parseU16_decimal, PortRange.contains]
            rfl

theorem protocolOk_protocolText {name : String} {n : Nat} {rule : Rule}
    {protocol : Option String} (written : protocolText name n rule = .ok protocol)
    (packet : Packet)
    : protocolOk protocol packet = some (protoMatches rule packet) := by
  cases spoken : rule.proto with
  | any =>
      cases ported : rule.ports.isSome with
      | true =>
          obtain rfl : some "TCP/UDP" = protocol := by
            simpa [protocolText, spoken, ported] using written
          simp [protocolOk, protoMatches, spoken, ported]
      | false =>
          obtain rfl : none = protocol := by
            simpa [protocolText, spoken, ported] using written
          simp [protocolOk, protoMatches, spoken, ported]
  | tcp =>
      obtain rfl : some "TCP" = protocol := by simpa [protocolText, spoken] using written
      simp [protocolOk, protoMatches, spoken, Bool.beq_comm]
  | udp =>
      obtain rfl : some "UDP" = protocol := by simpa [protocolText, spoken] using written
      simp [protocolOk, protoMatches, spoken, Bool.beq_comm]
  | icmp =>
      cases ported : rule.ports.isSome with
      | true => simp [protocolText, spoken, ported, refuseRule] at written
      | false =>
          obtain rfl : some "ICMP" = protocol := by
            simpa [protocolText, spoken, ported] using written
          simp [protocolOk, protoMatches, spoken, Bool.beq_comm]

theorem peerText_eq_ok {name : String} {n : Nat} {peer : Peer} {text : String}
    (written : peerText name n peer = .ok text) (packet : Packet)
    : addrOk text packet.peer = some (peerMatches peer packet) := by
  cases peer with
  | any =>
      obtain rfl := Except.ok.inj written
      rfl
  | cidr net =>
      obtain rfl := Except.ok.inj written
      rw [addrOk, if_neg (addressText_ne_any net.val)]
      exact plainAddr_addressText net packet.peer
  | namespaced other => contradiction
  | otherNamespaces other => contradiction
  | selector labels => contradiction

section

variable {target name : String} {policy : Policy} {first : UInt32}

/-- What a rule the lowering accepts becomes. -/
theorem gatewayRule_eq_ok {rule : Rule} {i : Nat} {lowered : GatewayRule}
    (accepted : gatewayRule target policy name first rule i = .ok lowered)
    : rule.icmpType = none ∧ ∃ peer protocol,
      peerText name (i + 1) rule.peer = .ok peer
      ∧ protocolText name (i + 1) rule = .ok protocol
      ∧ lowered = {
        description := name ++ "#" ++ toString (i + 1)
        source := (ends policy.direction target peer).1
        destination := (ends policy.direction target peer).2
        protocol := protocol
        action := gatewayAction rule.action
        destinationPort := rule.ports.map portText
        log := rule.log
        stateful := rule.stateful
        sequence := some (first + UInt32.ofNat i)
      } := by
  simp only [gatewayRule] at accepted
  split at accepted
  case isTrue => contradiction
  case isFalse =>
    split at accepted
    case isTrue => contradiction
    case isFalse untyped =>
      obtain ⟨peer, peered, accepted⟩ := bind_eq_ok.mp accepted
      obtain ⟨protocol, spoken, accepted⟩ := bind_eq_ok.mp accepted
      exact ⟨by simpa using untyped, peer, protocol, peered, spoken,
        (Except.ok.inj accepted).symm⟩

/-- Between the target and the packet's peer, both ends of a rule are covered when the peer
is.
-/
theorem addrOk_ends (direction : Direction) {peer : String} {addr : UInt32} {packet : Packet}
    {hit : Bool} (resolves : addrOk target addr = some true)
    (covered : addrOk peer packet.peer = some hit)
    : (do
        if ← addrOk (ends direction target peer).1 (packetEnds direction addr packet.peer).1
        then addrOk (ends direction target peer).2 (packetEnds direction addr packet.peer).2
        else return false)
      = some hit := by
  cases direction with
  | ingress => cases hit <;> simp [ends, packetEnds, resolves, covered]
  | egress => simp [ends, packetEnds, resolves, covered]

/-- The appliance applies a lowered rule to exactly the packets the rule matches. -/
theorem applies_gatewayRule {rule : Rule} {i : Nat} {lowered : GatewayRule} {addr : UInt32}
    (accepted : gatewayRule target policy name first rule i = .ok lowered)
    (resolves : addrOk target addr = some true) (packet : Packet)
    : applies packet (packetEnds policy.direction addr packet.peer).1
        (packetEnds policy.direction addr packet.peer).2 lowered
      = some (ruleMatches rule packet) := by
  obtain ⟨untyped, peer, protocol, peered, spoken, rfl⟩ := gatewayRule_eq_ok accepted
  have addresses := addrOk_ends policy.direction resolves (peerText_eq_ok peered packet)
  simp only [applies, protocolOk_protocolText spoken, portOk_portText, bind, Option.bind_some]
  cases matched : protoMatches rule packet && portsMatch rule packet with
  | true => simpa [ruleMatches, matched, icmpMatches, untyped] using addresses
  | false => simp [ruleMatches, matched]

theorem applies_defaultRule {addr : UInt32} (resolves : addrOk target addr = some true)
    (packet : Packet)
    : applies packet (packetEnds policy.direction addr packet.peer).1
        (packetEnds policy.direction addr packet.peer).2
        (defaultRule target policy name first)
      = some true := by
  have covered : addrOk "any" packet.peer = some true := rfl
  have addresses := addrOk_ends policy.direction resolves covered
  simpa [applies, defaultRule, protocolOk, portOk] using addresses

theorem gatewayRulesFrom_cons {i : Nat} {rule : Rule} {rest : List Rule}
    {rules : List GatewayRule}
    (lowering : gatewayRulesFrom target policy name first i (rule :: rest) = .ok rules)
    : ∃ lowered others, gatewayRule target policy name first rule i = .ok lowered
      ∧ gatewayRulesFrom target policy name first (i + 1) rest = .ok others
      ∧ rules = lowered :: others := by
  obtain ⟨lowered, accepted, lowering⟩ := bind_eq_ok.mp lowering
  obtain ⟨others, remaining, same⟩ := bind_eq_ok.mp lowering
  exact ⟨lowered, others, accepted, remaining, (Except.ok.inj same).symm⟩

/-- The first lowered rule that applies carries the action of the first rule that matches,
by induction over the rules; the default rule always applies.
-/
theorem firstApplied_gatewayRulesFrom {rest : List Rule} {i : Nat} {rules : List GatewayRule}
    {addr : UInt32}
    (lowering : gatewayRulesFrom target policy name first i rest = .ok rules)
    (resolves : addrOk target addr = some true) (packet : Packet)
    : firstApplied packet (packetEnds policy.direction addr packet.peer).1
        (packetEnds policy.direction addr packet.peer).2 rules
      = some (firstVerdict rest policy.default packet) := by
  have carried (action : Action) : applianceAction (gatewayAction action) = action := by
    cases action <;> rfl
  induction rest generalizing i rules with
  | nil =>
      obtain rfl := Except.ok.inj lowering
      rw [firstApplied, applies_defaultRule resolves]
      simp [defaultRule, carried, firstVerdict]
  | cons rule rest ih =>
      obtain ⟨lowered, others, accepted, remaining, rfl⟩ := gatewayRulesFrom_cons lowering
      have action : lowered.action = gatewayAction rule.action := by
        obtain ⟨_, peer, protocol, _, _, rfl⟩ := gatewayRule_eq_ok accepted
        rfl
      rw [firstApplied, applies_gatewayRule accepted resolves, ih remaining,
        firstVerdict_cons, action, carried]
      cases ruleMatches rule packet <;> rfl

theorem defaultRule_mem {rest : List Rule} {i : Nat} {rules : List GatewayRule}
    (lowering : gatewayRulesFrom target policy name first i rest = .ok rules)
    : defaultRule target policy name first ∈ rules := by
  induction rest generalizing i rules with
  | nil =>
      obtain rfl := Except.ok.inj lowering
      simp
  | cons rule rest ih =>
      obtain ⟨lowered, others, _, remaining, rfl⟩ := gatewayRulesFrom_cons lowering
      exact List.mem_cons_of_mem _ (ih remaining)

theorem all_stateful_gatewayRulesFrom {rest : List Rule} {i : Nat} {rules : List GatewayRule}
    (lowering : gatewayRulesFrom target policy name first i rest = .ok rules)
    : rules.all (·.stateful) = rest.all (·.stateful) := by
  induction rest generalizing i rules with
  | nil =>
      obtain rfl := Except.ok.inj lowering
      rfl
  | cons rule rest ih =>
      obtain ⟨lowered, others, accepted, remaining, rfl⟩ := gatewayRulesFrom_cons lowering
      obtain ⟨_, peer, protocol, _, _, rfl⟩ := gatewayRule_eq_ok accepted
      simp only [List.all_cons, ih remaining]

/-- Positions count up from the first, the default last. -/
theorem sequences_gatewayRulesFrom {rest : List Rule} {i : Nat} {rules : List GatewayRule}
    (lowering : gatewayRulesFrom target policy name first i rest = .ok rules)
    (position : i + rest.length = policy.rules.length)
    : rules.map (·.sequence)
      = (List.range' i (rest.length + 1)).map (fun n => some (first + UInt32.ofNat n)) := by
  induction rest generalizing i rules with
  | nil =>
      obtain rfl := Except.ok.inj lowering
      simp [defaultRule, ← position]
  | cons rule rest ih =>
      obtain ⟨lowered, others, accepted, remaining, rfl⟩ := gatewayRulesFrom_cons lowering
      obtain ⟨_, peer, protocol, _, _, rfl⟩ := gatewayRule_eq_ok accepted
      have later := ih remaining (by simp at position; omega)
      rw [List.length_cons, List.range'_succ, List.map_cons, List.map_cons, later]

/-- Within the range of positions, sorting by position changes nothing. -/
theorem mergeSort_gatewayRules {rules : List GatewayRule}
    (lowering : gatewayRules target policy name first = .ok rules)
    (room : first.toNat + policy.rules.length < 2 ^ 32)
    : rules.mergeSort sequenceLe = rules := by
  have positions := sequences_gatewayRulesFrom lowering (by simp)
  apply List.mergeSort_of_pairwise
  have ascending : (rules.map (·.sequence)).Pairwise
      (fun left right => ∃ a b, left = some a ∧ right = some b ∧ a ≤ b) := by
    rw [positions, List.pairwise_map]
    apply (List.pairwise_lt_range' (s := 0) (n := policy.rules.length + 1)).imp_of_mem
    intro m n inside inside' less
    rw [List.mem_range'_1] at inside inside'
    refine ⟨_, _, rfl, rfl, ?_⟩
    rw [UInt32.le_iff_toNat_le, UInt32.toNat_add, UInt32.toNat_add, UInt32.toNat_ofNat',
      UInt32.toNat_ofNat']
    omega
  rw [List.pairwise_map] at ascending
  apply ascending.imp
  rintro left right ⟨a, b, low, high, le⟩
  simpa [sequenceLe, low, high] using le

/-- The appliance's verdict on the lowered rules is the policy's own, and some rule always
applies.
-/
theorem applianceVerdict_gatewayRules {rules : List GatewayRule} {addr : UInt32}
    (lowering : gatewayRules target policy name first = .ok rules)
    (room : first.toNat + policy.rules.length < 2 ^ 32)
    (resolves : addrOk target addr = some true) (packet : Packet)
    : applianceVerdict rules policy.direction addr packet = some (evaluate policy packet)
      ∧ ∃ rule ∈ rules, applies packet (packetEnds policy.direction addr packet.peer).1
          (packetEnds policy.direction addr packet.peer).2 rule = some true := by
  constructor
  · rw [applianceVerdict, evaluate, Policy.isStateful, all_stateful_gatewayRulesFrom lowering]
    split
    case isTrue => rfl
    case isFalse =>
      rw [mergeSort_gatewayRules lowering room]
      exact firstApplied_gatewayRulesFrom lowering resolves packet
  · exact ⟨_, defaultRule_mem lowering, applies_defaultRule resolves packet⟩

end

/-- A web policy of three rules on `10.200.0.5`, lowered from position 100. -/
def perimeterPolicy : Policy := {
  direction := .ingress
  default := .deny
  rules := [
    { Rule.new .allow .any (.cidr ⟨⟨0x0A000000, 8⟩, by decide, by decide⟩) with
      ports := some ⟨8000, 8080⟩ },
    { Rule.new .deny .tcp (.cidr ⟨⟨0x01020304, 32⟩, by decide, by decide⟩) with
      ports := some (.one 443), stateful := false },
    { Rule.new .allow .tcp .any with ports := some (.one 443) }
  ]
}

def perimeterPacket : Packet := {
  proto := .tcp
  dport := some 443
  icmpType := none
  peer := 0x01020304
  peerNamespace := none
  peerLabels := []
  new := false
}

theorem applianceVerdict_perimeterPolicy
    : ∃ rules, gatewayRules "10.200.0.5" perimeterPolicy "web" 100 = .ok rules
      ∧ applianceVerdict rules .ingress 0x0AC80005 perimeterPacket = some .deny := by
  obtain ⟨rules, lowering⟩
      : ∃ rules, gatewayRules "10.200.0.5" perimeterPolicy "web" 100 = .ok rules := ⟨_, rfl⟩
  have resolves : addrOk "10.200.0.5" 0x0AC80005 = some true := by decide +kernel
  have denied : evaluate perimeterPolicy perimeterPacket = .deny := by decide
  have verdict := applianceVerdict_gatewayRules lowering (by decide) resolves perimeterPacket
  rw [denied] at verdict
  exact ⟨rules, lowering, verdict.1⟩

end Delonix.Firewall
