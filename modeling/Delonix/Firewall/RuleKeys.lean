import Delonix.Firewall.RuleTail

/-! Finding a rule's counters. The line of a rule is printed from the policy, and its key from
the record, so the two agree where the record spells its peer, its port and its ICMP type the
way the policy prints them, and nowhere else.
-/

namespace Delonix.Firewall

open Delonix.Library.Text
open Delonix.Library.Words
open Delonix.Library.DebugText
open Delonix.Library.Checks
open Delonix.Net

-----------------------------------------------------------------------------------------
-- Spellings
-----------------------------------------------------------------------------------------

/-- A peer as the policy prints it, with or without the length of a single address. -/
def SpelledSrc (src : String) : Prop :=
  src = "" ∨ src = "*" ∨ src = "0.0.0.0/0" ∨ (∃ addr, src = Cidr.fmtU32 addr)
    ∨ ∃ net : Prefix, src = net.val.toStringCidr

def SpelledPort (port : String) : Prop :=
  port = "" ∨ port = "*" ∨ ∃ range, port = portText range

def SpelledType (icmpType : String) : Prop :=
  icmpType = "" ∨ ∃ type : UInt8, icmpType = toString type.toNat

/-- A rule whose record has no second spelling of what the policy holds: no host bits behind a
prefix, no zero in front of a number, no range of one port.
-/
structure Spelled (r : FwRule) : Prop where
  src : SpelledSrc r.src
  port : SpelledPort r.port
  icmpType : SpelledType r.icmpType

-----------------------------------------------------------------------------------------
-- Peers
-----------------------------------------------------------------------------------------

theorem withoutHostLen_fmtU32 (addr : UInt32)
    : withoutHostLen (Cidr.fmtU32 addr) = Cidr.fmtU32 addr := by
  have kept : stripSuffix "/32".toList (Cidr.fmtU32 addr).toList = none := by
    rw [stripSuffix, if_neg]
    intro suffix
    obtain ⟨front, same⟩ := List.isSuffixOf_iff_suffix.mp suffix
    have slash : '/' ∈ dotted (toBeBytes addr) := by
      rw [← String.toList_ofList (l := dotted (toBeBytes addr)), ← Cidr.fmtU32, ← same]
      simp
    exact slash_not_mem_dotted _ slash
  rw [withoutHostLen, kept]

theorem withoutHostLen_toStringCidr (net : Cidr)
    : withoutHostLen net.toStringCidr = addressText net := by
  unfold withoutHostLen addressText
  cases stripSuffix "/32".toList net.toStringCidr.toList <;> rfl

theorem addressText_hostPrefix (base : UInt32)
    : addressText (hostPrefix base).val = Cidr.fmtU32 base := by
  rw [addressText_eq]
  exact if_pos rfl

/-- The text a peer was written with, when it is a prefix. -/
theorem peerOf_eq_cidr {unprintable : Char → Bool} {src : String} {net : Prefix}
    (parsed : peerOf unprintable src = .ok (.cidr net))
    : ('/' ∈ src.toList ∧ Cidr.parse src = some net.val)
      ∨ ('/' ∉ src.toList ∧ ∃ base, Cidr.parseAddr src = some base ∧ net = hostPrefix base) := by
  rw [peerOf] at parsed
  split at parsed
  case isTrue => cases parsed
  case isFalse =>
    split at parsed
    case isTrue => cases parsed
    case isFalse =>
      split at parsed
      case isTrue slash =>
        refine .inl ⟨List.contains_iff_mem.mp slash, ?_⟩
        dsimp only at parsed
        split at parsed
        case h_1 found held =>
          obtain rfl := Peer.cidr.inj (Except.ok.inj parsed)
          have read := (Option.filter_eq_some_iff.mp held).1
          rw [parsePrefix] at read
          split at read
          case h_1 cidr same =>
            rw [same, ← Option.some.inj read]
          case h_2 => cases read
        case h_2 => cases parsed
      case isFalse slash =>
        refine .inr ⟨mt List.contains_iff_mem.mpr slash, ?_⟩
        split at parsed
        case h_1 base read => exact ⟨base, read, (Peer.cidr.inj (Except.ok.inj parsed)).symm⟩
        case h_2 => cases parsed

/-- Nothing stands behind the length of a prefix that may be interpolated. -/
theorem fwSrcOk_ne_lengthTwice {net : Cidr} {src : String} (safe : fwSrcOk src = true)
    (several : src.toList = net.toStringCidr.toList ++ "/32".toList)
    : False := by
  have cut : splitOnce '/' src.toList
      = some (dotted (toBeBytes net.base), decimal net.len ++ "/32".toList) := by
    rw [several, Cidr.toList_toStringCidr, List.append_assoc, List.cons_append]
    exact splitOnce_append _ (slash_not_mem_dotted _)
  have longer (other : String) (short : splitOnce '/' other.toList = none
      ∨ splitOnce '/' other.toList = some (dotted [0, 0, 0, 0], decimal 0)) : src ≠ other := by
    rintro rfl
    rw [cut] at short
    have slash : '/' ∈ decimal 0 := by
      rcases short with nowhere | once
      · cases nowhere
      · rw [← (Prod.mk.inj (Option.some.inj once)).2]
        simp
    exact slash_not_mem_decimal 0 slash
  rw [fwSrcOk, if_neg (by
    rintro (empty | star | any)
    · exact longer "" (.inl rfl) empty
    · exact longer "*" (.inl rfl) star
    · exact longer "0.0.0.0/0" (.inr (by decide)) any)] at safe
  split at safe
  case isTrue => cases safe
  case isFalse =>
    rw [cut] at safe
    obtain ⟨mask, _⟩ := Bool.and_eq_true_iff.mp safe
    obtain ⟨n, parsed, _⟩ := (Option.any_eq_true _ _).mp mask
    have slash : '/' ∈ decimal net.len ++ "/32".toList := by simp
    rcases digit_of_parseUnsigned parsed slash with sign | digit
    · exact absurd sign (by decide)
    · exact absurd digit (by decide)

/-- The words of a rule's peer in its key. -/
def tailPeerWords (r : FwRule) (direction : Direction) : List String :=
  if r.hasPeer then ["ip", (addressFields direction).2, withoutHostLen r.src] else []

theorem hasPeer_eq_false_iff (r : FwRule)
    : r.hasPeer = false ↔ r.src = "" ∨ r.src = "*" ∨ r.src = "0.0.0.0/0" := by
  rw [← Bool.not_eq_true]
  simp only [FwRule.hasPeer, Bool.and_eq_true, decide_eq_true_eq]
  tauto

theorem hasPeer_of_cidr {unprintable : Char → Bool} {r : FwRule} {net : Prefix}
    (parsed : peerOf unprintable r.src = .ok (.cidr net))
    : r.hasPeer = true := by
  by_contra other
  rw [peerOf, if_pos ((hasPeer_eq_false_iff r).mp (by simpa using other))] at parsed
  cases parsed

/-- The key holds the policy's spelling of a prefix when the record does. -/
theorem withoutHostLen_eq_iff {unprintable : Char → Bool} {r : FwRule} {net : Prefix}
    (safe : fwSrcOk r.src = true) (parsed : peerOf unprintable r.src = .ok (.cidr net))
    : withoutHostLen r.src = addressText net.val ↔ SpelledSrc r.src := by
  constructor
  · intro same
    rw [withoutHostLen] at same
    split at same
    case h_1 address cut =>
      have whole := stripSuffix_eq_some.mp cut
      have front : address = (addressText net.val).toList := by
        rw [← same, String.toList_ofList]
      rw [addressText_eq] at front
      split at front
      case isTrue single =>
        refine .inr (.inr (.inr (.inr ⟨net, ?_⟩)))
        rw [← String.toList_inj, whole, front, Cidr.toList_toStringCidr, single, Cidr.fmtU32,
          String.toList_ofList]
        rfl
      case isFalse =>
        rw [front] at whole
        exact (fwSrcOk_ne_lengthTwice safe whole).elim
    case h_2 =>
      rw [addressText_eq] at same
      split at same
      case isTrue => exact .inr (.inr (.inr (.inl ⟨net.val.base, same⟩)))
      case isFalse => exact .inr (.inr (.inr (.inr ⟨net, same⟩)))
  · rintro (empty | star | all | ⟨addr, spelled⟩ | ⟨other, spelled⟩)
    · exact absurd (hasPeer_of_cidr parsed) (by simp [FwRule.hasPeer, empty])
    · exact absurd (hasPeer_of_cidr parsed) (by simp [FwRule.hasPeer, star])
    · exact absurd (hasPeer_of_cidr parsed) (by simp [FwRule.hasPeer, all])
    · have plain : '/' ∉ r.src.toList := by
        rw [spelled, Cidr.fmtU32, String.toList_ofList]
        exact slash_not_mem_dotted _
      rcases peerOf_eq_cidr parsed with ⟨slash, _⟩ | ⟨_, base, read, rfl⟩
      · exact absurd slash plain
      · rw [spelled, Cidr.parseAddr_fmtU32] at read
        obtain rfl := Option.some.inj read
        rw [spelled, withoutHostLen_fmtU32, addressText_hostPrefix]
    · have slash : '/' ∈ r.src.toList := by simp [spelled, Cidr.toList_toStringCidr]
      rcases peerOf_eq_cidr parsed with ⟨_, read⟩ | ⟨plain, _⟩
      · rw [spelled, Cidr.parse_toStringCidr other.property] at read
        rw [spelled, withoutHostLen_toStringCidr, Option.some.inj read]
      · exact absurd slash plain

theorem tailPeerWords_eq_iff {unprintable : Char → Bool} {r : FwRule} {peer : Peer}
    (safe : fwSrcOk r.src = true) (parsed : peerOf unprintable r.src = .ok peer)
    (direction : Direction)
    : (tailPeerWords r direction).length = (peerWords direction peer).length
      ∧ (tailPeerWords r direction = peerWords direction peer ↔ SpelledSrc r.src) := by
  rcases peerOf_eq_ok parsed with rfl | ⟨net, rfl⟩
  · have anyone : r.hasPeer = false := by
      rw [hasPeer_eq_false_iff]
      by_contra other
      rw [peerOf, if_neg other] at parsed
      split at parsed
      case isTrue => cases parsed
      case isFalse =>
        split at parsed
        case isTrue =>
          dsimp only at parsed
          split at parsed <;> cases parsed
        case isFalse => split at parsed <;> cases parsed
    have spelled : SpelledSrc r.src := by
      rcases (hasPeer_eq_false_iff r).mp anyone with empty | star | all
      · exact .inl empty
      · exact .inr (.inl star)
      · exact .inr (.inr (.inl all))
    simp [tailPeerWords, anyone, peerWords, spelled]
  · rw [← withoutHostLen_eq_iff safe parsed]
    simp [tailPeerWords, hasPeer_of_cidr parsed, peerWords]

-----------------------------------------------------------------------------------------
-- Protocols
-----------------------------------------------------------------------------------------

/-- The words of a rule's protocol, port and ICMP type in its key. -/
def tailProtoWords (r : FwRule) : List String :=
  if r.proto = "icmp" then
    ["meta", "l4proto", "icmp"] ++ if r.icmpType ≠ "" then ["icmp", "type", r.icmpType] else []
  else if r.proto ≠ "" ∧ r.proto ≠ "any" then
    r.proto :: if r.hasPort then ["dport", r.port] else []
  else if r.hasPort then
    ["meta", "l4proto", "\x7b", "tcp,", "udp", "\x7d", "th", "dport", r.port]
  else []

theorem portRange_portText {range : PortRange} {found : PortRange}
    (read : portRange (portText range) = some found)
    : found = range := by
  have filtered (port : UInt16) : portOf (decimal port.toNat) = (some port).filter (1 ≤ ·) := by
    rw [portOf, parseU16_decimal]
  rw [portRange] at read
  by_cases single : range.first = range.last
  · have text : (portText range).toList = decimal range.first.toNat := by
      rw [portText, if_pos single, toList_toString]
    rw [text, splitOnce_eq_none (not_mem_decimal (by decide)), filtered] at read
    obtain ⟨port, held, rfl⟩ := Option.map_eq_some_iff.mp read
    obtain rfl := Option.some.inj (Option.filter_eq_some_iff.mp held).1
    rw [PortRange.one]
    cases range
    simp_all
  · rw [splitOnce_portText single] at read
    simp only [filtered, Option.bind_eq_bind, Option.bind_eq_some_iff] at read
    obtain ⟨first, heldFirst, last, heldLast, read⟩ := read
    obtain rfl := Option.some.inj (Option.filter_eq_some_iff.mp heldFirst).1
    obtain rfl := Option.some.inj (Option.filter_eq_some_iff.mp heldLast).1
    split at read
    case isTrue => exact (Option.some.inj read).symm
    case isFalse => cases read

theorem portsOf_eq_none {unprintable : Char → Bool} {r : FwRule}
    (parsed : portsOf unprintable r.port = .ok none)
    : r.hasPort = false ∧ SpelledPort r.port := by
  rw [portsOf] at parsed
  split at parsed
  case isTrue absent =>
    constructor
    · rcases absent with empty | star
      · simp [FwRule.hasPort, empty]
      · simp [FwRule.hasPort, star]
    · rcases absent with empty | star
      · exact .inl empty
      · exact .inr (.inl star)
  case isFalse => split at parsed <;> cases parsed

theorem portsOf_eq_some {unprintable : Char → Bool} {r : FwRule} {range : PortRange}
    (parsed : portsOf unprintable r.port = .ok (some range))
    : r.hasPort = true ∧ (r.port = portText range ↔ SpelledPort r.port) := by
  rw [portsOf] at parsed
  split at parsed
  case isTrue => cases parsed
  case isFalse present =>
    obtain ⟨nonempty, notStar⟩ := not_or.mp present
    split at parsed
    case h_2 => cases parsed
    case h_1 found read =>
      obtain rfl := Option.some.inj (Except.ok.inj parsed)
      refine ⟨by simp [FwRule.hasPort, nonempty, notStar], fun same => .inr (.inr ⟨_, same⟩), ?_⟩
      rintro (empty | star | ⟨range, spelled⟩)
      · contradiction
      · contradiction
      · rw [spelled] at read
        rw [spelled, portRange_portText read]

theorem icmpTypeOf_eq_none {unprintable : Char → Bool} {proto : Proto} {text : String}
    (parsed : icmpTypeOf unprintable proto text = .ok none)
    : text = "" := by
  rw [icmpTypeOf] at parsed
  split at parsed
  case isTrue empty => exact empty
  case isFalse =>
    split at parsed
    case isTrue => cases parsed
    case isFalse => split at parsed <;> cases parsed

theorem icmpTypeOf_eq_some {unprintable : Char → Bool} {proto : Proto} {text : String}
    {type : UInt8} (parsed : icmpTypeOf unprintable proto text = .ok (some type))
    : text ≠ "" ∧ (text = toString type.toNat ↔ SpelledType text) := by
  rw [icmpTypeOf] at parsed
  split at parsed
  case isTrue => cases parsed
  case isFalse nonempty =>
    split at parsed
    case isTrue => cases parsed
    case isFalse =>
      split at parsed
      case h_2 => cases parsed
      case h_1 value read =>
        obtain rfl := Option.some.inj (Except.ok.inj parsed)
        refine ⟨nonempty, fun same => .inr ⟨_, same⟩, ?_⟩
        rintro (empty | ⟨type, spelled⟩)
        · contradiction
        · rw [spelled, toList_toString, parseU8,
            parseUnsigned_decimal (by have := type.toNat_lt; omega)] at read
          obtain rfl := Option.some.inj read
          rw [spelled, UInt8.ofNat_toNat]

/-- The parts of a rule that comes from a record. -/
theorem ruleOf_eq_ok {unprintable : Char → Bool} {r : FwRule} {rule : Rule}
    (parsed : ruleOf unprintable r = .ok rule)
    : actionOf unprintable r.action = .ok rule.action
      ∧ protoOf unprintable r.proto = .ok rule.proto
      ∧ portsOf unprintable r.port = .ok rule.ports
      ∧ icmpTypeOf unprintable rule.proto r.icmpType = .ok rule.icmpType
      ∧ peerOf unprintable r.src = .ok rule.peer ∧ rule.log = r.log := by
  obtain ⟨action, acting, parsed⟩ := bind_eq_ok.mp parsed
  obtain ⟨proto, spoken, parsed⟩ := bind_eq_ok.mp parsed
  obtain ⟨ports, ported, parsed⟩ := bind_eq_ok.mp parsed
  split at parsed
  case isTrue => contradiction
  case isFalse =>
    obtain ⟨icmpType, typed, parsed⟩ := bind_eq_ok.mp parsed
    obtain ⟨peer, addressed, parsed⟩ := bind_eq_ok.mp parsed
    obtain rfl := Except.ok.inj parsed
    exact ⟨acting, spoken, ported, typed, addressed, rfl⟩

theorem protoOf_eq_ok {unprintable : Char → Bool} {text : String} {proto : Proto}
    (parsed : protoOf unprintable text = .ok proto)
    : ((text = "" ∨ text = "any") ∧ proto = .any) ∨ (text = "tcp" ∧ proto = .tcp)
      ∨ (text = "udp" ∧ proto = .udp) ∨ (text = "icmp" ∧ proto = .icmp) := by
  rw [protoOf.eq_def] at parsed
  split at parsed
  case h_1 => exact .inl ⟨.inl rfl, (Except.ok.inj parsed).symm⟩
  case h_2 => exact .inl ⟨.inr rfl, (Except.ok.inj parsed).symm⟩
  case h_3 => exact .inr (.inl ⟨rfl, (Except.ok.inj parsed).symm⟩)
  case h_4 => exact .inr (.inr (.inl ⟨rfl, (Except.ok.inj parsed).symm⟩))
  case h_5 => exact .inr (.inr (.inr ⟨rfl, (Except.ok.inj parsed).symm⟩))
  case h_6 => cases parsed

/-- The protocol, port and type of the key are the policy's when the record spells them so. -/
theorem tailProtoWords_eq_iff {unprintable : Char → Bool} {r : FwRule} {rule : Rule}
    (parsed : ruleOf unprintable r = .ok rule)
    : tailProtoWords r = protoWords rule ↔ SpelledPort r.port ∧ SpelledType r.icmpType := by
  have isUser := ruleOf_isUserRule parsed
  obtain ⟨_, spoken, ported, typed, _, _⟩ := ruleOf_eq_ok parsed
  have untyped (other : rule.proto ≠ .icmp) : r.icmpType = "" := by
    rw [isUser.typed other] at typed
    exact icmpTypeOf_eq_none typed
  rcases protoOf_eq_ok spoken with ⟨any, is⟩ | ⟨tcp, is⟩ | ⟨udp, is⟩ | ⟨icmp, is⟩
  · have empty := untyped (by simp [is])
    have notIcmp : r.proto ≠ "icmp" := by rcases any with none | any <;> simp_all
    have notOther : ¬ (r.proto ≠ "" ∧ r.proto ≠ "any") := by tauto
    rw [tailProtoWords, if_neg notIcmp, if_neg notOther]
    cases ports : rule.ports with
    | none =>
        rw [ports] at ported
        obtain ⟨absent, spelled⟩ := portsOf_eq_none ported
        simp [absent, protoWords, is, ports, spelled, SpelledType, empty]
    | some range =>
        rw [ports] at ported
        obtain ⟨present, spelled⟩ := portsOf_eq_some ported
        simp [present, protoWords, is, ports, spelled, SpelledType, empty]
  · have empty := untyped (by simp [is])
    cases ports : rule.ports with
    | none =>
        rw [ports] at ported
        obtain ⟨absent, spelled⟩ := portsOf_eq_none ported
        simp [tailProtoWords, tcp, absent, protoWords, is, ports, spelled, SpelledType, empty]
    | some range =>
        rw [ports] at ported
        obtain ⟨present, spelled⟩ := portsOf_eq_some ported
        simp [tailProtoWords, tcp, present, protoWords, is, ports, spelled, SpelledType, empty]
  · have empty := untyped (by simp [is])
    cases ports : rule.ports with
    | none =>
        rw [ports] at ported
        obtain ⟨absent, spelled⟩ := portsOf_eq_none ported
        simp [tailProtoWords, udp, absent, protoWords, is, ports, spelled, SpelledType, empty]
    | some range =>
        rw [ports] at ported
        obtain ⟨present, spelled⟩ := portsOf_eq_some ported
        simp [tailProtoWords, udp, present, protoWords, is, ports, spelled, SpelledType, empty]
  · rw [isUser.portless is] at ported
    obtain ⟨_, spelled⟩ := portsOf_eq_none ported
    cases types : rule.icmpType with
    | none =>
        rw [types] at typed
        have empty := icmpTypeOf_eq_none typed
        simp [tailProtoWords, icmp, protoWords, is, types, spelled, SpelledType, empty]
    | some type =>
        rw [types] at typed
        obtain ⟨present, named⟩ := icmpTypeOf_eq_some typed
        rw [and_iff_right spelled, ← named]
        simp [tailProtoWords, icmp, present, protoWords, is, types]

-----------------------------------------------------------------------------------------
-- Keys
-----------------------------------------------------------------------------------------

def directionOf (r : FwRule) : Direction := if r.dir = "out" then .egress else .ingress

theorem toList_tailPeer (r : FwRule)
    : (tailPeer r).toList = spaced (texts (tailPeerWords r (directionOf r))) := by
  by_cases out : r.dir = "out"
  · cases peer : r.hasPeer <;>
      simp [tailPeer, tailPeerWords, directionOf, out, peer, addressFields, texts, spaced]
  · cases peer : r.hasPeer <;>
      simp [tailPeer, tailPeerWords, directionOf, out, peer, addressFields, texts, spaced]

theorem toList_tailProto (r : FwRule)
    : (tailProto r).toList = spaced (texts (tailProtoWords r)) := by
  by_cases icmp : r.proto = "icmp"
  · by_cases typed : r.icmpType = "" <;>
      simp [tailProto, tailProtoWords, icmp, typed, texts, spaced]
  · by_cases carrier : r.proto ≠ "" ∧ r.proto ≠ "any"
    · cases ported : r.hasPort <;>
        simp [tailProto, tailProtoWords, icmp, carrier, ported, texts, spaced]
    · cases ported : r.hasPort <;>
        simp [tailProto, tailProtoWords, icmp, carrier, ported, texts, spaced]

/-- The characters of addresses, ports and types: the digits and what stands before them. -/
def Numeric (s : List Char) : Prop := ∀ c ∈ s, 43 ≤ c.toNat ∧ c.toNat ≤ 57

theorem Numeric.isWord {s : List Char} (numeric : Numeric s) (nonempty : s ≠ []) : IsWord s where
  nonempty := nonempty
  visible c member := by
    have range := numeric c member
    exact isWhitespace_eq_false_of_range (by omega) (by omega)

theorem numeric_of_parseUnsigned {max value : Nat} {s : List Char}
    (parsed : parseUnsigned 10 max s = some value)
    : Numeric s := by
  intro c member
  rcases digit_of_parseUnsigned parsed member with rfl | digit
  · decide
  · simp only [digitValue] at digit
    by_cases low : 48 ≤ c.toNat ∧ c.toNat ≤ 57
    · omega
    · rw [if_neg (by simpa using low)] at digit
      split at digit
      case isTrue letter =>
        simp only [Bool.and_eq_true, decide_eq_true_eq] at letter
        rw [Option.filter_some, if_neg (by simp; omega)] at digit
        cases digit
      case isFalse =>
        split at digit
        case isTrue letter =>
          simp only [Bool.and_eq_true, decide_eq_true_eq] at letter
          rw [Option.filter_some, if_neg (by simp; omega)] at digit
          cases digit
        case isFalse => cases digit

theorem numeric_of_portNumberOk {s : List Char} (ok : portNumberOk s = true) : Numeric s := by
  rw [portNumberOk] at ok
  split at ok
  case h_1 read => exact numeric_of_parseUnsigned read
  case h_2 => cases ok

theorem numeric_of_fwPortOk {r : FwRule} (ok : fwPortOk r.port = true) (ported : r.hasPort = true)
    : Numeric r.port.toList := by
  simp only [FwRule.hasPort, Bool.and_eq_true, decide_eq_true_eq] at ported
  rw [fwPortOk, if_neg (by tauto)] at ok
  split at ok
  case h_1 a b cut =>
    obtain ⟨low, high⟩ := Bool.and_eq_true_iff.mp ok
    rw [(splitOnce_eq_some cut).1]
    intro c member
    rcases List.mem_append.mp member with front | back
    · exact numeric_of_portNumberOk low c front
    · rcases List.mem_cons.mp back with rfl | later
      · decide
      · exact numeric_of_portNumberOk high c later
  case h_2 => exact numeric_of_portNumberOk ok

theorem numeric_of_fwSrcOk {r : FwRule} (ok : fwSrcOk r.src = true) (peer : r.hasPeer = true)
    : Numeric r.src.toList := by
  simp only [FwRule.hasPeer, Bool.and_eq_true, decide_eq_true_eq] at peer
  rw [fwSrcOk, if_neg (by tauto)] at ok
  split at ok
  case isTrue => cases ok
  case isFalse safe =>
    simp only [Bool.or_eq_true, Bool.not_eq_true', not_or, Bool.not_eq_false,
      List.all_eq_true] at safe
    intro c member
    have char := safe.2 c member
    simp only [isSrcByte, Bool.or_eq_true, beq_iff_eq] at char
    rcases char with (digit | rfl) | rfl
    · have zero : '0'.toNat = 48 := rfl
      have nine : '9'.toNat = 57 := rfl
      have range := Char.isDigit_iff_toNat.mp digit
      omega
    · decide
    · decide

/-- An address without a length has characters left: an empty one is no address. -/
theorem withoutHostLen_ne_nil {r : FwRule} (ok : fwSrcOk r.src = true) (peer : r.hasPeer = true)
    : (withoutHostLen r.src).toList ≠ [] := by
  simp only [FwRule.hasPeer, Bool.and_eq_true, decide_eq_true_eq] at peer
  rw [withoutHostLen]
  split
  case h_1 address cut =>
    rw [String.toList_ofList]
    rintro rfl
    have only : r.src = "/32" := by
      rw [← String.toList_inj]
      exact stripSuffix_eq_some.mp cut
    rw [only] at ok
    exact absurd ok (by decide +kernel)
  case h_2 => simpa using peer.1.1

theorem numeric_withoutHostLen {r : FwRule} (ok : fwSrcOk r.src = true)
    (peer : r.hasPeer = true)
    : Numeric (withoutHostLen r.src).toList := by
  have numeric := numeric_of_fwSrcOk ok peer
  rw [withoutHostLen]
  split
  case h_1 address cut =>
    intro c member
    rw [String.toList_ofList] at member
    apply numeric c
    rw [stripSuffix_eq_some.mp cut]
    exact List.mem_append_left _ member
  case h_2 => exact numeric

/-- The words of a key are words: its fields have no blank in them. -/
theorem isWord_tailWords {r : FwRule} (safe : r.nftSafe = true)
    : ∀ word ∈ texts (tailPeerWords r (directionOf r) ++ tailProtoWords r), IsWord word := by
  simp only [FwRule.nftSafe, Bool.and_eq_true] at safe
  obtain ⟨⟨⟨proto, port⟩, src⟩, icmpType⟩ := safe
  have peered : ∀ word ∈ texts (tailPeerWords r (directionOf r)), IsWord word := by
    rw [tailPeerWords]
    split
    case isTrue peer =>
      have address := (numeric_withoutHostLen src peer).isWord (withoutHostLen_ne_nil src peer)
      simp only [texts, List.map_cons, List.map_nil, List.forall_mem_cons, List.not_mem_nil,
        false_implies, implies_true, address, and_true]
      cases directionOf r <;> decide
    case isFalse => simp [texts]
  have number (ported : r.hasPort = true) : IsWord r.port.toList := by
    apply (numeric_of_fwPortOk port ported).isWord
    simp only [FwRule.hasPort, Bool.and_eq_true, decide_eq_true_eq] at ported
    simpa using ported.1
  have type (typed : r.icmpType ≠ "") : IsWord r.icmpType.toList := by
    simp only [fwIcmpTypeOk, typed, decide_false, Bool.false_or,
      Option.isSome_iff_exists] at icmpType
    obtain ⟨value, read⟩ := icmpType
    exact (numeric_of_parseUnsigned read).isWord (by simpa using typed)
  have spoken : ∀ word ∈ texts (tailProtoWords r), IsWord word := by
    have carried : r.proto ≠ "" → IsWord r.proto.toList := by
      intro named
      simp only [fwProtoOk, List.mem_cons, List.not_mem_nil, or_false, decide_eq_true_eq]
        at proto
      rcases proto with is | is | is | is | is
      · contradiction
      all_goals
        rw [is]
        decide
    rw [tailProtoWords]
    split
    case isTrue =>
      split
      case isTrue typed =>
        simp only [texts, List.map_cons, List.map_nil, List.cons_append, List.nil_append,
          List.forall_mem_cons, List.not_mem_nil, false_implies, implies_true, type typed,
          and_true]
        decide
      case isFalse => decide
    case isFalse =>
      split
      case isTrue carrier =>
        split
        case isTrue ported =>
          simp only [texts, List.map_cons, List.map_nil, List.forall_mem_cons, List.not_mem_nil,
            false_implies, implies_true, carried carrier.1, number ported, and_true, true_and]
          decide
        case isFalse => simp [texts, carried carrier.1]
      case isFalse =>
        split
        case isTrue ported =>
          simp only [texts, List.map_cons, List.map_nil, List.forall_mem_cons, List.not_mem_nil,
            false_implies, implies_true, number ported, and_true]
          decide
        case isFalse => simp [texts]
  intro word member
  rw [texts, List.map_append] at member
  rcases List.mem_append.mp member with inPeer | inProto
  · exact peered word inPeer
  · exact spoken word inProto

-----------------------------------------------------------------------------------------
-- Lines
-----------------------------------------------------------------------------------------

/-- A line without a log: the words it matches with, then its verdict. -/
theorem toList_userLine {ip line : String} {direction : Direction} {rule : Rule}
    (written : userLine ip direction rule = .ok line) (plain : rule.log = false)
    : line.toList
      = "\t\t".toList ++ (spaced (texts (matchWords ip direction rule))
        ++ (verdictText rule.action).toList) ++ ['\n'] := by
  rw [userLine] at written
  split at written
  case isTrue => contradiction
  case isFalse =>
    obtain ⟨peer, peered, written⟩ := bind_eq_ok.mp written
    have shape : line = "" ++ ("\t\t" ++ ("ip " ++ (addressFields direction).1 ++ " " ++ ip
        ++ " " ++ peer ++ protoMatch rule) ++ verdictText rule.action ++ "\n") := by
      rw [plain] at written
      exact (Except.ok.inj written).symm
    simp only [shape, matchWords, texts, List.map_append, spaced_append, String.toList_append]
    rw [toList_peerMatch peered, toList_protoMatch]
    simp [anchorWords, texts, spaced]

theorem verdictText_actionOf {unprintable : Char → Bool} {text : String} {action : Action}
    (parsed : actionOf unprintable text = .ok action)
    : verdictText action = if text = "allow" then "counter accept" else "counter drop" := by
  rw [actionOf.eq_def] at parsed
  split at parsed
  case h_1 =>
    obtain rfl := Except.ok.inj parsed
    rfl
  case h_2 =>
    obtain rfl := Except.ok.inj parsed
    rfl
  case h_3 => cases parsed

/-- The text of a rule with its own address in front: what its counters are looked up by. -/
def counterKey (ip : String) (r : FwRule) (tail : String) : String :=
  "ip " ++ (addressFields (directionOf r)).1 ++ " " ++ ip ++ " " ++ tail

theorem spaced_inj {left right : List String} (words : ∀ word ∈ texts left, IsWord word)
    (others : ∀ word ∈ texts right, IsWord word) (same : spaced (texts left) = spaced (texts right))
    : left = right := by
  have read := splitWhitespace_spaced words []
  rw [same, splitWhitespace_spaced others [], List.append_left_inj] at read
  exact (List.map_injective_iff.mpr fun _ _ => String.toList_injective) read.symm

/-- The line of a rule is its key exactly when the record spells the rule as the policy does.
The words in front of the peer are the same, so the peers and the protocols are compared.
-/
theorem line_eq_key_iff {unprintable : Char → Bool} {own : UInt32} {r : FwRule} {rule : Rule}
    {line tail : String} (parsed : ruleOf unprintable r = .ok rule) (plain : r.log = false)
    (written : userLine (Cidr.fmtU32 own) (directionOf r) rule = .ok line)
    (tailed : fwRuleTail r = some tail)
    : line = "\t\t" ++ counterKey (Cidr.fmtU32 own) r tail ++ "\n" ↔ Spelled r := by
  obtain ⟨acting, _, _, _, addressed, logged⟩ := ruleOf_eq_ok parsed
  have shown := toList_userLine written (logged.trans plain)
  rw [fwRuleTail] at tailed
  split at tailed
  case isTrue => cases tailed
  case isFalse safe =>
    have safe : r.nftSafe = true := by simpa using safe
    obtain rfl := Option.some.inj tailed
    rw [← verdictText_actionOf acting]
    have key : ("\t\t" ++ counterKey (Cidr.fmtU32 own) r (tailPeer r ++ tailProto r
          ++ verdictText rule.action) ++ "\n").toList
        = "\t\t".toList ++ (spaced (texts (anchorWords (directionOf r) (Cidr.fmtU32 own)
            ++ (tailPeerWords r (directionOf r) ++ tailProtoWords r)))
          ++ (verdictText rule.action).toList) ++ ['\n'] := by
      simp only [counterKey, String.toList_append, toList_tailPeer, toList_tailProto, texts,
        List.map_append, spaced_append]
      simp [anchorWords, spaced]
    rw [← String.toList_inj, shown, key, List.append_left_inj, List.append_right_inj,
      List.append_left_inj]
    have srcOk : fwSrcOk r.src = true := by
      simp only [FwRule.nftSafe, Bool.and_eq_true] at safe
      exact safe.1.2
    obtain ⟨length, peers⟩ := tailPeerWords_eq_iff srcOk addressed (directionOf r)
    have protos := tailProtoWords_eq_iff parsed
    have lineWords := isWord_matchWords (isWord_fmtU32 own) (directionOf r) rule
    have keyWords : ∀ word ∈ texts (anchorWords (directionOf r) (Cidr.fmtU32 own)
        ++ (tailPeerWords r (directionOf r) ++ tailProtoWords r)), IsWord word := by
      intro word member
      rw [texts, List.map_append] at member
      rcases List.mem_append.mp member with anchor | behind
      · apply lineWords
        simp only [matchWords, texts, List.map_append, List.mem_append]
        exact .inl (.inl anchor)
      · exact isWord_tailWords safe word behind
    constructor
    · intro same
      have words := spaced_inj lineWords keyWords same
      rw [matchWords, List.append_assoc, List.append_right_inj] at words
      obtain ⟨peer, proto⟩ := List.append_inj words length.symm
      have spelled := protos.mp proto.symm
      exact {
        src := peers.mp peer.symm
        port := spelled.1
        icmpType := spelled.2
      }
    · intro spelled
      rw [peers.mpr spelled.src, protos.mpr ⟨spelled.port, spelled.icmpType⟩, matchWords,
        List.append_assoc]

end Delonix.Firewall
