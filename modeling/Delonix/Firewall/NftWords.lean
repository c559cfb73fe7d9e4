import Delonix.Firewall.GatewayVerdict
import Delonix.Firewall.Nft

/-! The lines of user rules: every line is read as the words it was written from, and its
words match the packets its rule matches.
-/

namespace Delonix.Firewall

open Delonix.Library.Text
open Delonix.Library.Words
open Delonix.Library.Checks
open Delonix.Net

-----------------------------------------------------------------------------------------
-- Rules of a record
-----------------------------------------------------------------------------------------

/-- What holds of every rule that comes from a record. -/
structure IsUserRule (rule : Rule) : Prop where
  unguarded : rule.guardrail = false
  stateful : rule.stateful = true
  typed : rule.proto ≠ .icmp → rule.icmpType = none
  portless : rule.proto = .icmp → rule.ports = none
  addressed : rule.peer = .any ∨ ∃ net, rule.peer = .cidr net

theorem peerOf_eq_ok {unprintable : Char → Bool} {src : String} {peer : Peer}
    (parsed : peerOf unprintable src = .ok peer)
    : peer = .any ∨ ∃ net, peer = .cidr net := by
  rw [peerOf] at parsed
  split at parsed
  case isTrue => exact .inl (Except.ok.inj parsed).symm
  case isFalse =>
    split at parsed
    case isTrue => cases parsed
    case isFalse =>
      split at parsed
      case isTrue =>
        dsimp only at parsed
        split at parsed
        case h_1 net _ => exact .inr ⟨net, (Except.ok.inj parsed).symm⟩
        case h_2 => cases parsed
      case isFalse =>
        split at parsed
        case h_1 base _ => exact .inr ⟨_, (Except.ok.inj parsed).symm⟩
        case h_2 => cases parsed

theorem icmpTypeOf_eq_ok {unprintable : Char → Bool} {proto : Proto} {text : String}
    {icmpType : Option UInt8} (parsed : icmpTypeOf unprintable proto text = .ok icmpType)
    (other : proto ≠ .icmp)
    : icmpType = none := by
  rw [icmpTypeOf] at parsed
  split at parsed
  case isTrue => exact (Except.ok.inj parsed).symm
  case isFalse => contradiction

theorem ruleOf_isUserRule {unprintable : Char → Bool} {r : FwRule} {rule : Rule}
    (parsed : ruleOf unprintable r = .ok rule)
    : IsUserRule rule := by
  obtain ⟨action, _, parsed⟩ := bind_eq_ok.mp parsed
  obtain ⟨proto, _, parsed⟩ := bind_eq_ok.mp parsed
  obtain ⟨ports, _, parsed⟩ := bind_eq_ok.mp parsed
  split at parsed
  case isTrue => contradiction
  case isFalse portless =>
    obtain ⟨icmpType, typed, parsed⟩ := bind_eq_ok.mp parsed
    obtain ⟨peer, addressed, parsed⟩ := bind_eq_ok.mp parsed
    obtain rfl := Except.ok.inj parsed
    exact {
      unguarded := rfl
      stateful := rfl
      typed := icmpTypeOf_eq_ok typed
      portless := fun icmp => by simpa [Rule.new] using fun some => portless ⟨icmp, some⟩
      addressed := peerOf_eq_ok addressed
    }

theorem rulesFrom_isUserRule {unprintable : Char → Bool} {i : Nat} {records : List FwRule}
    {ins outs : List Rule} (parsed : rulesFrom unprintable i records = .ok (ins, outs))
    : (∀ rule ∈ ins, IsUserRule rule) ∧ ∀ rule ∈ outs, IsUserRule rule := by
  induction records generalizing i ins outs with
  | nil =>
      obtain ⟨rfl, rfl⟩ := Prod.mk.inj (Except.ok.inj parsed)
      simp
  | cons r rest ih =>
      obtain ⟨rule, taken, parsed⟩ := bind_eq_ok.mp parsed
      have isUser : IsUserRule rule := by
        cases made : ruleOf unprintable r with
        | error why =>
            rw [made] at taken
            contradiction
        | ok rule' =>
            rw [made] at taken
            obtain rfl := Except.ok.inj taken
            exact ruleOf_isUserRule made
      split at parsed
      case isTrue =>
        obtain ⟨⟨ins', outs'⟩, later, same⟩ := bind_eq_ok.mp parsed
        obtain ⟨rfl, rfl⟩ := Prod.mk.inj (Except.ok.inj same)
        obtain ⟨insUser, outsUser⟩ := ih later
        exact ⟨List.forall_mem_cons.mpr ⟨isUser, insUser⟩, outsUser⟩
      case isFalse =>
        split at parsed
        case isTrue =>
          obtain ⟨⟨ins', outs'⟩, later, same⟩ := bind_eq_ok.mp parsed
          obtain ⟨rfl, rfl⟩ := Prod.mk.inj (Except.ok.inj same)
          obtain ⟨insUser, outsUser⟩ := ih later
          exact ⟨insUser, List.forall_mem_cons.mpr ⟨isUser, outsUser⟩⟩
        case isFalse => contradiction

-----------------------------------------------------------------------------------------
-- Lines as words
-----------------------------------------------------------------------------------------

def texts (words : List String) : List (List Char) := words.map String.toList

theorem ofList_texts (words : List String) : (texts words).map String.ofList = words := by
  simp [texts, Function.comp_def]

def anchorWords (direction : Direction) (ip : String) : List String :=
  ["ip", (addressFields direction).1, ip]

def peerWords (direction : Direction) : Peer → List String
  | .cidr net => ["ip", (addressFields direction).2, addressText net.val]
  | _ => []

def protoWords (rule : Rule) : List String :=
  match rule.proto, rule.ports with
  | .tcp, none => ["tcp"]
  | .tcp, some range => ["tcp", "dport", portText range]
  | .udp, none => ["udp"]
  | .udp, some range => ["udp", "dport", portText range]
  | .any, some range =>
      ["meta", "l4proto", "\x7b", "tcp,", "udp", "\x7d", "th", "dport", portText range]
  | .any, none => []
  | .icmp, _ =>
      match rule.icmpType with
      | some type => ["meta", "l4proto", "icmp", "icmp", "type", toString type.toNat]
      | none => ["meta", "l4proto", "icmp"]

/-- The words that a line of a rule matches with. -/
def matchWords (ip : String) (direction : Direction) (rule : Rule) : List String :=
  anchorWords direction ip ++ peerWords direction rule.peer ++ protoWords rule

theorem toList_peerMatch {direction : Direction} {peer : Peer} {text : String}
    (written : peerMatch (addressFields direction).2 peer = .ok text)
    : text.toList = spaced (texts (peerWords direction peer)) := by
  cases peer with
  | any =>
      obtain rfl := Except.ok.inj written
      rfl
  | cidr net =>
      obtain rfl := Except.ok.inj written
      simp [peerWords, texts, spaced]
  | namespaced | otherNamespaces | selector => contradiction

theorem toList_protoMatch (rule : Rule)
    : (protoMatch rule).toList = spaced (texts (protoWords rule)) := by
  cases spoken : rule.proto with
  | any =>
      cases ported : rule.ports <;> simp [protoMatch, protoWords, spoken, ported, texts, spaced]
  | tcp =>
      cases ported : rule.ports <;> simp [protoMatch, protoWords, spoken, ported, texts, spaced]
  | udp =>
      cases ported : rule.ports <;> simp [protoMatch, protoWords, spoken, ported, texts, spaced]
  | icmp =>
      cases typed : rule.icmpType <;> simp [protoMatch, protoWords, spoken, typed, texts, spaced]

theorem isWord_toString (n : Nat) : IsWord (toString n).toList := by
  rw [toList_toString]
  exact isWord_decimal n

theorem isWord_fmtU32 (v : UInt32) : IsWord (Cidr.fmtU32 v).toList where
  nonempty := by
    intro empty
    have parsed := Cidr.parseAddr_fmtU32 v
    rw [Cidr.parseAddr, empty] at parsed
    contradiction
  visible c member := by
    rcases mem_dotted (by simpa [Cidr.fmtU32] using member) with rfl | digit
    · rfl
    · exact isWhitespace_eq_false_of_range (by omega) (by omega)

theorem isWord_addressText (net : Cidr) : IsWord (addressText net).toList := by
  rw [addressText_eq]
  split
  case isTrue => exact isWord_fmtU32 net.base
  case isFalse =>
    have length : ∀ c ∈ '/' :: decimal net.len, isWhitespace c = false := by
      intro c member
      rcases List.mem_cons.mp member with rfl | digit
      · rfl
      · exact (isWord_decimal net.len).visible c digit
    have text : net.toStringCidr.toList = (Cidr.fmtU32 net.base).toList ++ '/' :: decimal net.len := by
      rw [Cidr.toList_toStringCidr, Cidr.fmtU32, String.toList_ofList]
    rw [text]
    exact (isWord_fmtU32 net.base).append length

theorem isWord_portText (range : PortRange) : IsWord (portText range).toList := by
  rw [portText]
  split
  case isTrue => exact isWord_toString _
  case isFalse =>
    rw [String.toList_append, String.toList_append, List.append_assoc]
    apply (isWord_toString _).append
    intro c member
    rcases List.mem_append.mp member with dash | digit
    · obtain rfl : c = '-' := by simpa using dash
      rfl
    · exact (isWord_toString _).visible c digit

theorem isWord_protoWords (rule : Rule) : ∀ word ∈ texts (protoWords rule), IsWord word := by
  have range (range : PortRange) := isWord_portText range
  have number (n : Nat) := isWord_toString n
  rw [protoWords]
  split <;> try split
  all_goals
    simp only [texts, List.map_cons, List.map_nil, List.forall_mem_cons, List.not_mem_nil,
      false_implies, implies_true, range, number, and_true]
  all_goals decide

theorem isWord_matchWords {ip : String} (address : IsWord ip.toList) (direction : Direction)
    (rule : Rule)
    : ∀ word ∈ texts (matchWords ip direction rule), IsWord word := by
  have anchored : ∀ word ∈ texts (anchorWords direction ip), IsWord word := by
    simp only [texts, anchorWords, List.map_cons, List.map_nil, List.forall_mem_cons,
      List.not_mem_nil, false_implies, implies_true, address, and_true]
    cases direction <;> decide
  have peered : ∀ word ∈ texts (peerWords direction rule.peer), IsWord word := by
    cases rule.peer with
    | cidr net =>
        simp only [texts, peerWords, List.map_cons, List.map_nil, List.forall_mem_cons,
          List.not_mem_nil, false_implies, implies_true, isWord_addressText, and_true]
        cases direction <;> decide
    | any | namespaced | otherNamespaces | selector => simp [texts, peerWords]
  intro word member
  simp only [matchWords, texts, List.map_append, List.mem_append] at member
  rcases member with (inAnchor | inPeer) | inProto
  · exact anchored word inAnchor
  · exact peered word inPeer
  · exact isWord_protoWords rule word inProto

def verdictWords : Action → List String
  | .allow => ["counter", "accept"]
  | .deny => ["counter", "drop"]

def logWords : List String :=
  ["limit", "rate", "10/second", "counter", "log", "prefix", "\"dlx-fw", "\""]

theorem verdictText_words (action : Action)
    : '\n' ∉ (verdictText action).toList
      ∧ splitWhitespace (verdictText action).toList = texts (verdictWords action) := by
  cases action <;> decide

/-- A line that starts with words and ends in a text is read as the words and those of the
text.
-/
theorem wordsOfLines_line {line : String} {words tailWords : List String} {tail : List Char}
    (shape : line.toList = '\t' :: '\t' :: (spaced (texts words) ++ tail) ++ ['\n'])
    (all : ∀ word ∈ texts words, IsWord word) (single : '\n' ∉ tail)
    (read : splitWhitespace tail = texts tailWords) (rest : List Char)
    : wordsOfLines (line.toList ++ rest) = texts (words ++ tailWords) :: wordsOfLines rest := by
  rw [shape, List.append_assoc, List.singleton_append, wordsOfLines_indented all single, read]
  simp [texts]

/-- A user rule is written as its match and the words of its verdict, behind the match and the
words of its log.
-/
theorem wordsOfLines_userLine {ip : String} (address : IsWord ip.toList)
    {direction : Direction} {rule : Rule} {line : String}
    (written : userLine ip direction rule = .ok line) (rest : List Char)
    : wordsOfLines (line.toList ++ rest)
      = (if rule.log then [texts (matchWords ip direction rule ++ logWords)] else [])
        ++ texts (matchWords ip direction rule ++ verdictWords rule.action)
          :: wordsOfLines rest := by
  rw [userLine] at written
  split at written
  case isTrue => contradiction
  case isFalse =>
    obtain ⟨peer, peered, written⟩ := bind_eq_ok.mp written
    obtain rfl := Except.ok.inj written
    have all := isWord_matchWords address direction rule
    have matching : ("ip " ++ (addressFields direction).1 ++ " " ++ ip ++ " " ++ peer
          ++ protoMatch rule).toList
        = spaced (texts (matchWords ip direction rule)) := by
      rw [matchWords, texts, List.map_append, List.map_append, spaced_append, spaced_append,
        String.toList_append, String.toList_append, toList_peerMatch peered,
        toList_protoMatch]
      simp [anchorWords, texts, spaced]
    have shape (tail : String) : ("\t\t" ++ ("ip " ++ (addressFields direction).1 ++ " " ++ ip
          ++ " " ++ peer ++ protoMatch rule) ++ tail ++ "\n").toList
        = '\t' :: '\t' :: (spaced (texts (matchWords ip direction rule)) ++ tail.toList)
          ++ ['\n'] := by
      rw [String.toList_append, String.toList_append, String.toList_append, matching]
      simp
    have deciding := wordsOfLines_line (shape _) all (verdictText_words rule.action).1
      (verdictText_words rule.action).2 rest
    rw [String.toList_append, List.append_assoc]
    cases logged : rule.log with
    | false =>
        simp only [Bool.false_eq_true, if_false, String.toList_empty, List.nil_append]
        exact deciding
    | true =>
        have read : splitWhitespace
              "limit rate 10/second counter log prefix \"dlx-fw \"".toList
            = texts logWords := by decide
        have logging := wordsOfLines_line (shape _) all (by decide) read
        exact (logging _).trans (congrArg _ deciding)

-----------------------------------------------------------------------------------------
-- Words as matches
-----------------------------------------------------------------------------------------

def Reading.selfAddr (reading : Reading) : Direction → UInt32
  | .ingress => reading.dst
  | .egress => reading.src

def Reading.peerAddr (reading : Reading) : Direction → UInt32
  | .ingress => reading.src
  | .egress => reading.dst

section

variable (reading : Reading) (rest : List String) (state : LineState)

theorem fieldAddr_self (direction : Direction)
    : fieldAddr reading (addressFields direction).1 = some (reading.selfAddr direction) := by
  cases direction <;> rfl

theorem fieldAddr_peer (direction : Direction)
    : fieldAddr reading (addressFields direction).2 = some (reading.peerAddr direction) := by
  cases direction <;> rfl

alias readWords_eq := readWords.eq_def

theorem readWords_ip {field value : String} {addr : UInt32} {hit : Bool}
    (named : fieldAddr reading field = some addr)
    (matched : addrMatches reading value addr = some hit) (positive : value ≠ "!=")
    : readWords reading ("ip" :: field :: value :: rest) state
      = readWords reading rest (state.also hit) := by
  rw [readWords_eq]
  simp [named, matched, positive]

theorem readWords_ip_not {field value : String} {addr : UInt32} {hit : Bool}
    (named : fieldAddr reading field = some addr)
    (matched : addrMatches reading value addr = some hit)
    : readWords reading ("ip" :: field :: "!=" :: value :: rest) state
      = readWords reading rest (state.also !hit) := by
  rw [readWords_eq]
  simp [named, matched]

theorem readWords_ct {ct : String} {hit : Bool} (known : ctMatches reading ct = some hit)
    : readWords reading ("ct" :: "state" :: ct :: rest) state
      = readWords reading rest (state.also hit) := by
  rw [readWords_eq]
  simp [known]

theorem readWords_counter
    : readWords reading ("counter" :: rest) state = readWords reading rest state := by
  rw [readWords_eq]
  simp

theorem readWords_end : readWords reading [] state = some state := by
  rw [readWords_eq]

theorem readWords_verdict (action : Action)
    : readWords reading (verdictWords action) state
      = some { state with verdict := some action } := by
  cases action <;>
    · rw [verdictWords, readWords_counter, readWords_eq]
      simp [readWords_end]

theorem readWords_logWords
    : readWords reading logWords state = some (state.also reading.underLimit) := by
  have log (state : LineState)
      : readWords reading ["log", "prefix", "\"dlx-fw", "\""] state = some state := by
    rw [readWords_eq]
    simp [readWords_end]
  rw [logWords, readWords_eq]
  simp [readWords_counter, log]

/-- The statement that names a protocol with ports. -/
def IsCarrier (word : String) (proto : Proto) : Prop :=
  word = "tcp" ∧ proto = .tcp ∨ word = "udp" ∧ proto = .udp

theorem readWords_carrier {word : String} {proto : Proto} (carrier : IsCarrier word proto)
    (next : rest.head? ≠ some "dport")
    : readWords reading (word :: rest) state
      = readWords reading rest (state.also (reading.packet.proto == proto)) := by
  rw [readWords_eq]
  rcases carrier with ⟨rfl, rfl⟩ | ⟨rfl, rfl⟩ <;>
    · simp only [String.reduceEq, if_false, if_true, true_or, or_true]
      match rest with
      | [] => rfl
      | [_] => rfl
      | port :: _ :: _ =>
          have bare : port ≠ "dport" := by simpa using next
          simp only [bare, if_false]

theorem readWords_dport {word ports : String} {proto : Proto} {hit : Bool}
    (carrier : IsCarrier word proto)
    (known : portOk (some ports) reading.packet = some hit)
    : readWords reading (word :: "dport" :: ports :: rest) state
      = readWords reading rest (state.also (reading.packet.proto == proto && hit)) := by
  rw [readWords_eq]
  rcases carrier with ⟨rfl, rfl⟩ | ⟨rfl, rfl⟩ <;> simp [known]

theorem readWords_th {ports : String} {hit : Bool}
    (known : portOk (some ports) reading.packet = some hit)
    : readWords reading ("meta" :: "l4proto" :: "\x7b" :: "tcp," :: "udp" :: "\x7d" :: "th"
        :: "dport" :: ports :: rest) state
      = readWords reading rest (state.also
        ((reading.packet.proto == .tcp || reading.packet.proto == .udp) && hit)) := by
  rw [readWords_eq]
  simp [known]

theorem readWords_icmp
    : readWords reading ("meta" :: "l4proto" :: "icmp" :: rest) state
      = readWords reading rest (state.also (reading.packet.proto == .icmp)) := by
  rw [readWords_eq]
  simp

theorem readWords_icmpType {type : String} {wanted : Nat}
    (known : parseU8 type.toList = some wanted)
    : readWords reading ("icmp" :: "type" :: type :: rest) state
      = readWords reading rest
        (state.also (reading.packet.icmpType == some (UInt8.ofNat wanted))) := by
  rw [readWords_eq]
  simp [known]

theorem not_mem_fmtU32 {c : Char} (dot : c ≠ '.') (other : c.toNat < 48 ∨ 57 < c.toNat)
    (v : UInt32)
    : c ∉ (Cidr.fmtU32 v).toList := by
  intro member
  rcases mem_dotted (by simpa [Cidr.fmtU32] using member) with same | digit
  · exact dot same
  · omega

theorem not_mem_addressText {c : Char} (dot : c ≠ '.') (slash : c ≠ '/')
    (other : c.toNat < 48 ∨ 57 < c.toNat) (net : Cidr)
    : c ∉ (addressText net).toList := by
  have address := not_mem_fmtU32 dot other net.base
  rw [addressText_eq]
  split
  case isTrue => exact address
  case isFalse =>
    rw [Cidr.toList_toStringCidr]
    simp only [List.mem_append, List.mem_cons, not_or]
    exact ⟨by simpa [Cidr.fmtU32] using address, slash, not_mem_decimal other⟩

/-- A text that is no set and no negation is read as an address or a prefix. -/
theorem readWords_ip_plain {field value : String} {addr : UInt32} {hit : Bool}
    (named : fieldAddr reading field = some addr) (noSet : '@' ∉ value.toList)
    (noNegation : '!' ∉ value.toList) (read : plainAddr value addr = some hit)
    : readWords reading ("ip" :: field :: value :: rest) state
      = readWords reading rest (state.also hit) := by
  have plain : stripStart ['@'] value.toList = none := by
    rw [Option.eq_none_iff_forall_ne_some]
    intro set found
    rw [stripStart_eq_some] at found
    exact noSet (by simp [found])
  refine readWords_ip reading rest state named (by rw [addrMatches, plain, read]) ?_
  rintro rfl
  exact noNegation (by decide)

theorem readWords_anchor (direction : Direction) (own : UInt32)
    : readWords reading (anchorWords direction (Cidr.fmtU32 own) ++ rest) state
      = readWords reading rest (state.also (own == reading.selfAddr direction)) := by
  simp only [anchorWords, List.cons_append, List.nil_append]
  exact readWords_ip_plain reading rest state (fieldAddr_self reading direction)
    (not_mem_fmtU32 (by decide) (by decide) own) (not_mem_fmtU32 (by decide) (by decide) own)
    (plainAddr_fmtU32 own _)

/-- Whether an address is one a user rule's peer covers. -/
def covers (peer : Peer) (addr : UInt32) : Bool :=
  match peer with
  | .cidr net => net.val.contains addr
  | _ => true

theorem readWords_peer (direction : Direction) (peer : Peer)
    : readWords reading (peerWords direction peer ++ rest) state
      = readWords reading rest (state.also (covers peer (reading.peerAddr direction))) := by
  cases peer with
  | cidr net =>
      simp only [peerWords, List.cons_append, List.nil_append]
      exact readWords_ip_plain reading rest state (fieldAddr_peer reading direction)
        (not_mem_addressText (by decide) (by decide) (by decide) net.val)
        (not_mem_addressText (by decide) (by decide) (by decide) net.val)
        (plainAddr_addressText net _)
  | any | namespaced | otherNamespaces | selector =>
      simp [peerWords, covers, LineState.also]

theorem icmpMatches_of_untyped {rule : Rule} (untyped : rule.icmpType = none)
    (packet : Packet)
    : icmpMatches rule packet = true := by
  rw [icmpMatches, untyped]

theorem portsMatch_of_all {rule : Rule} (all : rule.ports = none) (packet : Packet)
    : portsMatch rule packet = true := by
  rw [portsMatch, all]

theorem portOk_of_ports {rule : Rule} {range : PortRange} (ported : rule.ports = some range)
    (packet : Packet)
    : portOk (some (portText range)) packet = some (portsMatch rule packet) := by
  have read := portOk_portText rule packet
  rwa [ported] at read

/-- What a rule's protocol, ports and ICMP type say of a packet. -/
theorem readWords_proto {rule : Rule} (isUser : IsUserRule rule)
    (next : rest.head? ≠ some "dport")
    : readWords reading (protoWords rule ++ rest) state
      = readWords reading rest (state.also (protoMatches rule reading.packet
        && portsMatch rule reading.packet && icmpMatches rule reading.packet)) := by
  cases spoken : rule.proto with
  | any =>
      have untyped := icmpMatches_of_untyped (isUser.typed (by simp [spoken])) reading.packet
      cases ported : rule.ports with
      | none =>
          simp [protoWords, protoMatches, spoken, ported, untyped,
            portsMatch_of_all ported, LineState.also]
      | some range =>
          simp only [protoWords, spoken, ported, List.cons_append, List.nil_append]
          rw [readWords_th _ _ _ (portOk_of_ports ported _)]
          simp [protoMatches, spoken, ported, untyped]
  | tcp =>
      have untyped := icmpMatches_of_untyped (isUser.typed (by simp [spoken])) reading.packet
      have carrier : IsCarrier "tcp" .tcp := .inl ⟨rfl, rfl⟩
      cases ported : rule.ports with
      | none =>
          simp only [protoWords, spoken, ported, List.cons_append, List.nil_append]
          rw [readWords_carrier _ _ _ carrier next]
          simp [protoMatches, spoken, untyped, portsMatch_of_all ported, Bool.beq_comm]
      | some range =>
          simp only [protoWords, spoken, ported, List.cons_append, List.nil_append]
          rw [readWords_dport _ _ _ carrier (portOk_of_ports ported _)]
          simp [protoMatches, spoken, untyped, Bool.beq_comm]
  | udp =>
      have untyped := icmpMatches_of_untyped (isUser.typed (by simp [spoken])) reading.packet
      have carrier : IsCarrier "udp" .udp := .inr ⟨rfl, rfl⟩
      cases ported : rule.ports with
      | none =>
          simp only [protoWords, spoken, ported, List.cons_append, List.nil_append]
          rw [readWords_carrier _ _ _ carrier next]
          simp [protoMatches, spoken, untyped, portsMatch_of_all ported, Bool.beq_comm]
      | some range =>
          simp only [protoWords, spoken, ported, List.cons_append, List.nil_append]
          rw [readWords_dport _ _ _ carrier (portOk_of_ports ported _)]
          simp [protoMatches, spoken, untyped, Bool.beq_comm]
  | icmp =>
      have all := portsMatch_of_all (isUser.portless spoken) reading.packet
      cases typed : rule.icmpType with
      | none =>
          simp only [protoWords, spoken, typed, List.cons_append, List.nil_append]
          rw [readWords_icmp]
          simp [protoMatches, spoken, all, icmpMatches, typed, Bool.beq_comm]
      | some type =>
          have read : parseU8 (toString type.toNat).toList = some type.toNat := by
            rw [toList_toString, parseU8]
            exact parseUnsigned_decimal (by have := type.toNat_lt; omega)
          simp only [protoWords, spoken, typed, List.cons_append, List.nil_append]
          rw [readWords_icmp, readWords_icmpType _ _ _ read]
          simp [protoMatches, spoken, all, icmpMatches, typed, Bool.beq_comm, LineState.also,
            Bool.and_assoc]

/-- Whether the line of a user rule matches. -/
def lineHit (own : UInt32) (direction : Direction) (rule : Rule) : Bool :=
  own == reading.selfAddr direction && covers rule.peer (reading.peerAddr direction)
    && (protoMatches rule reading.packet && portsMatch rule reading.packet
      && icmpMatches rule reading.packet)

theorem readWords_match {rule : Rule} (isUser : IsUserRule rule) (own : UInt32)
    (direction : Direction) (next : rest.head? ≠ some "dport")
    : readWords reading (matchWords (Cidr.fmtU32 own) direction rule ++ rest) state
      = readWords reading rest (state.also (lineHit reading own direction rule)) := by
  rw [matchWords, List.append_assoc, List.append_assoc, readWords_anchor, readWords_peer,
    readWords_proto _ _ _ isUser next]
  simp [LineState.also, lineHit, Bool.and_assoc]

theorem readLine_texts (words : List String)
    : readLine reading (texts words)
      = readWords reading words { matched := true, verdict := none } := by
  rw [readLine, ofList_texts]

/-- The deciding line of a user rule carries its action. -/
theorem readLine_verdict {rule : Rule} (isUser : IsUserRule rule) (own : UInt32)
    (direction : Direction)
    : readLine reading (texts (matchWords (Cidr.fmtU32 own) direction rule
        ++ verdictWords rule.action))
      = some { matched := lineHit reading own direction rule, verdict := some rule.action } := by
  have next : (verdictWords rule.action).head? ≠ some "dport" := by
    cases rule.action <;> decide
  rw [readLine_texts, readWords_match _ _ _ isUser own direction next, readWords_verdict]
  simp [LineState.also]

/-- The log line of a user rule decides nothing. -/
theorem readLine_log {rule : Rule} (isUser : IsUserRule rule) (own : UInt32)
    (direction : Direction)
    : ∃ matched, readLine reading (texts (matchWords (Cidr.fmtU32 own) direction rule
        ++ logWords))
      = some { matched := matched, verdict := none } := by
  refine ⟨lineHit reading own direction rule && reading.underLimit, ?_⟩
  rw [readLine_texts, readWords_match _ _ _ isUser own direction (by decide),
    readWords_logWords]
  simp [LineState.also]

/-- A line with a verdict decides the packets it matches. -/
theorem readLines_verdict {words : List (List Char)} {hit : Bool} {action : Action}
    (read : readLine reading words = some { matched := hit, verdict := some action })
    (others : List (List (List Char)))
    : readLines reading (words :: others)
      = if hit then some action else readLines reading others := by
  cases hit <;> simp [readLines, read]

theorem readLines_pass {words : List (List Char)} {hit : Bool}
    (read : readLine reading words = some { matched := hit, verdict := none })
    (others : List (List (List Char)))
    : readLines reading (words :: others) = readLines reading others := by
  cases hit <;> simp [readLines, read]

/-- The lines of user rules: the first that matches decides, by induction over the rules. -/
theorem readLines_userLines {own : UInt32} {direction : Direction} {rules : List Rule}
    {text : String} (users : ∀ rule ∈ rules, IsUserRule rule)
    (written : userLines (Cidr.fmtU32 own) direction rules = .ok text) (after : List Char)
    : readLines reading (wordsOfLines (text.toList ++ after))
      = match rules.find? (lineHit reading own direction) with
        | some rule => some rule.action
        | none => readLines reading (wordsOfLines after) := by
  induction rules generalizing text with
  | nil =>
      obtain rfl := Except.ok.inj written
      rfl
  | cons rule rest ih =>
      obtain ⟨line, first, written⟩ := bind_eq_ok.mp written
      obtain ⟨others, later, written⟩ := bind_eq_ok.mp written
      obtain rfl := Except.ok.inj written
      have isUser := users rule (by simp)
      have decided := readLines_verdict reading (readLine_verdict reading isUser own direction)
        (wordsOfLines (others.toList ++ after))
      rw [ih (fun other member => users other (by simp [member])) later] at decided
      rw [String.toList_append, List.append_assoc,
        wordsOfLines_userLine (isWord_fmtU32 own) first]
      have reached : readLines reading
            ((if rule.log then [texts (matchWords (Cidr.fmtU32 own) direction rule ++ logWords)]
              else [])
            ++ texts (matchWords (Cidr.fmtU32 own) direction rule ++ verdictWords rule.action)
              :: wordsOfLines (others.toList ++ after))
          = readLines reading
            (texts (matchWords (Cidr.fmtU32 own) direction rule ++ verdictWords rule.action)
              :: wordsOfLines (others.toList ++ after)) := by
        split
        case isTrue =>
          obtain ⟨hit, read⟩ := readLine_log reading isUser own direction
          exact readLines_pass reading read _
        case isFalse => rfl
      rw [reached, decided, List.find?_cons]
      cases lineHit reading own direction rule <;> rfl

end

end Delonix.Firewall
