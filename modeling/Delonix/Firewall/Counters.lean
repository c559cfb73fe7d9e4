import Delonix.Firewall.RuleKeys

/-! Reading the counters of a chain. The line of a rule without a log is read back as its own
text and the values the kernel put into it, so its rule is found exactly when the record spells
it as the policy does.
-/

namespace Delonix.Firewall

open Delonix.Library.Text
open Delonix.Library.Words
open Delonix.Library.Checks
open Delonix.Net

-----------------------------------------------------------------------------------------
-- Reading a line back
-----------------------------------------------------------------------------------------

theorem Numeric.absent {s : List Char} (numeric : Numeric s) : 'n' ∉ s := by
  intro member
  exact absurd (numeric 'n' member).2 (by decide)

theorem numeric_decimal (n : Nat) : Numeric (decimal n) := by
  intro c member
  have digit := isDigit_toDigits member
  omega

theorem numeric_fmtU32 (v : UInt32) : Numeric (Cidr.fmtU32 v).toList := by
  intro c member
  rcases mem_dotted (by simpa [Cidr.fmtU32] using member) with rfl | digit
  · decide
  · omega

theorem numeric_addressText (net : Cidr) : Numeric (addressText net).toList := by
  rw [addressText_eq]
  split
  case isTrue => exact numeric_fmtU32 net.base
  case isFalse =>
    intro c member
    rw [Cidr.toList_toStringCidr] at member
    rcases List.mem_append.mp member with address | length
    · exact numeric_fmtU32 net.base c (by simpa [Cidr.fmtU32] using address)
    · rcases List.mem_cons.mp length with rfl | digit
      · decide
      · exact numeric_decimal net.len c digit

theorem numeric_portText (range : PortRange) : Numeric (portText range).toList := by
  rw [portText]
  split
  case isTrue =>
    rw [toList_toString]
    exact numeric_decimal _
  case isFalse =>
    intro c member
    rw [String.toList_append, String.toList_append, List.append_assoc, toList_toString,
      toList_toString] at member
    rcases List.mem_append.mp member with first | later
    · exact numeric_decimal _ c first
    · rcases List.mem_cons.mp later with rfl | last
      · decide
      · exact numeric_decimal _ c last

/-- The reader's mark has a letter that no word of a match has. -/
theorem absent_matchWords (own : UInt32) (direction : Direction) (rule : Rule)
    : ∀ word ∈ texts (matchWords (Cidr.fmtU32 own) direction rule), 'n' ∉ word := by
  have address := (numeric_fmtU32 own).absent
  have range (range : PortRange) := (numeric_portText range).absent
  have net (net : Cidr) := (numeric_addressText net).absent
  have number (n : Nat) : 'n' ∉ (toString n).toList := by
    rw [toList_toString]
    exact (numeric_decimal n).absent
  have anchored : ∀ word ∈ texts (anchorWords direction (Cidr.fmtU32 own)), 'n' ∉ word := by
    simp only [texts, anchorWords, List.map_cons, List.map_nil, List.forall_mem_cons,
      List.not_mem_nil, false_implies, implies_true, address, not_false_iff, and_true]
    cases direction <;> decide
  have peered : ∀ word ∈ texts (peerWords direction rule.peer), 'n' ∉ word := by
    cases rule.peer with
    | cidr prefixed =>
        simp only [texts, peerWords, List.map_cons, List.map_nil, List.forall_mem_cons,
          List.not_mem_nil, false_implies, implies_true, net, not_false_iff, and_true]
        cases direction <;> decide
    | any | namespaced | otherNamespaces | selector => simp [texts, peerWords]
  have spoken : ∀ word ∈ texts (protoWords rule), 'n' ∉ word := by
    rw [protoWords]
    split <;> try split
    all_goals
      simp only [texts, List.map_cons, List.map_nil, List.forall_mem_cons, List.not_mem_nil,
        false_implies, implies_true, range, number, not_false_iff, and_true]
    all_goals decide
  intro word member
  simp only [matchWords, texts, List.map_append, List.mem_append] at member
  rcases member with (inAnchor | inPeer) | inProto
  · exact anchored word inAnchor
  · exact peered word inPeer
  · exact spoken word inProto

theorem not_mem_spaced_of_absent {words : List (List Char)} {c : Char}
    (absent : ∀ word ∈ words, c ∉ word) (visible : c ≠ ' ')
    : c ∉ spaced words := by
  intro member
  obtain ⟨word, inside, member⟩ := List.mem_flatMap.mp member
  rcases List.mem_append.mp member with letter | blank
  · exact absent word inside letter
  · exact visible (by simpa using blank)

/-- The verdict of a line behind its counter. -/
def verdictWord : Action → List Char
  | .allow => "accept".toList
  | .deny => "drop".toList

theorem toList_verdictText (action : Action)
    : (verdictText action).toList = "counter".toList ++ ' ' :: verdictWord action := by
  cases action <;> rfl

/-- A verdict ends in a letter. -/
theorem verdictWord_eq (action : Action)
    : ∃ front last, verdictWord action = front ++ [last] ∧ isWhitespace last = false
      ∧ last ≠ '\r' ∧ '\n' ∉ verdictWord action ∧ IsWord (verdictWord action) := by
  cases action with
  | allow => exact ⟨"accep".toList, 't', by decide⟩
  | deny => exact ⟨"dro".toList, 'p', by decide⟩

theorem counterLine_eq_some {line before after packets bytes verdict : List Char} {n m : Nat}
    (cut : cutAt "counter packets ".toList (trim line) = some (before, after))
    (words : splitWhitespace after = [packets, "bytes".toList, bytes, verdict])
    (count : parseU64 packets = some n) (size : parseU64 bytes = some m)
    : counterLine line
      = some (String.ofList (trim (before ++ "counter ".toList ++ [' '].intercalate [verdict])),
        n, m) := by
  rw [counterLine, cut]
  simp [words, count, size, guard]

/-- The line of a rule without a log, listed with the values of its counter, is read as its own
text and the values, whichever way its record was written.
-/
theorem parseFwCounters_userLine {own : UInt32} {direction : Direction} {rule : Rule}
    {line : String} (written : userLine (Cidr.fmtU32 own) direction rule = .ok line)
    (plain : rule.log = false) {packets bytes : Nat} (few : packets < 2 ^ 64)
    (short : bytes < 2 ^ 64)
    : parseFwCounters (withCounts packets bytes line).toList
      = [(String.ofList (spaced (texts (matchWords (Cidr.fmtU32 own) direction rule))
          ++ (verdictText rule.action).toList), packets, bytes)] := by
  have shown := toList_userLine written plain
  have words := isWord_matchWords (isWord_fmtU32 own) direction rule
  have absent := not_mem_spaced_of_absent (absent_matchWords own direction rule) (by decide)
  have single := not_mem_spaced words (c := '\n') (by decide) (by decide)
  obtain ⟨inner, head⟩ : ∃ inner, spaced (texts (matchWords (Cidr.fmtU32 own) direction rule))
      = 'i' :: inner := by
    simp [matchWords, anchorWords, texts, spaced]
  obtain ⟨front, last, ends, visible, notCr, verdictLine, verdictIs⟩ := verdictWord_eq rule.action
  generalize spaced (texts (matchWords (Cidr.fmtU32 own) direction rule)) = text at *
  have counted : withCounts packets bytes line
      = String.ofList ("\t\t".toList ++ text ++ "counter packets ".toList ++ decimal packets
        ++ " bytes ".toList ++ decimal bytes ++ (' ' :: verdictWord rule.action ++ ['\n'])) := by
    have mark : line.toList = "\t\t".toList ++ text ++ ("cou".toList ++ 'n' :: "ter".toList)
        ++ (' ' :: verdictWord rule.action ++ ['\n']) := by
      rw [shown, toList_verdictText]
      simp
    have indented : 'n' ∉ "\t\t".toList ++ text := by
      rw [List.mem_append, not_or]
      exact ⟨by decide, absent⟩
    have cut := @cutAt_append _ "ter".toList _ _ (' ' :: verdictWord rule.action ++ ['\n'])
      (show 'n' ∉ "cou".toList by decide) indented
    rw [← mark] at cut
    rw [withCounts, show "counter".toList = "cou".toList ++ 'n' :: "ter".toList from rfl, cut]
  have ofWords : splitWhitespace (decimal packets ++ " bytes ".toList ++ decimal bytes
        ++ ' ' :: verdictWord rule.action)
      = [decimal packets, "bytes".toList, decimal bytes, verdictWord rule.action] := by
    have all : ∀ word ∈ [decimal packets, "bytes".toList, decimal bytes], IsWord word := by
      simp only [List.forall_mem_cons, List.not_mem_nil, false_implies, implies_true, and_true]
      exact ⟨isWord_decimal _, by decide, isWord_decimal _⟩
    have read := splitWhitespace_spaced all (verdictWord rule.action)
    rw [splitWhitespace_word verdictIs] at read
    simpa [spaced] using read
  have skip (line : List Char) : trim ('\t' :: line) = trim line := by
    simp [trim, trimStart, show isWhitespace '\t' = true from rfl]
  have trimmed : trim ("\t\t".toList ++ text ++ "counter packets ".toList ++ decimal packets
        ++ " bytes ".toList ++ decimal bytes ++ ' ' :: verdictWord rule.action)
      = text ++ ("cou".toList ++ 'n' :: "ter packets ".toList)
        ++ (decimal packets ++ " bytes ".toList ++ decimal bytes
          ++ ' ' :: verdictWord rule.action) := by
    have bounded := @trim_bounded 'i' last (inner
      ++ "counter packets ".toList ++ decimal packets ++ " bytes ".toList ++ decimal bytes
      ++ ' ' :: front) rfl visible
    rw [head, ends]
    have listed : "\t\t".toList ++ 'i' :: inner ++ "counter packets ".toList ++ decimal packets
          ++ " bytes ".toList ++ decimal bytes ++ ' ' :: (front ++ [last])
        = '\t' :: '\t' :: 'i' :: (inner ++ "counter packets ".toList ++ decimal packets
          ++ " bytes ".toList ++ decimal bytes ++ ' ' :: front ++ [last]) := by
      simp
    rw [listed, skip, skip, bounded]
    simp
  have cut := @cutAt_append _ "ter packets ".toList _ _ (decimal packets ++ " bytes ".toList
    ++ decimal bytes ++ ' ' :: verdictWord rule.action) (show 'n' ∉ "cou".toList by decide) absent
  have keyed : trim (text ++ "counter ".toList ++ [' '].intercalate [verdictWord rule.action])
      = text ++ (verdictText rule.action).toList := by
    have bounded := @trim_bounded 'i' last (inner ++ "counter ".toList ++ front) rfl visible
    rw [toList_verdictText, head, ends]
    simpa [List.intercalate] using bounded
  have whole : lines (withCounts packets bytes line).toList
      = ["\t\t".toList ++ text ++ "counter packets ".toList ++ decimal packets
        ++ " bytes ".toList ++ decimal bytes ++ ' ' :: verdictWord rule.action] := by
    have inside : '\n' ∉ "\t\t".toList ++ text ++ "counter packets ".toList ++ decimal packets
        ++ " bytes ".toList ++ decimal bytes ++ ' ' :: front ++ [last] := by
      have digits (n : Nat) : '\n' ∉ decimal n := not_mem_decimal (by decide)
      rw [ends] at verdictLine
      simp_all
    have cutLines := lines_single inside notCr
    rw [counted, String.toList_ofList, ends]
    simpa using cutLines
  have read (n : Nat) (small : n < 2 ^ 64) : parseU64 (decimal n) = some n :=
    parseUnsigned_decimal (by omega)
  rw [← trimmed] at cut
  have counters := counterLine_eq_some cut ofWords (read packets few) (read bytes short)
  rw [keyed] at counters
  rw [parseFwCounters, whole, List.filterMap_cons_some counters, List.filterMap_nil]

-----------------------------------------------------------------------------------------
-- The lines of a chain
-----------------------------------------------------------------------------------------

/-- Every rule of a record is parsed into the rules of its direction. -/
theorem rulesFrom_mem {unprintable : Char → Bool} {i : Nat} {records : List FwRule}
    {ins outs : List Rule} (parsed : rulesFrom unprintable i records = .ok (ins, outs))
    {r : FwRule} (member : r ∈ records)
    : ∃ rule, ruleOf unprintable r = .ok rule
      ∧ ((directionOf r = .ingress ∧ rule ∈ ins) ∨ (directionOf r = .egress ∧ rule ∈ outs)) := by
  induction records generalizing i ins outs with
  | nil => cases member
  | cons first rest ih =>
      obtain ⟨rule, taken, parsed⟩ := bind_eq_ok.mp parsed
      have made : ruleOf unprintable first = .ok rule := by
        cases made : ruleOf unprintable first with
        | error why =>
            rw [made] at taken
            contradiction
        | ok rule' =>
            rw [made] at taken
            rw [Except.ok.inj taken]
      split at parsed
      case isTrue inward =>
        obtain ⟨⟨ins', outs'⟩, later, same⟩ := bind_eq_ok.mp parsed
        obtain ⟨rfl, rfl⟩ := Prod.mk.inj (Except.ok.inj same)
        rcases List.mem_cons.mp member with rfl | inRest
        · have directed : directionOf r = .ingress := by simp [directionOf, inward]
          exact ⟨rule, made, .inl ⟨directed, by simp⟩⟩
        · obtain ⟨other, parsed, ⟨directed, inside⟩ | ⟨directed, inside⟩⟩ := ih later inRest
          · exact ⟨other, parsed, .inl ⟨directed, List.mem_cons_of_mem _ inside⟩⟩
          · exact ⟨other, parsed, .inr ⟨directed, inside⟩⟩
      case isFalse =>
        split at parsed
        case isTrue outward =>
          obtain ⟨⟨ins', outs'⟩, later, same⟩ := bind_eq_ok.mp parsed
          obtain ⟨rfl, rfl⟩ := Prod.mk.inj (Except.ok.inj same)
          rcases List.mem_cons.mp member with rfl | inRest
          · have directed : directionOf r = .egress := by simp [directionOf, outward]
            exact ⟨rule, made, .inr ⟨directed, by simp⟩⟩
          · obtain ⟨other, parsed, ⟨directed, inside⟩ | ⟨directed, inside⟩⟩ := ih later inRest
            · exact ⟨other, parsed, .inl ⟨directed, inside⟩⟩
            · exact ⟨other, parsed, .inr ⟨directed, List.mem_cons_of_mem _ inside⟩⟩
        case isFalse => contradiction

/-- A user rule has a line at every address. -/
theorem userLine_isOk {rule : Rule} (isUser : IsUserRule rule) (ip : String)
    (direction : Direction)
    : ∃ line, userLine ip direction rule = .ok line := by
  rw [userLine, if_neg (by simp [isUser.stateful])]
  rcases isUser.addressed with any | ⟨net, cidr⟩
  · exact ⟨_, by rw [any]; rfl⟩
  · exact ⟨_, by rw [cidr]; rfl⟩

theorem userLines_isOk {rules : List Rule} (users : ∀ rule ∈ rules, IsUserRule rule)
    (ip : String) (direction : Direction)
    : ∃ text, userLines ip direction rules = .ok text := by
  induction rules with
  | nil => exact ⟨"", rfl⟩
  | cons rule rest ih =>
      obtain ⟨line, first⟩ := userLine_isOk (users rule (by simp)) ip direction
      obtain ⟨others, later⟩ := ih fun other member => users other (by simp [member])
      exact ⟨line ++ others, by rw [userLines, first, later]; rfl⟩

theorem userLines_mem {ip text : String} {direction : Direction} {rules : List Rule}
    (written : userLines ip direction rules = .ok text) {rule : Rule} (member : rule ∈ rules)
    : ∃ line, userLine ip direction rule = .ok line ∧ line.toList <:+: text.toList := by
  induction rules generalizing text with
  | nil => cases member
  | cons first rest ih =>
      obtain ⟨line, lineWritten, written⟩ := bind_eq_ok.mp written
      obtain ⟨others, later, written⟩ := bind_eq_ok.mp written
      obtain rfl := Except.ok.inj written
      rw [String.toList_append]
      rcases List.mem_cons.mp member with rfl | inRest
      · exact ⟨line, lineWritten, (List.prefix_append _ _).isInfix⟩
      · obtain ⟨other, otherWritten, inside⟩ := ih later inRest
        exact ⟨other, otherWritten, inside.trans (List.suffix_append _ _).isInfix⟩

theorem guardLines_isOk (default : Action) (ins : List Rule) (ns ip : String)
    : ∃ text, guardLines ip none (guardrails default ins ns) = .ok text := by
  rcases guardrails_cases default ins ns with shape | shape <;> rw [shape]
  · exact ⟨_, rfl⟩
  · have admitted : sameNs (guardrail .allow (.namespaced ns))
        (guardrail .deny (.otherNamespaces ns)) = true := by
      simp [sameNs, guardrail, Rule.new]
    obtain ⟨first, firstWritten⟩ : ∃ line,
        guardLine ip (guardrail .allow (.namespaced ns)) false = .ok line := ⟨_, rfl⟩
    obtain ⟨second, secondWritten⟩ : ∃ line,
        guardLine ip (guardrail .deny (.otherNamespaces ns)) true = .ok line := ⟨_, rfl⟩
    refine ⟨first ++ (second ++ ""), ?_⟩
    simp only [guardLines, Option.any_none, Option.any_some, admitted, firstWritten,
      secondWritten]
    rfl

/-- An accepted record has a chain at every address, not only at the one it is tried at. -/
theorem fwChainBody_isOk {unprintable : Char → Bool} {fw : ContainerFw} {target : TargetPolicy}
    (accepted : fromContainerFw unprintable fw = .ok target) (enabled : fw.enabled = true)
    (ip : String)
    : ∃ body, fwChainBody unprintable ip fw = .ok body := by
  obtain ⟨defaultIn, defaultOut, ins, outs, insUser, outsUser, rfl⟩ :=
    fromContainerFw_eq_ok accepted enabled
  obtain ⟨users, guards⟩ := filter_guardrails insUser defaultIn (namespaceOf fw.ownNamespace)
  obtain ⟨insText, insWritten⟩ := userLines_isOk insUser ip .ingress
  obtain ⟨outsText, outsWritten⟩ := userLines_isOk outsUser ip .egress
  obtain ⟨guardsText, guardsWritten⟩ :=
    guardLines_isOk defaultIn ins (namespaceOf fw.ownNamespace) ip
  have plain : outs.any (·.guardrail) = false := by
    rw [List.any_eq_false]
    intro rule member
    simp [(outsUser rule member).unguarded]
  have unguarded : outs.filter (!·.guardrail) = outs := by
    rw [List.filter_eq_self]
    intro rule member
    simp [(outsUser rule member).unguarded]
  refine ⟨insText ++ outsText ++ guardsText
    ++ defaultLine ip {
      direction := .ingress
      default := defaultIn
      rules := ins ++ guardrails defaultIn ins (namespaceOf fw.ownNamespace)
    } ++ defaultLine ip { direction := .egress, default := defaultOut, rules := outs }, ?_⟩
  rw [fwChainBody, accepted]
  simp only [chainBody, users, guards, unguarded, insWritten, outsWritten, plain, guardsWritten]
  rfl

section

variable (unprintable : Char → Bool)

/-- The line of one rule of a record in the chain at an address: the one its policy rule is
written as, which is in the chain.
-/
structure Emitted (fw : ContainerFw) (own : UInt32) (r : FwRule) (line : String) : Prop where
  written : ∃ rule, ruleOf unprintable r = .ok rule
    ∧ userLine (Cidr.fmtU32 own) (directionOf r) rule = .ok line
  inside : ∃ body, fwChainBody unprintable (Cidr.fmtU32 own) fw = .ok body
    ∧ line.toList <:+: body.toList

/-- A line the reader of counters recognises: the rule's key on a line of its own, which comes
back with any values the kernel puts into it.
-/
def Recognised (own : UInt32) (r : FwRule) (line : String) : Prop :=
  ∃ tail, fwRuleTail r = some tail
    ∧ line = "\t\t" ++ counterKey (Cidr.fmtU32 own) r tail ++ "\n"
    ∧ ∀ packets bytes, packets < 2 ^ 64 → bytes < 2 ^ 64
      → parseFwCounters (withCounts packets bytes line).toList
        = [(counterKey (Cidr.fmtU32 own) r tail, packets, bytes)]

end

theorem exists_emitted {unprintable : Char → Bool} {fw : ContainerFw}
    (valid : validateContainerFw unprintable fw = .ok ()) (enabled : fw.enabled = true)
    (own : UInt32) {r : FwRule} (member : r ∈ fw.rules)
    : ∃ line, Emitted unprintable fw own r line := by
  obtain ⟨_, target, accepted⟩ := validateContainerFw_eq_ok valid
  obtain ⟨body, written⟩ := fwChainBody_isOk accepted enabled (Cidr.fmtU32 own)
  have lowered : chainBody (Cidr.fmtU32 own) target = .ok body := by
    rw [fwChainBody, accepted] at written
    dsimp only at written
    split at written
    case h_1 => cases written
    case h_2 lowered =>
      rw [lowered, Except.ok.inj written]
  obtain ⟨insText, outsText, guards, insWritten, outsWritten, _, rfl⟩ := chainBody_eq_ok lowered
  rw [fromContainerFw, if_neg (by simp [enabled])] at accepted
  obtain ⟨defaultIn, _, accepted⟩ := bind_eq_ok.mp accepted
  obtain ⟨defaultOut, _, accepted⟩ := bind_eq_ok.mp accepted
  obtain ⟨⟨ins, outs⟩, parsed, accepted⟩ := bind_eq_ok.mp accepted
  obtain rfl := Except.ok.inj accepted
  obtain ⟨insUser, outsUser⟩ := rulesFrom_isUserRule parsed
  obtain ⟨rule, made, ⟨directed, inside⟩ | ⟨directed, inside⟩⟩ := rulesFrom_mem parsed member
  · have kept : rule ∈ (ins ++ guardrails defaultIn ins (namespaceOf fw.ownNamespace)).filter
        (!·.guardrail) := by
      rw [(filter_guardrails insUser _ _).1]
      exact inside
    obtain ⟨line, lineWritten, inText⟩ := userLines_mem insWritten kept
    refine ⟨line, ⟨rule, made, by rw [directed]; exact lineWritten⟩, _, written, ?_⟩
    simp only [String.toList_append, List.append_assoc]
    exact inText.trans (List.prefix_append _ _).isInfix
  · have kept : rule ∈ outs.filter (!·.guardrail) := by
      simp [inside, (outsUser rule inside).unguarded]
    obtain ⟨line, lineWritten, inText⟩ := userLines_mem outsWritten kept
    refine ⟨line, ⟨rule, made, by rw [directed]; exact lineWritten⟩, _, written, ?_⟩
    simp only [String.toList_append, List.append_assoc]
    exact (inText.trans (List.prefix_append _ _).isInfix).trans (List.suffix_append _ _).isInfix

/-- A disabled record has no lines. -/
theorem not_emitted {unprintable : Char → Bool} {fw : ContainerFw} (disabled : fw.enabled = false)
    {own : UInt32} {r : FwRule} {line : String}
    : ¬ Emitted unprintable fw own r line := by
  rintro ⟨⟨rule, _, written⟩, body, chain, inside⟩
  have empty : fwChainBody unprintable (Cidr.fmtU32 own) fw = .ok "" := by
    rw [fwChainBody, fromContainerFw, disabled]
    rfl
  rw [empty] at chain
  rw [← Except.ok.inj chain] at inside
  have nothing : line.toList = [] := List.infix_nil.mp inside
  rw [userLine] at written
  split at written
  case isTrue => contradiction
  case isFalse =>
    obtain ⟨peer, _, written⟩ := bind_eq_ok.mp written
    have shape := congrArg String.toList (Except.ok.inj written)
    rw [nothing, String.toList_append, String.toList_append] at shape
    simp at shape

/-- The reader of counters recognises every line an accepted record without a log has for a
rule exactly when the record is disabled, and then has none, or spells the rule as the policy
prints it. Every rule of an enabled record has a line.
-/
theorem recognised_iff_spelled {unprintable : Char → Bool} {fw : ContainerFw}
    (valid : validateContainerFw unprintable fw = .ok ()) (own : UInt32) {r : FwRule}
    (member : r ∈ fw.rules) (plain : r.log = false)
    : (fw.enabled = true → ∃ line, Emitted unprintable fw own r line)
      ∧ ((∀ line, Emitted unprintable fw own r line → Recognised own r line)
        ↔ fw.enabled = true → Spelled r) := by
  refine ⟨fun enabled => exists_emitted valid enabled own member, ?_⟩
  have safe := ((validateContainerFw_eq_ok valid).1 r member).2.2
  obtain ⟨tail, tailed⟩ : ∃ tail, fwRuleTail r = some tail := by simp [fwRuleTail, safe]
  constructor
  · intro recognised enabled
    obtain ⟨line, emitted⟩ := exists_emitted valid enabled own member
    obtain ⟨tail', tailed', same, _⟩ := recognised line emitted
    obtain ⟨rule, parsed, written⟩ := emitted.written
    exact (line_eq_key_iff parsed plain written tailed').mp same
  · intro spelled line emitted
    cases enabled : fw.enabled with
    | false => exact (not_emitted enabled emitted).elim
    | true =>
        obtain ⟨rule, parsed, written⟩ := emitted.written
        have same := (line_eq_key_iff parsed plain written tailed).mpr (spelled enabled)
        refine ⟨tail, tailed, same, fun packets bytes few short => ?_⟩
        have logless : rule.log = false := (ruleOf_eq_ok parsed).2.2.2.2.2.trans plain
        have shown := toList_userLine written logless
        have key : spaced (texts (matchWords (Cidr.fmtU32 own) (directionOf r) rule))
            ++ (verdictText rule.action).toList = (counterKey (Cidr.fmtU32 own) r tail).toList := by
          rw [same, String.toList_append, String.toList_append,
            show "\n".toList = ['\n'] from rfl, List.append_left_inj, List.append_right_inj]
            at shown
          exact shown.symm
        rw [parseFwCounters_userLine written logless few short, key, String.ofList_toList]

/-- An accepted rule for the network of an address, given by the address. -/
def hostBitsRule : FwRule := {
  dir := "in"
  proto := "tcp"
  port := "80"
  src := "10.0.0.5/24"
  action := "allow"
  icmpType := ""
  log := false
  origin := none
}

def hostBitsRecord : ContainerFw := {
  enabled := true
  policyIn := "deny"
  policyOut := ""
  rules := [hostBitsRule]
  ownNamespace := "default"
}

/-- The record is accepted, and its rule's line names the network by its first address where
the key has the address the record gave.
-/
theorem hostBitsRule_unrecognised
    : validateContainerFw (fun _ => false) hostBitsRecord = .ok ()
      ∧ ∃ line, Emitted (fun _ => false) hostBitsRecord 0x0AC80002 hostBitsRule line
        ∧ ¬ Recognised 0x0AC80002 hostBitsRule line := by
  have valid : validateContainerFw (fun _ => false) hostBitsRecord = .ok () := by decide +kernel
  obtain ⟨line, emitted⟩ := exists_emitted valid rfl 0x0AC80002 (List.mem_singleton_self _)
  refine ⟨valid, line, emitted, ?_⟩
  rintro ⟨tail, tailed, same, _⟩
  obtain ⟨rule, parsed, written⟩ := emitted.written
  have printed : (ruleOf (fun _ => false) hostBitsRule >>= userLine (Cidr.fmtU32 0x0AC80002) .ingress)
      = .ok "\t\tip daddr 10.200.0.2 ip saddr 10.0.0.0/24 tcp dport 80 counter accept\n" := by
    decide +kernel
  rw [parsed] at printed
  have text := Except.ok.inj (written.symm.trans printed)
  have key : fwRuleTail hostBitsRule = some "ip saddr 10.0.0.5/24 tcp dport 80 counter accept" := by
    decide +kernel
  obtain rfl := Option.some.inj (tailed.symm.trans key)
  rw [text] at same
  exact absurd same (by decide +kernel)

/-- A record whose rule spells the network by its first address. -/
def networkRule : FwRule := { hostBitsRule with src := "10.0.0.0/24" }

def networkRecord : ContainerFw := { hostBitsRecord with rules := [networkRule] }

theorem networkRule_recognised
    : (networkRecord.enabled = true
        → ∃ line, Emitted (fun _ => false) networkRecord 0x0AC80002 networkRule line)
      ∧ ((∀ line, Emitted (fun _ => false) networkRecord 0x0AC80002 networkRule line
          → Recognised 0x0AC80002 networkRule line)
        ↔ networkRecord.enabled = true → Spelled networkRule) :=
  recognised_iff_spelled (by decide +kernel) 0x0AC80002 (List.mem_singleton_self _) rfl

end Delonix.Firewall
