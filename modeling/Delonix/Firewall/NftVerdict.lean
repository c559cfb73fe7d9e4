import Delonix.Firewall.NftWords

/-! The chain of a workload gives the verdict of its policy: the head of the chain, the user
rules, the guards of the namespace and the defaults, line by line.
-/

namespace Delonix.Firewall

open Delonix.Library.Text
open Delonix.Library.Words
open Delonix.Library.Checks
open Delonix.Library.DebugText
open Delonix.Net

-----------------------------------------------------------------------------------------
-- Sets
-----------------------------------------------------------------------------------------

theorem isWhitespace_of_digitValue {radix : Nat} {c : Char}
    (digit : (digitValue radix c).isSome = true)
    : isWhitespace c = false := by
  simp only [digitValue, Option.isSome_filter] at digit
  apply isWhitespace_eq_false_of_range
  · by_contra low
    simp [show ¬ 48 ≤ c.toNat by omega, show ¬ 65 ≤ c.toNat by omega,
      show ¬ 97 ≤ c.toNat by omega] at digit
  · by_contra high
    simp [show ¬ c.toNat ≤ 57 by omega, show ¬ c.toNat ≤ 90 by omega,
      show ¬ c.toNat ≤ 122 by omega] at digit

/-- The name of a set is one word. -/
theorem isWord_set (ns : String) : IsWord ("@" ++ nsSet ns).toList := by
  have shape : ("@" ++ nsSet ns).toList
      = "@dlxns".toList ++ hex8 (fnv32 (namespaceIsolationKey ns)) := by
    simp [nsSet, dlxnsSet]
  rw [shape]
  apply IsWord.append (by decide)
  intro c member
  rw [hex8, List.leftpad, List.mem_append] at member
  rcases member with zero | digit
  · rw [List.eq_of_mem_replicate zero]
    rfl
  · exact isWhitespace_of_digitValue
      (digitValue_isSome_of_parseDigits (parseDigits_hex (Nat.le_refl _)) digit)

section

variable (reading : Reading) (rest : List String) (state : LineState)

theorem addrMatches_set (set : String) (addr : UInt32)
    : addrMatches reading ("@" ++ set) addr
      = some (addr == reading.packet.peer && inSet reading.packet.peerNamespace set) := by
  have named : stripStart ['@'] ("@" ++ set).toList = some set.toList :=
    stripStart_eq_some.mpr (by simp)
  rw [addrMatches, named]
  simp only [String.ofList_toList]

theorem set_ne_negation (set : String) : "@" ++ set ≠ "!=" := by
  intro same
  have heads := congrArg (fun s => s.toList.head?) same
  simp at heads

theorem readWords_set {field : String} {addr : UInt32} (set : String)
    (named : fieldAddr reading field = some addr)
    : readWords reading ("ip" :: field :: ("@" ++ set) :: rest) state
      = readWords reading rest (state.also (addr == reading.packet.peer
        && inSet reading.packet.peerNamespace set)) :=
  readWords_ip reading rest state named (addrMatches_set reading set addr)
    (set_ne_negation set)

-----------------------------------------------------------------------------------------
-- Guards
-----------------------------------------------------------------------------------------

def admitWords (ip ns : String) : List String :=
  ["ip", "daddr", ip, "ip", "saddr", "@" ++ nsSet ns]

def cutAllWords (ip : String) : List String :=
  ["ip", "daddr", ip, "ip", "saddr", "@" ++ dlxallSet, "ct", "state", "new"]

def cutOthersWords (ip ns : String) : List String :=
  ["ip", "daddr", ip, "ip", "saddr", "@" ++ dlxallSet, "ip", "saddr", "!=", "@" ++ nsSet ns,
    "ct", "state", "new"]

/-- The peer is in a set, on a packet to the workload. -/
def setHit (own : UInt32) (set : String) : Bool :=
  own == reading.dst && (reading.src == reading.packet.peer
    && inSet reading.packet.peerNamespace set)

theorem readWords_daddr (own : UInt32)
    : readWords reading ("ip" :: "daddr" :: Cidr.fmtU32 own :: rest) state
      = readWords reading rest (state.also (own == reading.dst)) :=
  readWords_anchor reading rest state .ingress own

theorem readLine_letIn (own : UInt32) (ns : String)
    : readLine reading (texts (admitWords (Cidr.fmtU32 own) ns ++ verdictWords .allow))
      = some { matched := setHit reading own (nsSet ns), verdict := some .allow } := by
  rw [readLine_texts]
  simp only [admitWords, List.cons_append, List.nil_append]
  rw [readWords_daddr, readWords_set reading _ _ _ rfl, readWords_verdict]
  simp [LineState.also, setHit]

theorem readLine_cutAll (own : UInt32)
    : readLine reading (texts (cutAllWords (Cidr.fmtU32 own) ++ verdictWords .deny))
      = some { matched := setHit reading own dlxallSet && reading.packet.new,
               verdict := some .deny } := by
  rw [readLine_texts]
  simp only [cutAllWords, List.cons_append, List.nil_append]
  rw [readWords_daddr, readWords_set reading _ _ _ rfl, readWords_ct reading _ _ rfl,
    readWords_verdict]
  simp [LineState.also, setHit]

theorem readLine_cutOthers (own : UInt32) (ns : String)
    : readLine reading (texts (cutOthersWords (Cidr.fmtU32 own) ns ++ verdictWords .deny))
      = some { matched := setHit reading own dlxallSet
                 && (!(reading.src == reading.packet.peer
                   && inSet reading.packet.peerNamespace (nsSet ns)) && reading.packet.new),
               verdict := some .deny } := by
  rw [readLine_texts]
  simp only [cutOthersWords, List.cons_append, List.nil_append]
  rw [readWords_daddr, readWords_set reading _ _ _ rfl,
    readWords_ip_not reading _ _ rfl (addrMatches_set reading _ _),
    readWords_ct reading _ _ rfl, readWords_verdict]
  simp [LineState.also, setHit, Bool.and_assoc]

/-- The two shapes of the namespace isolation. -/
theorem guardrails_cases (default : Action) (ins : List Rule) (ns : String)
    : guardrails default ins ns = [guardrail .deny (.otherNamespaces ns)]
      ∨ guardrails default ins ns
        = [guardrail .allow (.namespaced ns), guardrail .deny (.otherNamespaces ns)] := by
  rw [guardrails]
  split
  · exact .inl rfl
  · exact .inr rfl

theorem wordsOfLines_admit {ip ns line : String} {afterSameNs : Bool}
    (address : IsWord ip.toList)
    (written : guardLine ip (guardrail .allow (.namespaced ns)) afterSameNs = .ok line)
    (after : List Char)
    : wordsOfLines (line.toList ++ after)
      = texts (admitWords ip ns ++ verdictWords .allow) :: wordsOfLines after := by
  obtain rfl := Except.ok.inj written
  have shape : ("\t\tip daddr " ++ ip ++ " ip saddr @" ++ nsSet ns
        ++ " counter accept\n").toList
      = '\t' :: '\t' :: (spaced (texts (admitWords ip ns)) ++ "counter accept".toList)
        ++ ['\n'] := by
    simp [admitWords, texts, spaced]
  have all : ∀ word ∈ texts (admitWords ip ns), IsWord word := by
    simp only [admitWords, texts, List.map_cons, List.map_nil, List.forall_mem_cons,
      List.not_mem_nil, false_implies, implies_true, address, isWord_set, and_true]
    decide
  exact wordsOfLines_line shape all (verdictText_words .allow).1 (verdictText_words .allow).2
    after

theorem wordsOfLines_cutAll {ip ns line : String} (address : IsWord ip.toList)
    (written : guardLine ip (guardrail .deny (.otherNamespaces ns)) true = .ok line)
    (after : List Char)
    : wordsOfLines (line.toList ++ after)
      = texts (cutAllWords ip ++ verdictWords .deny) :: wordsOfLines after := by
  obtain rfl := Except.ok.inj written
  have shape : ("\t\tip daddr " ++ ip ++ " ip saddr @" ++ dlxallSet
        ++ " ct state new counter drop\n").toList
      = '\t' :: '\t' :: (spaced (texts (cutAllWords ip)) ++ "counter drop".toList)
        ++ ['\n'] := by
    simp [cutAllWords, texts, spaced]
  have all : ∀ word ∈ texts (cutAllWords ip), IsWord word := by
    simp only [cutAllWords, texts, List.map_cons, List.map_nil, List.forall_mem_cons,
      List.not_mem_nil, false_implies, implies_true, address, and_true]
    decide
  exact wordsOfLines_line shape all (verdictText_words .deny).1 (verdictText_words .deny).2
    after

theorem wordsOfLines_cutOthers {ip ns line : String} (address : IsWord ip.toList)
    (written : guardLine ip (guardrail .deny (.otherNamespaces ns)) false = .ok line)
    (after : List Char)
    : wordsOfLines (line.toList ++ after)
      = texts (cutOthersWords ip ns ++ verdictWords .deny) :: wordsOfLines after := by
  obtain rfl := Except.ok.inj written
  have shape : ("\t\tip daddr " ++ ip ++ " ip saddr @" ++ dlxallSet ++ " ip saddr != @"
        ++ nsSet ns ++ " ct state new counter drop\n").toList
      = '\t' :: '\t' :: (spaced (texts (cutOthersWords ip ns)) ++ "counter drop".toList)
        ++ ['\n'] := by
    simp [cutOthersWords, texts, spaced]
  have all : ∀ word ∈ texts (cutOthersWords ip ns), IsWord word := by
    simp only [cutOthersWords, texts, List.map_cons, List.map_nil, List.forall_mem_cons,
      List.not_mem_nil, false_implies, implies_true, address, isWord_set, and_true]
    decide
  exact wordsOfLines_line shape all (verdictText_words .deny).1 (verdictText_words .deny).2
    after

/-- The guards of an explicit inbound intent: all other namespaces are cut. -/
theorem wordsOfLines_explicit {ip ns text : String} (address : IsWord ip.toList)
    (written : guardLines ip none [guardrail .deny (.otherNamespaces ns)] = .ok text)
    (after : List Char)
    : wordsOfLines (text.toList ++ after)
      = texts (cutOthersWords ip ns ++ verdictWords .deny) :: wordsOfLines after := by
  obtain ⟨line, first, written⟩ := bind_eq_ok.mp written
  obtain ⟨others, none, written⟩ := bind_eq_ok.mp written
  obtain rfl := Except.ok.inj written
  obtain rfl := Except.ok.inj none
  rw [String.toList_append, List.append_assoc, wordsOfLines_cutOthers address first]
  rfl

/-- The guards without one: the namespace is let in, and then every workload cut. -/
theorem wordsOfLines_implicit {ip ns text : String} (address : IsWord ip.toList)
    (written : guardLines ip none
      [guardrail .allow (.namespaced ns), guardrail .deny (.otherNamespaces ns)] = .ok text)
    (after : List Char)
    : wordsOfLines (text.toList ++ after)
      = texts (admitWords ip ns ++ verdictWords .allow)
        :: texts (cutAllWords ip ++ verdictWords .deny) :: wordsOfLines after := by
  have pair : (some (guardrail .allow (.namespaced ns))).any
      (sameNs · (guardrail .deny (.otherNamespaces ns))) = true := by
    simp [sameNs, guardrail, Rule.new]
  obtain ⟨line, first, written⟩ := bind_eq_ok.mp written
  obtain ⟨others, later, written⟩ := bind_eq_ok.mp written
  obtain ⟨second, cut, later⟩ := bind_eq_ok.mp later
  obtain ⟨rest, none, later⟩ := bind_eq_ok.mp later
  obtain rfl := Except.ok.inj written
  obtain rfl := Except.ok.inj later
  obtain rfl := Except.ok.inj none
  rw [pair] at cut
  rw [String.toList_append, List.append_assoc, wordsOfLines_admit address first,
    String.toList_append, List.append_assoc, wordsOfLines_cutAll address cut]
  rfl

/-- To another address, the guards decide nothing. -/
theorem readLines_guards_elsewhere {own : UInt32} {default : Action} {ins : List Rule}
    {ns text : String} (elsewhere : own ≠ reading.dst)
    (written : guardLines (Cidr.fmtU32 own) none (guardrails default ins ns) = .ok text)
    (after : List Char)
    : readLines reading (wordsOfLines (text.toList ++ after))
      = readLines reading (wordsOfLines after) := by
  have missed (set : String) : setHit reading own set = false := by
    simp [setHit, elsewhere]
  rcases guardrails_cases default ins ns with shape | shape
  · rw [shape] at written
    rw [wordsOfLines_explicit (isWord_fmtU32 own) written,
      readLines_verdict reading (readLine_cutOthers reading own ns)]
    simp [missed]
  · rw [shape] at written
    rw [wordsOfLines_implicit (isWord_fmtU32 own) written,
      readLines_verdict reading (readLine_letIn reading own ns),
      readLines_verdict reading (readLine_cutAll reading own)]
    simp [missed]

/-- On a new packet to the workload, the guards decide as their rules do. -/
theorem readLines_guards {own : UInt32} {default : Action} {ins : List Rule}
    {ns text : String} (here : reading.dst = own) (there : reading.src = reading.packet.peer)
    (fresh : reading.packet.new = true)
    (distinct : ∀ other, reading.packet.peerNamespace = some other
      → nsSet other = nsSet ns → other = ns)
    (written : guardLines (Cidr.fmtU32 own) none (guardrails default ins ns) = .ok text)
    (after : List Char)
    : readLines reading (wordsOfLines (text.toList ++ after))
      = match (guardrails default ins ns).find? (ruleMatches · reading.packet) with
        | some rule => some rule.action
        | none => readLines reading (wordsOfLines after) := by
  have inOwn : inSet reading.packet.peerNamespace (nsSet ns)
      = (reading.packet.peerNamespace == some ns) := by
    cases namespaced : reading.packet.peerNamespace with
    | none => rfl
    | some other =>
        rw [inSet, if_neg (nsSet_ne_dlxallSet ns), Bool.eq_iff_iff, beq_iff_eq, beq_iff_eq,
          Option.some.injEq]
        exact ⟨distinct other namespaced, congrArg nsSet⟩
  have inAll : inSet reading.packet.peerNamespace dlxallSet
      = reading.packet.peerNamespace.isSome := by
    cases reading.packet.peerNamespace <;> simp [inSet]
  have same : ruleMatches (guardrail .allow (.namespaced ns)) reading.packet
      = (reading.packet.peerNamespace == some ns) := by
    simp [ruleMatches, guardrail, Rule.new, protoMatches, portsMatch, icmpMatches, peerMatches]
  have others : ruleMatches (guardrail .deny (.otherNamespaces ns)) reading.packet
      = (reading.packet.peerNamespace.isSome && !(reading.packet.peerNamespace == some ns)) := by
    cases namespaced : reading.packet.peerNamespace <;>
      simp [ruleMatches, guardrail, Rule.new, protoMatches, portsMatch, icmpMatches,
        peerMatches, namespaced, bne]
  have hit (set : String) : setHit reading own set = inSet reading.packet.peerNamespace set := by
    simp [setHit, here, there]
  rcases guardrails_cases default ins ns with shape | shape
  · rw [shape] at written
    rw [wordsOfLines_explicit (isWord_fmtU32 own) written,
      readLines_verdict reading (readLine_cutOthers reading own ns), shape,
      List.find?_cons, others, hit, inAll, inOwn, there, fresh]
    cases reading.packet.peerNamespace.isSome <;>
      cases reading.packet.peerNamespace == some ns <;> simp [guardrail, Rule.new]
  · rw [shape] at written
    rw [wordsOfLines_implicit (isWord_fmtU32 own) written,
      readLines_verdict reading (readLine_letIn reading own ns),
      readLines_verdict reading (readLine_cutAll reading own), shape, List.find?_cons,
      List.find?_cons, same, others, hit, hit, inAll, inOwn, fresh]
    cases reading.packet.peerNamespace.isSome <;>
      cases reading.packet.peerNamespace == some ns <;> simp [guardrail, Rule.new]

-----------------------------------------------------------------------------------------
-- Defaults and the head of the chain
-----------------------------------------------------------------------------------------

/-- The default line of a direction decides the packets of that direction that reach it. -/
theorem readLines_defaultLine (own : UInt32) (policy : Policy) (after : List Char)
    : readLines reading (wordsOfLines ((defaultLine (Cidr.fmtU32 own) policy).toList ++ after))
      = if policy.default = .deny ∧ own = reading.selfAddr policy.direction then some .deny
        else readLines reading (wordsOfLines after) := by
  have address := isWord_fmtU32 own
  have line (direction : Direction) : readLine reading
        (texts (anchorWords direction (Cidr.fmtU32 own) ++ verdictWords .deny))
      = some { matched := own == reading.selfAddr direction, verdict := some .deny } := by
    rw [readLine_texts, readWords_anchor, readWords_verdict]
    simp [LineState.also]
  have all (direction : Direction)
      : ∀ word ∈ texts (anchorWords direction (Cidr.fmtU32 own)), IsWord word := by
    simp only [texts, anchorWords, List.map_cons, List.map_nil, List.forall_mem_cons,
      List.not_mem_nil, false_implies, implies_true, address, and_true]
    cases direction <;> decide
  cases refused : policy.default with
  | allow =>
      have none : defaultLine (Cidr.fmtU32 own) policy = "" := by simp [defaultLine, refused]
      rw [none]
      simp
  | deny =>
      have shape : (defaultLine (Cidr.fmtU32 own) policy).toList
          = '\t' :: '\t' :: (spaced (texts (anchorWords policy.direction (Cidr.fmtU32 own)))
            ++ "counter drop".toList) ++ ['\n'] := by
        cases guarded : policy.direction <;>
          simp [defaultLine, refused, guarded, anchorWords, addressFields, texts, spaced]
      rw [wordsOfLines_line shape (all policy.direction) (verdictText_words .deny).1
        (verdictText_words .deny).2, readLines_verdict reading (line policy.direction)]
      simp

/-- The head of an enabled chain is two lines. -/
theorem wordsOfLines_prologue {fw : ContainerFw} (enabled : fw.enabled = true)
    (after : List Char)
    : wordsOfLines ((fwChainPrologue fw).toList ++ after)
      = texts (["ct", "state", "invalid"] ++ verdictWords .deny)
        :: texts (["ct", "state", "established,related"] ++ verdictWords .allow)
        :: wordsOfLines after := by
  have first : "\t\tct state invalid counter drop\n".toList
      = '\t' :: '\t' :: (spaced (texts ["ct", "state", "invalid"])
        ++ (verdictText .deny).toList) ++ ['\n'] := by
    simp [texts, spaced, verdictText]
  have second : "\t\tct state established,related counter accept\n".toList
      = '\t' :: '\t' :: (spaced (texts ["ct", "state", "established,related"])
        ++ (verdictText .allow).toList) ++ ['\n'] := by
    simp [texts, spaced, verdictText]
  have invalid := wordsOfLines_line first (by decide) (verdictText_words .deny).1
    (verdictText_words .deny).2
  have established := wordsOfLines_line second (by decide) (verdictText_words .allow).1
    (verdictText_words .allow).2
  have text : (fwChainPrologue fw).toList
      = "\t\tct state invalid counter drop\n".toList
        ++ "\t\tct state established,related counter accept\n".toList := by
    simp [fwChainPrologue, enabled]
  rw [text, List.append_assoc, invalid, established]

/-- The head of an enabled chain lets the return of a flow through and drops nothing. -/
theorem readLines_prologue {fw : ContainerFw} (enabled : fw.enabled = true)
    (after : List Char)
    : readLines reading (wordsOfLines ((fwChainPrologue fw).toList ++ after))
      = if reading.packet.new then readLines reading (wordsOfLines after) else some .allow := by
  have ct (state : String) (action : Action) {hit : Bool}
      (known : ctMatches reading state = some hit)
      : readLine reading (texts (["ct", "state", state] ++ verdictWords action))
        = some { matched := hit, verdict := some action } := by
    rw [readLine_texts]
    simp only [List.cons_append, List.nil_append]
    rw [readWords_ct _ _ _ known, readWords_verdict]
    simp [LineState.also]
  have never : ctMatches reading "invalid" = some false := by simp [ctMatches]
  have back : ctMatches reading "established,related" = some !reading.packet.new := by
    simp [ctMatches]
  rw [wordsOfLines_prologue enabled, readLines_verdict reading (ct _ _ never),
    readLines_verdict reading (ct _ _ back)]
  cases reading.packet.new <;> rfl

end

-----------------------------------------------------------------------------------------
-- The chain
-----------------------------------------------------------------------------------------

def TargetPolicy.toward (target : TargetPolicy) : Direction → Policy
  | .ingress => target.ingress
  | .egress => target.egress

/-- On a packet of its direction, the line of a user rule matches as the rule does. -/
theorem lineHit_toward {rule : Rule} (isUser : IsUserRule rule) (direction : Direction)
    (own : UInt32) (packet : Packet) (underLimit : Bool)
    : lineHit (.of direction own packet underLimit) own direction rule
      = ruleMatches rule packet := by
  have ends : (Reading.of direction own packet underLimit).selfAddr direction = own
      ∧ (Reading.of direction own packet underLimit).peerAddr direction = packet.peer := by
    cases direction <;> exact ⟨rfl, rfl⟩
  have packet_eq : (Reading.of direction own packet underLimit).packet = packet := rfl
  have peer : covers rule.peer packet.peer = peerMatches rule.peer packet := by
    rcases isUser.addressed with any | ⟨net, cidr⟩
    · rw [any]
      rfl
    · rw [cidr]
      rfl
  rw [lineHit, ends.1, ends.2, packet_eq, peer, ruleMatches]
  simp [Bool.and_comm]

/-- The workload's address is not at both ends. -/
theorem selfAddr_away {direction other : Direction} {own : UInt32} {packet : Packet}
    (elsewhere : packet.peer ≠ own) (away : other ≠ direction) (underLimit : Bool)
    : own ≠ (Reading.of direction own packet underLimit).selfAddr other := by
  cases direction <;> cases other <;> first | contradiction | exact Ne.symm elsewhere

theorem lineHit_away {direction other : Direction} {own : UInt32} {packet : Packet}
    (elsewhere : packet.peer ≠ own) (away : other ≠ direction) (underLimit : Bool)
    (rule : Rule)
    : lineHit (.of direction own packet underLimit) own other rule = false := by
  simp [lineHit, selfAddr_away elsewhere away]

theorem find_lineHit_toward {rules : List Rule} (users : ∀ rule ∈ rules, IsUserRule rule)
    (direction : Direction) (own : UInt32) (packet : Packet) (underLimit : Bool)
    : rules.find? (lineHit (.of direction own packet underLimit) own direction)
      = rules.find? (ruleMatches · packet) := by
  induction rules with
  | nil => rfl
  | cons rule rest ih =>
      rw [List.find?_cons, List.find?_cons, lineHit_toward (users rule (by simp)),
        ih (fun other member => users other (by simp [member]))]

theorem find_lineHit_away {direction other : Direction} {own : UInt32} {packet : Packet}
    (elsewhere : packet.peer ≠ own) (away : other ≠ direction) (underLimit : Bool)
    (rules : List Rule)
    : rules.find? (lineHit (.of direction own packet underLimit) own other) = none := by
  rw [List.find?_eq_none]
  intro rule _
  simp [lineHit_away elsewhere away]

/-- What an enabled record becomes. -/
theorem fromContainerFw_eq_ok {unprintable : Char → Bool} {fw : ContainerFw}
    {target : TargetPolicy} (accepted : fromContainerFw unprintable fw = .ok target)
    (enabled : fw.enabled = true)
    : ∃ defaultIn defaultOut ins outs, (∀ rule ∈ ins, IsUserRule rule)
      ∧ (∀ rule ∈ outs, IsUserRule rule)
      ∧ target = {
        ingress := {
          direction := .ingress
          default := defaultIn
          rules := ins ++ guardrails defaultIn ins (namespaceOf fw.ownNamespace)
        }
        egress := { direction := .egress, default := defaultOut, rules := outs }
      } := by
  rw [fromContainerFw, if_neg (by simp [enabled])] at accepted
  obtain ⟨defaultIn, _, accepted⟩ := bind_eq_ok.mp accepted
  obtain ⟨defaultOut, _, accepted⟩ := bind_eq_ok.mp accepted
  obtain ⟨⟨ins, outs⟩, parsed, accepted⟩ := bind_eq_ok.mp accepted
  obtain ⟨insUser, outsUser⟩ := rulesFrom_isUserRule parsed
  exact ⟨defaultIn, defaultOut, ins, outs, insUser, outsUser,
    (Except.ok.inj accepted).symm⟩

theorem filter_guardrails {ins : List Rule} (users : ∀ rule ∈ ins, IsUserRule rule)
    (default : Action) (ns : String)
    : (ins ++ guardrails default ins ns).filter (!·.guardrail) = ins
      ∧ (ins ++ guardrails default ins ns).filter (·.guardrail)
        = guardrails default ins ns := by
  have own : ins.filter (!·.guardrail) = ins := by
    rw [List.filter_eq_self]
    intro rule member
    simp [(users rule member).unguarded]
  have none : ins.filter (·.guardrail) = [] := by
    rw [List.filter_eq_nil_iff]
    intro rule member
    simp [(users rule member).unguarded]
  rw [List.filter_append, List.filter_append, own, none]
  rcases guardrails_cases default ins ns with shape | shape <;>
    simp [shape, guardrail, Rule.new]

/-- What a lowered chain consists of. -/
theorem chainBody_eq_ok {ip body : String} {target : TargetPolicy}
    (lowered : chainBody ip target = .ok body)
    : ∃ ins outs guards,
      userLines ip .ingress (target.ingress.rules.filter (!·.guardrail)) = .ok ins
      ∧ userLines ip .egress (target.egress.rules.filter (!·.guardrail)) = .ok outs
      ∧ guardLines ip none (target.ingress.rules.filter (·.guardrail)) = .ok guards
      ∧ body = ins ++ outs ++ guards ++ defaultLine ip target.ingress
        ++ defaultLine ip target.egress := by
  obtain ⟨ins, insWritten, lowered⟩ := bind_eq_ok.mp lowered
  obtain ⟨outs, outsWritten, lowered⟩ := bind_eq_ok.mp lowered
  split at lowered
  case isTrue => contradiction
  case isFalse =>
    obtain ⟨guards, guardsWritten, lowered⟩ := bind_eq_ok.mp lowered
    exact ⟨ins, outs, guards, insWritten, outsWritten, guardsWritten,
      (Except.ok.inj lowered).symm⟩

theorem isStateful_toward {ins outs : List Rule} (insUser : ∀ rule ∈ ins, IsUserRule rule)
    (outsUser : ∀ rule ∈ outs, IsUserRule rule) (defaultIn defaultOut : Action) (ns : String)
    (direction : Direction)
    : (TargetPolicy.toward {
        ingress := {
          direction := .ingress
          default := defaultIn
          rules := ins ++ guardrails defaultIn ins ns
        }
        egress := { direction := .egress, default := defaultOut, rules := outs }
      } direction).isStateful = true := by
  have guards : ∀ rule ∈ guardrails defaultIn ins ns, rule.stateful = true := by
    rcases guardrails_cases defaultIn ins ns with shape | shape <;>
      simp [shape, guardrail, Rule.new]
  simp only [Policy.isStateful, List.all_eq_true]
  intro rule member
  cases direction with
  | ingress =>
      rcases List.mem_append.mp member with user | guard
      · exact (insUser rule user).stateful
      · exact guards rule guard
  | egress => exact (outsUser rule member).stateful

section

variable {own : UInt32} {packet : Packet} {ins outs : List Rule} {defaultIn : Action}
  {ns insText outsText guardsText : String}

/-- The body of a chain on a new packet to the workload: inbound rules, guards, default. -/
theorem readLines_body_ingress (insUser : ∀ rule ∈ ins, IsUserRule rule)
    (outsUser : ∀ rule ∈ outs, IsUserRule rule) (defaultOut : Action)
    (insWritten : userLines (Cidr.fmtU32 own) .ingress ins = .ok insText)
    (outsWritten : userLines (Cidr.fmtU32 own) .egress outs = .ok outsText)
    (guardsWritten : guardLines (Cidr.fmtU32 own) none (guardrails defaultIn ins ns)
      = .ok guardsText)
    (elsewhere : packet.peer ≠ own) (fresh : packet.new = true)
    (distinct : ∀ other, packet.peerNamespace = some other → nsSet other = nsSet ns
      → other = ns)
    (underLimit : Bool)
    : readLines (.of .ingress own packet underLimit) (wordsOfLines (insText.toList
        ++ (outsText.toList ++ (guardsText.toList
        ++ ((defaultLine (Cidr.fmtU32 own) ⟨.ingress, defaultIn, []⟩).toList
        ++ ((defaultLine (Cidr.fmtU32 own) ⟨.egress, defaultOut, []⟩).toList ++ []))))))
      = some (firstVerdict (ins ++ guardrails defaultIn ins ns) defaultIn packet) := by
  have away := selfAddr_away elsewhere (show Direction.egress ≠ .ingress by decide) underLimit
  have guards := readLines_guards (.of .ingress own packet underLimit) rfl rfl fresh distinct
    guardsWritten
  rw [readLines_userLines _ insUser insWritten, find_lineHit_toward insUser,
    readLines_userLines _ outsUser outsWritten, find_lineHit_away elsewhere (by decide)]
  dsimp only
  rw [guards, readLines_defaultLine, readLines_defaultLine, firstVerdict, List.find?_append]
  have packet_eq : (Reading.of .ingress own packet underLimit).packet = packet := rfl
  have here : (Reading.of .ingress own packet underLimit).selfAddr .ingress = own := rfl
  rw [packet_eq]
  simp only [here, and_true]
  cases ins.find? (ruleMatches · packet) with
  | some rule => simp
  | none =>
      cases (guardrails defaultIn ins ns).find? (ruleMatches · packet) with
      | some rule => simp
      | none => cases defaultIn <;> simp [away, wordsOfLines_nil, readLines]

/-- The body of a chain on a new packet from the workload: outbound rules and default. -/
theorem readLines_body_egress (insUser : ∀ rule ∈ ins, IsUserRule rule)
    (outsUser : ∀ rule ∈ outs, IsUserRule rule) (defaultOut : Action)
    (insWritten : userLines (Cidr.fmtU32 own) .ingress ins = .ok insText)
    (outsWritten : userLines (Cidr.fmtU32 own) .egress outs = .ok outsText)
    (guardsWritten : guardLines (Cidr.fmtU32 own) none (guardrails defaultIn ins ns)
      = .ok guardsText)
    (elsewhere : packet.peer ≠ own) (underLimit : Bool)
    : readLines (.of .egress own packet underLimit) (wordsOfLines (insText.toList
        ++ (outsText.toList ++ (guardsText.toList
        ++ ((defaultLine (Cidr.fmtU32 own) ⟨.ingress, defaultIn, []⟩).toList
        ++ ((defaultLine (Cidr.fmtU32 own) ⟨.egress, defaultOut, []⟩).toList ++ []))))))
      = some (firstVerdict outs defaultOut packet) := by
  have away := selfAddr_away elsewhere (show Direction.ingress ≠ .egress by decide) underLimit
  rw [readLines_userLines _ insUser insWritten, find_lineHit_away elsewhere (by decide)]
  dsimp only
  rw [readLines_userLines _ outsUser outsWritten, find_lineHit_toward outsUser,
    readLines_guards_elsewhere _ away guardsWritten, readLines_defaultLine,
    readLines_defaultLine, firstVerdict]
  have here : (Reading.of .egress own packet underLimit).selfAddr .egress = own := rfl
  simp only [here, and_true]
  cases outs.find? (ruleMatches · packet) with
  | some rule => rfl
  | none => cases defaultOut <;> simp [away, wordsOfLines_nil, readLines]

end

/-- The text of a workload's chain gives every packet the verdict of its policy. -/
theorem nftVerdict_chainBody {unprintable : Char → Bool} {fw : ContainerFw}
    {target : TargetPolicy} {own : UInt32} {body : String}
    (accepted : fromContainerFw unprintable fw = .ok target)
    (lowered : chainBody (Cidr.fmtU32 own) target = .ok body) (direction : Direction)
    {packet : Packet} (elsewhere : packet.peer ≠ own)
    (distinct : ∀ other, packet.peerNamespace = some other
      → nsSet other = nsSet (namespaceOf fw.ownNamespace)
      → other = namespaceOf fw.ownNamespace)
    (underLimit : Bool)
    : nftVerdict (fwChainPrologue fw ++ body) direction own packet underLimit
      = some (evaluate (target.toward direction) packet) := by
  by_cases enabled : fw.enabled = true
  · obtain ⟨defaultIn, defaultOut, ins, outs, insUser, outsUser, rfl⟩ :=
      fromContainerFw_eq_ok accepted enabled
    obtain ⟨insText, outsText, guardsText, insWritten, outsWritten, guardsWritten, rfl⟩ :=
      chainBody_eq_ok lowered
    have stateful := isStateful_toward insUser outsUser defaultIn defaultOut
      (namespaceOf fw.ownNamespace) direction
    obtain ⟨unguarded, guarded⟩ :=
      filter_guardrails insUser defaultIn (namespaceOf fw.ownNamespace)
    have outsUnguarded : outs.filter (!·.guardrail) = outs := by
      rw [List.filter_eq_self]
      intro rule member
      simp [(outsUser rule member).unguarded]
    simp only [unguarded, guarded, outsUnguarded] at insWritten outsWritten guardsWritten
    rw [nftVerdict, String.toList_append, readLines_prologue _ enabled, evaluate, stateful]
    have packet_eq : (Reading.of direction own packet underLimit).packet = packet := rfl
    rw [packet_eq]
    cases fresh : packet.new with
    | false => rfl
    | true =>
        simp only [if_true, Bool.not_true, Bool.false_and, Bool.false_eq_true, if_false,
          String.toList_append, List.append_assoc]
        cases direction with
        | ingress =>
            have read := readLines_body_ingress insUser outsUser defaultOut insWritten
              outsWritten guardsWritten elsewhere fresh distinct underLimit
            simp only [List.append_nil] at read
            exact read
        | egress =>
            have read := readLines_body_egress insUser outsUser defaultOut insWritten
              outsWritten guardsWritten elsewhere underLimit
            simp only [List.append_nil] at read
            exact read
  · have opened : target = { ingress := .opened .ingress, egress := .opened .egress } := by
      rw [fromContainerFw, if_pos (by simpa using enabled)] at accepted
      exact (Except.ok.inj accepted).symm
    subst opened
    have empty : body = "" := (Except.ok.inj lowered).symm
    have prologue : fwChainPrologue fw = "" := by simp [fwChainPrologue, enabled]
    rw [prologue, empty]
    cases direction <;> simp [nftVerdict, wordsOfLines_nil, readLines, evaluate,
      TargetPolicy.toward, Policy.opened, firstVerdict]

/-- A record that logs and admits SSH from one network and denies the rest. -/
def sshRecord : ContainerFw := {
  enabled := true
  policyIn := "deny"
  policyOut := ""
  rules := [
    { dir := "in", proto := "tcp", port := "22", src := "10.0.0.0/8", action := "allow",
      icmpType := "", log := true, origin := none }
  ]
  ownNamespace := "team-a"
}

def sshPacket : Packet := {
  proto := .tcp
  dport := some 22
  icmpType := none
  peer := 0x0A010101
  peerNamespace := some "team-b"
  peerLabels := []
  new := true
}

theorem nftVerdict_sshRecord
    : ∃ target body, fromContainerFw (fun _ => false) sshRecord = .ok target
      ∧ chainBody (Cidr.fmtU32 0x0AC80005) target = .ok body
      ∧ nftVerdict (fwChainPrologue sshRecord ++ body) .ingress 0x0AC80005 sshPacket false
        = some .allow := by
  obtain ⟨target, accepted⟩
      : ∃ target, fromContainerFw (fun _ => false) sshRecord = .ok target := ⟨_, rfl⟩
  obtain ⟨body, lowered⟩ : ∃ body, chainBody (Cidr.fmtU32 0x0AC80005) target = .ok body := by
    obtain rfl := Except.ok.inj accepted
    exact ⟨_, rfl⟩
  have allowed : evaluate (target.toward .ingress) sshPacket = .allow := by
    obtain rfl := Except.ok.inj accepted
    decide +kernel
  have apart : ∀ other, sshPacket.peerNamespace = some other
      → nsSet other = nsSet (namespaceOf sshRecord.ownNamespace)
      → other = namespaceOf sshRecord.ownNamespace := by
    intro other named same
    obtain rfl := Option.some.inj named
    exact absurd same (by decide +kernel)
  have verdict := nftVerdict_chainBody accepted lowered .ingress (by decide) apart false
  rw [allowed] at verdict
  exact ⟨target, body, accepted, lowered, verdict⟩

end Delonix.Firewall
