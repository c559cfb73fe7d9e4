import Delonix.Firewall.Counters
import Delonix.Firewall.VerdictMap
import Mathlib.Data.Bool.AllAny

/-! The firewall of a workload as one transaction: its chain is rebuilt and the verdict map
moved to it. The commands of the script are read back line by line, and what they make of the
map follows from what the listing says about it. An address that is not spelled as the listing
spells it is not found there, so its element is not cleared before it is added.
-/

namespace Delonix.Firewall

open Delonix.Library.Text
open Delonix.Library.Words
open Delonix.Library.Checks
open Delonix.Library.Collections
open Delonix.Library.DebugText
open Delonix.Net
open Delonix.Library.Pieces
open Delonix.IpPool (parseIpv4 fmtU32_inj)

-----------------------------------------------------------------------------------------
-- Addresses a chain may be keyed on
-----------------------------------------------------------------------------------------

def isWorkloadIpv4 (ip : UInt32) : Bool := 0x0AC80000 ≤ ip && ip ≤ 0x0AFEFFFF

/-- An address of the workload space, but no first and last one of a /16. -/
def isIngressIp (ip : String) : Bool :=
  match (ip.toList.splitOn '.').mapM parseU8 with
  | some [a, b, c, d] =>
      isWorkloadIpv4 (fromBeBytes [a, b, c, d]) && (c, d) ≠ (0, 0) && (c, d) ≠ (255, 255)
  | _ => false

/-- The address that a text denotes, its octets read as `isIngressIp` reads them. -/
def addressOf (ip : String) : Option UInt32 :=
  match (ip.toList.splitOn '.').mapM parseU8 with
  | some [a, b, c, d] => some (fromBeBytes [a, b, c, d])
  | _ => none

/-- A declared network, by the text of its prefix. -/
structure NetDef where
  netPrefix : String
  deriving DecidableEq, Repr

/-- A host's address in a declared network, written in its canonical form. -/
def ipInDeclaredNetwork (ip : String) (defs : List NetDef) : Bool :=
  match parseIpv4 ip.toList with
  | none => false
  | some addr =>
      Cidr.fmtU32 addr = ip && defs.any fun d =>
        (Cidr.parse d.netPrefix).any fun net =>
          net.contains addr && addr ≠ net.base && addr ≠ net.last

-----------------------------------------------------------------------------------------
-- The script
-----------------------------------------------------------------------------------------

def fwChainName (ip : String) : String := "fw" ++ String.ofList (hex8 (fnv32 ip))

def checkIps (defs : List NetDef) : List String → Except HolderError Unit
  | [] => .ok ()
  | ip :: rest =>
      if !(isIngressIp ip || ipInDeclaredNetwork ip defs) then
        .error (.ipOutsideIngressSpace ("IP " ++ ip ++ " is neither in the ingress space "
          ++ "(10.200-254.x) nor a host of a declared network"))
      else checkIps defs rest

/-- The loop over the addresses: the lines of each. -/
def chainBodies (unprintable : Char → Bool) (fw : ContainerFw)
    : List String → Except HolderError String
  | [] => .ok ""
  | ip :: rest => do
      let body ← fwChainBody unprintable ip fw
      let others ← chainBodies unprintable fw rest
      return body ++ others

/-- The addresses whose elements go: those that point at the chain, and those to be given. -/
def staleOf (chain : String) (ips : List String) (listing : List Char) : List String :=
  sortedSet (((parseFwmapElements listing).filter
    fun element => element.2 = chain || ips.contains element.1).map Prod.fst)

def deleteLine (addr : String) : String :=
  "delete element ip dlxing fwmap \x7b " ++ addr ++ " \x7d\n"

def addLine (chain ip : String) : String :=
  "add element ip dlxing fwmap \x7b " ++ ip ++ " : jump " ++ chain ++ " \x7d\n"

def scriptText (chain : String) (stale ips : List String) (body : String) : String :=
  "add map ip dlxing fwmap \x7b type ipv4_addr : verdict; \x7d\n"
    ++ ("add chain ip dlxing " ++ chain ++ "\n")
    ++ ("flush chain ip dlxing " ++ chain ++ "\n")
    ++ String.join (stale.map deleteLine)
    ++ String.join (ips.map (addLine chain))
    ++ "table ip dlxing \x7b\n"
    ++ ("\tchain " ++ chain ++ " \x7b\n")
    ++ body ++ "\t\x7d\n\x7d\n"

/-- The whole transaction for the addresses of a workload, the first one naming its chain, or
the refusal.
-/
def firewallScript (unprintable : Char → Bool) (ips : List String) (fw : ContainerFw)
    (listing : List Char) (defs : List NetDef)
    : Except HolderError String :=
  match ips with
  | [] => .error (.firewallNoIp "firewall: no IP given")
  | primary :: _ => do
      checkIps defs ips
      validateContainerFw unprintable fw
      let chain := fwChainName primary
      let stale := staleOf chain ips listing
      let bodies ← chainBodies unprintable fw ips
      return scriptText chain stale ips (fwChainPrologue fw ++ bodies)

-----------------------------------------------------------------------------------------
-- Reading the script
-----------------------------------------------------------------------------------------

/-- A command on the elements of the verdict map, with its address as it is written. -/
inductive ElementOp where
  | delete (addr : String)
  | add (addr chain : String)
  deriving DecidableEq, Repr

/-- The words of a line as such a command. -/
def elementOp (words : List String) : Option ElementOp :=
  match words with
  | [verb, element, ip, table, map, opening, addr, closing] => do
      guard ([verb, element, ip, table, map, opening, closing]
        = ["delete", "element", "ip", "dlxing", "fwmap", "\x7b", "\x7d"])
      return .delete addr
  | [verb, element, ip, table, map, opening, addr, colon, jump, chain, closing] => do
      guard ([verb, element, ip, table, map, opening, colon, jump, closing]
        = ["add", "element", "ip", "dlxing", "fwmap", "\x7b", ":", "jump", "\x7d"])
      return .add addr chain
  | _ => none

def lineOp (words : List (List Char)) : Option ElementOp := elementOp (words.map String.ofList)

/-- The commands of a script on the elements of the verdict map, in order. -/
def elementOps (script : String) : List ElementOp := (wordsOfLines script.toList).filterMap lineOp

/-- How the loader of scripts reads an address. -/
abbrev ReadAddr := String → Option UInt32

def ElementOp.read (readAddr : ReadAddr) : ElementOp → Option MapOp
  | .delete addr => (readAddr addr).map .delete
  | .add addr chain => (readAddr addr).map (.add · chain)

/-- What a script makes of the map. It is one transaction: nothing, if it cannot be read or a
command fails.
-/
def runScript (readAddr : ReadAddr) (m : FwMap) (script : String) : Option FwMap :=
  ((elementOps script).mapM (ElementOp.read readAddr)).bind (applyOps m)

-----------------------------------------------------------------------------------------
-- Lines without commands
-----------------------------------------------------------------------------------------

/-- What a text of whole lines adds to the commands of what stands behind it. -/
def Gives (text : List Char) (ops : List ElementOp) : Prop :=
  ∀ rest, (wordsOfLines (text ++ rest)).filterMap lineOp
    = ops ++ (wordsOfLines rest).filterMap lineOp

theorem Gives.append {a b : List Char} {first second : List ElementOp} (front : Gives a first)
    (back : Gives b second)
    : Gives (a ++ b) (first ++ second) := by
  intro rest
  rw [List.append_assoc, front, back, List.append_assoc]

theorem gives_nil : Gives [] [] := fun _ => rfl

/-- A line of words gives the command they are. -/
theorem gives_of_words {text : List Char} {words : List String}
    (read : ∀ rest, wordsOfLines (text ++ rest) = texts words :: wordsOfLines rest)
    : Gives text (elementOp words).toList := by
  intro rest
  rw [read, List.filterMap_cons, lineOp, ofList_texts]
  cases elementOp words <;> rfl

theorem elementOp_of_verb {verb : String} (notDelete : verb ≠ "delete") (notAdd : verb ≠ "add")
    (rest : List String)
    : elementOp (verb :: rest) = none := by
  rw [elementOp.eq_def]
  split
  case h_1 same =>
    obtain ⟨rfl, _⟩ := List.cons.inj same
    simp [guard, notDelete]
  case h_2 same =>
    obtain ⟨rfl, _⟩ := List.cons.inj same
    simp [guard, notAdd]
  case h_3 => rfl

theorem quiet_of_words {text : List Char} {words : List String} {verb : String}
    (notDelete : verb ≠ "delete") (notAdd : verb ≠ "add")
    (read : ∀ rest, wordsOfLines (text ++ rest) = texts (verb :: words) :: wordsOfLines rest)
    : Gives text [] := by
  have given := gives_of_words read
  rwa [elementOp_of_verb notDelete notAdd] at given

/-- The lines of a user rule match packets. They move nothing in the map. -/
theorem quiet_userLine {own : String} (address : IsWord own.toList) {direction : Direction}
    {rule : Rule} {line : String} (written : userLine own direction rule = .ok line)
    : Gives line.toList [] := by
  intro rest
  have quiet (tail : List String)
      : lineOp (texts (matchWords own direction rule ++ tail)) = none := by
    rw [lineOp, ofList_texts]
    exact elementOp_of_verb (by decide) (by decide) _
  rw [wordsOfLines_userLine address written]
  cases rule.log <;> simp [quiet]

theorem quiet_userLines {own : String} (address : IsWord own.toList) {direction : Direction}
    {rules : List Rule} {text : String} (written : userLines own direction rules = .ok text)
    : Gives text.toList [] := by
  induction rules generalizing text with
  | nil =>
      obtain rfl := Except.ok.inj written
      exact gives_nil
  | cons rule rest ih =>
      obtain ⟨line, first, written⟩ := bind_eq_ok.mp written
      obtain ⟨others, later, written⟩ := bind_eq_ok.mp written
      obtain rfl := Except.ok.inj written
      rw [String.toList_append]
      exact (quiet_userLine address first).append (ih later)

theorem quiet_guardLines {own : String} (address : IsWord own.toList) {default : Action}
    {ins : List Rule} {ns text : String}
    (written : guardLines own none (guardrails default ins ns) = .ok text)
    : Gives text.toList [] := by
  have quiet (words : List String) : lineOp (texts ("ip" :: words)) = none := by
    rw [lineOp, ofList_texts]
    exact elementOp_of_verb (by decide) (by decide) _
  intro rest
  rcases guardrails_cases default ins ns with shape | shape
  · rw [shape] at written
    rw [wordsOfLines_explicit address written]
    simp [cutOthersWords, quiet]
  · rw [shape] at written
    rw [wordsOfLines_implicit address written]
    simp [cutAllWords, admitWords, quiet]

theorem quiet_defaultLine {own : String} (address : IsWord own.toList) (policy : Policy)
    : Gives (defaultLine own policy).toList [] := by
  have all (direction : Direction)
      : ∀ word ∈ texts (anchorWords direction own), IsWord word := by
    simp only [texts, anchorWords, List.map_cons, List.map_nil, List.forall_mem_cons,
      List.not_mem_nil, false_implies, implies_true, address, and_true]
    cases direction <;> decide
  cases refused : policy.default with
  | allow =>
      have none : defaultLine own policy = "" := by simp [defaultLine, refused]
      rw [none]
      exact gives_nil
  | deny =>
      have shape : (defaultLine own policy).toList
          = '\t' :: '\t' :: (spaced (texts (anchorWords policy.direction own))
            ++ "counter drop".toList) ++ ['\n'] := by
        cases guarded : policy.direction <;>
          simp [defaultLine, refused, guarded, anchorWords, addressFields, texts, spaced]
      exact quiet_of_words (by decide) (by decide) (wordsOfLines_line shape (all policy.direction)
        (verdictText_words .deny).1 (verdictText_words .deny).2)

/-- The chain of a record at an address moves nothing in the map. -/
theorem quiet_fwChainBody {unprintable : Char → Bool} {own : String} (address : IsWord own.toList)
    {fw : ContainerFw} {body : String} (written : fwChainBody unprintable own fw = .ok body)
    : Gives body.toList [] := by
  rw [fwChainBody] at written
  split at written
  case h_1 => cases written
  case h_2 target accepted =>
    split at written
    case h_1 => cases written
    case h_2 text lowered =>
      obtain rfl := Except.ok.inj written
      cases enabled : fw.enabled with
      | false =>
          rw [fromContainerFw, enabled] at accepted
          obtain rfl := Except.ok.inj accepted
          obtain rfl := Except.ok.inj lowered
          exact gives_nil
      | true =>
          obtain ⟨defaultIn, defaultOut, ins, outs, insUser, outsUser, rfl⟩ :=
            fromContainerFw_eq_ok accepted enabled
          obtain ⟨insText, outsText, guards, insWritten, outsWritten, guarded, rfl⟩ :=
            chainBody_eq_ok lowered
          dsimp only at guarded
          rw [(filter_guardrails insUser defaultIn (namespaceOf fw.ownNamespace)).2] at guarded
          simp only [String.toList_append]
          exact ((((quiet_userLines address insWritten).append
            (quiet_userLines address outsWritten)).append (quiet_guardLines address guarded)).append
              (quiet_defaultLine address _)).append (quiet_defaultLine address _)

theorem quiet_chainBodies {unprintable : Char → Bool} {fw : ContainerFw} {ips : List String}
    (addresses : ∀ ip ∈ ips, IsWord ip.toList) {text : String}
    (written : chainBodies unprintable fw ips = .ok text)
    : Gives text.toList [] := by
  induction ips generalizing text with
  | nil =>
      obtain rfl := Except.ok.inj written
      exact gives_nil
  | cons own rest ih =>
      obtain ⟨body, first, written⟩ := bind_eq_ok.mp written
      obtain ⟨others, later, written⟩ := bind_eq_ok.mp written
      obtain rfl := Except.ok.inj written
      rw [String.toList_append]
      obtain ⟨address, others⟩ := List.forall_mem_cons.mp addresses
      exact (quiet_fwChainBody address first).append (ih others later)

theorem quiet_prologue (fw : ContainerFw) : Gives (fwChainPrologue fw).toList [] := by
  cases enabled : fw.enabled with
  | false =>
      rw [fwChainPrologue, enabled]
      exact gives_nil
  | true =>
      intro rest
      have quiet (words : List String) : lineOp (texts ("ct" :: words)) = none := by
        rw [lineOp, ofList_texts]
        exact elementOp_of_verb (by decide) (by decide) words
      rw [wordsOfLines_prologue enabled]
      simp [quiet]

-----------------------------------------------------------------------------------------
-- The commands of the script
-----------------------------------------------------------------------------------------

theorem isWord_fwChainName (ip : String) : IsWord (fwChainName ip).toList := by
  rw [fwChainName, String.toList_append]
  apply (show IsWord "fw".toList by decide).append
  intro c member
  rw [String.toList_ofList, hex8, List.leftpad, List.mem_append] at member
  rcases member with zero | digit
  · rw [List.eq_of_mem_replicate zero]
    rfl
  · exact isWhitespace_of_digitValue (digitValue_isSome_of_parseDigits
      (parseDigits_hex (Nat.le_refl _)) digit)

/-- A line of words behind tabs, read as its words. -/
theorem wordsOfLines_tabbed {line : String} {tabs : List Char} {words : List String}
    {last : String} (indent : ∀ c ∈ tabs, c = '\t')
    (shape : line.toList = tabs ++ (spaced (texts words) ++ last.toList) ++ ['\n'])
    (all : ∀ word ∈ texts (words ++ [last]), IsWord word) (rest : List Char)
    : wordsOfLines (line.toList ++ rest) = texts (words ++ [last]) :: wordsOfLines rest := by
  have front : ∀ word ∈ texts words, IsWord word := fun word member =>
    all word (by simp only [texts, List.map_append, List.mem_append]; exact .inl member)
  have back : IsWord last.toList := all _ (by simp [texts])
  have single : '\n' ∉ tabs ++ (spaced (texts words) ++ last.toList) := by
    rw [List.mem_append, List.mem_append, not_or, not_or]
    refine ⟨fun member => ?_, not_mem_spaced front (by decide) (by decide), fun member => ?_⟩
    · exact absurd (indent _ member) (by decide)
    · exact absurd (back.visible _ member) (by decide)
  have skip (text : List Char) : splitWhitespace (tabs ++ text) = splitWhitespace text := by
    clear shape single
    induction tabs with
    | nil => rfl
    | cons c others ih =>
        obtain ⟨rfl, later⟩ := List.forall_mem_cons.mp indent
        have cut := splitWhitespace_append (c := '\t') (by decide) [] (others ++ text)
        rw [ih later] at cut
        simpa [splitWhitespace] using cut
  rw [shape, List.append_assoc, List.singleton_append, wordsOfLines_cons single, skip,
    splitWhitespace_spaced front, splitWhitespace_word back]
  simp [texts]

/-- A line of words without an indent. -/
theorem wordsOfLines_plain {line : String} {words : List String} {last : String}
    (shape : line.toList = spaced (texts words) ++ last.toList ++ ['\n'])
    (all : ∀ word ∈ texts (words ++ [last]), IsWord word) (rest : List Char)
    : wordsOfLines (line.toList ++ rest) = texts (words ++ [last]) :: wordsOfLines rest :=
  @wordsOfLines_tabbed _ [] _ _ (by simp) shape all rest

theorem elementOp_delete (text : String)
    : elementOp ["delete", "element", "ip", "dlxing", "fwmap", "\x7b", text, "\x7d"]
      = some (.delete text) := by
  simp [elementOp, guard]

theorem elementOp_add (text chain : String)
    : elementOp ["add", "element", "ip", "dlxing", "fwmap", "\x7b", text, ":", "jump", chain,
        "\x7d"]
      = some (.add text chain) := by
  simp [elementOp, guard]

theorem spaced_texts_concat (words : List String) (text : String)
    : spaced (texts (words ++ [text])) = spaced (texts words) ++ text.toList ++ [' '] := by
  simp [texts, spaced]

theorem gives_deleteLine {text : String} (word : IsWord text.toList)
    : Gives (deleteLine text).toList [.delete text] := by
  have shape : (deleteLine text).toList
      = spaced (texts (["delete", "element", "ip", "dlxing", "fwmap", "\x7b"] ++ [text]))
        ++ "\x7d".toList ++ ['\n'] := by
    have front : "delete element ip dlxing fwmap \x7b ".toList
        = spaced (texts ["delete", "element", "ip", "dlxing", "fwmap", "\x7b"]) := by decide
    have ending : " \x7d\n".toList = [' '] ++ ("\x7d".toList ++ ['\n']) := by decide
    rw [spaced_texts_concat, ← front]
    unfold deleteLine
    simp only [String.toList_append, ending, List.append_assoc]
  have all : ∀ word ∈ texts (["delete", "element", "ip", "dlxing", "fwmap", "\x7b"] ++ [text]
      ++ ["\x7d"]), IsWord word := by
    simp only [texts, List.cons_append, List.nil_append, List.map_cons, List.map_nil,
      List.forall_mem_cons, List.not_mem_nil, false_implies, implies_true, word]
    decide
  have given := gives_of_words (wordsOfLines_plain shape all)
  simp only [List.cons_append, List.nil_append] at given
  rwa [elementOp_delete] at given

theorem gives_addLine {chain text : String} (named : IsWord chain.toList)
    (word : IsWord text.toList)
    : Gives (addLine chain text).toList [.add text chain] := by
  have shape : (addLine chain text).toList
      = spaced (texts (["add", "element", "ip", "dlxing", "fwmap", "\x7b"] ++ [text]
        ++ [":", "jump"] ++ [chain])) ++ "\x7d".toList ++ ['\n'] := by
    have front : "add element ip dlxing fwmap \x7b ".toList
        = spaced (texts ["add", "element", "ip", "dlxing", "fwmap", "\x7b"]) := by decide
    have middle : " : jump ".toList = [' '] ++ spaced (texts [":", "jump"]) := by decide
    have appended : spaced (texts (["add", "element", "ip", "dlxing", "fwmap", "\x7b"] ++ [text]
          ++ [":", "jump"]))
        = spaced (texts (["add", "element", "ip", "dlxing", "fwmap", "\x7b"] ++ [text]))
          ++ spaced (texts [":", "jump"]) := by
      rw [texts, List.map_append, spaced_append]
      rfl
    have ending : " \x7d\n".toList = [' '] ++ ("\x7d".toList ++ ['\n']) := by decide
    rw [spaced_texts_concat, appended, spaced_texts_concat, ← front]
    unfold addLine
    simp only [String.toList_append, middle, ending, List.append_assoc]
  have all : ∀ word ∈ texts (["add", "element", "ip", "dlxing", "fwmap", "\x7b"] ++ [text]
      ++ [":", "jump"] ++ [chain] ++ ["\x7d"]), IsWord word := by
    simp only [texts, List.cons_append, List.nil_append, List.map_cons, List.map_nil,
      List.forall_mem_cons, List.not_mem_nil, false_implies, implies_true, word, named]
    decide
  have given := gives_of_words (wordsOfLines_plain shape all)
  simp only [List.cons_append, List.nil_append] at given
  rwa [elementOp_add] at given

/-- The lines of a loop give their commands in order, by induction over it. -/
theorem gives_lines {line : String → String} {op : String → ElementOp} {ips : List String}
    (each : ∀ ip ∈ ips, Gives (line ip).toList [op ip])
    : Gives (String.join (ips.map line)).toList (ips.map op) := by
  induction ips with
  | nil => exact gives_nil
  | cons ip rest ih =>
      obtain ⟨first, later⟩ := List.forall_mem_cons.mp each
      rw [List.map_cons, String.join_cons, String.toList_append]
      exact first.append (ih later)

/-- A line whose words are no command. -/
theorem quiet_plain {line : String} {words : List String} {last : String}
    (shape : line.toList = spaced (texts words) ++ last.toList ++ ['\n'])
    (all : ∀ word ∈ texts (words ++ [last]), IsWord word)
    (none : elementOp (words ++ [last]) = none)
    : Gives line.toList [] := by
  have given := gives_of_words (wordsOfLines_plain shape all)
  rwa [none] at given

/-- The commands of a script: a deletion for each stale address, an addition for each given. -/
theorem elementOps_scriptText {chain : String} (named : IsWord chain.toList)
    {stale ips : List String} (gone : ∀ ip ∈ stale, IsWord ip.toList)
    (given : ∀ ip ∈ ips, IsWord ip.toList) {body : String} (quiet : Gives body.toList [])
    : elementOps (scriptText chain stale ips body)
      = stale.map .delete ++ ips.map (.add · chain) := by
  have map : Gives "add map ip dlxing fwmap \x7b type ipv4_addr : verdict; \x7d\n".toList [] :=
    @quiet_plain _ ["add", "map", "ip", "dlxing", "fwmap", "\x7b", "type", "ipv4_addr",
      ":", "verdict;"] "\x7d" (by decide) (by decide) (by decide)
  have add : Gives ("add chain ip dlxing " ++ chain ++ "\n").toList [] :=
    @quiet_plain _ ["add", "chain", "ip", "dlxing"] chain
      (by simp [texts, spaced])
      (by
        simp only [texts, List.cons_append, List.nil_append, List.map_cons, List.map_nil,
          List.forall_mem_cons, List.not_mem_nil, false_implies, implies_true, named]
        decide)
      rfl
  have flush : Gives ("flush chain ip dlxing " ++ chain ++ "\n").toList [] :=
    @quiet_plain _ ["flush", "chain", "ip", "dlxing"] chain
      (by simp [texts, spaced])
      (by
        simp only [texts, List.cons_append, List.nil_append, List.map_cons, List.map_nil,
          List.forall_mem_cons, List.not_mem_nil, false_implies, implies_true, named]
        decide)
      rfl
  have table : Gives "table ip dlxing \x7b\n".toList [] :=
    @quiet_plain _ ["table", "ip", "dlxing"] "\x7b" (by decide) (by decide)
      (by decide)
  have head : Gives ("\tchain " ++ chain ++ " \x7b\n").toList [] := by
    have shape : ("\tchain " ++ chain ++ " \x7b\n").toList
        = ['\t'] ++ (spaced (texts ["chain", chain]) ++ "\x7b".toList) ++ ['\n'] := by
      simp [texts, spaced]
    have all : ∀ word ∈ texts (["chain", chain] ++ ["\x7b"]), IsWord word := by
      simp only [texts, List.cons_append, List.nil_append, List.map_cons, List.map_nil,
        List.forall_mem_cons, List.not_mem_nil, false_implies, implies_true, named]
      decide
    exact quiet_of_words (by decide) (by decide) (wordsOfLines_tabbed (by simp) shape all)
  have close : Gives ("\t\x7d\n".toList ++ "\x7d\n".toList) [] := by
    have inner : Gives "\t\x7d\n".toList [] := by
      have given := gives_of_words (@wordsOfLines_tabbed "\t\x7d\n" ['\t']
        [] "\x7d" (List.forall_mem_singleton.mpr rfl) (by decide) (by decide))
      exact given
    have outer : Gives "\x7d\n".toList [] :=
      @quiet_plain _ [] "\x7d" (by decide) (by decide) (by decide)
    exact inner.append outer
  have deletions := gives_lines fun ip member => gives_deleteLine (gone ip member)
  have additions := gives_lines fun ip member => gives_addLine named (given ip member)
  have whole := ((((((((map.append add).append flush).append deletions).append additions).append
    table).append head).append quiet).append close)
  have read := whole []
  have shape : (scriptText chain stale ips body).toList
      = "add map ip dlxing fwmap \x7b type ipv4_addr : verdict; \x7d\n".toList
        ++ ("add chain ip dlxing " ++ chain ++ "\n").toList
        ++ ("flush chain ip dlxing " ++ chain ++ "\n").toList
        ++ (String.join (stale.map deleteLine)).toList
        ++ (String.join (ips.map (addLine chain))).toList
        ++ "table ip dlxing \x7b\n".toList
        ++ ("\tchain " ++ chain ++ " \x7b\n").toList ++ body.toList
        ++ ("\t\x7d\n".toList ++ "\x7d\n".toList) := by
    unfold scriptText
    have closing : "\t\x7d\n\x7d\n".toList = "\t\x7d\n".toList ++ "\x7d\n".toList := by decide
    rw [String.toList_append, closing]
    simp only [String.toList_append, List.append_assoc]
  rw [elementOps, shape, ← List.append_nil (_ ++ ("\t\x7d\n".toList ++ _)), read]
  simp [wordsOfLines_nil]

-----------------------------------------------------------------------------------------
-- Addresses as they are written
-----------------------------------------------------------------------------------------

/-- An address as it is printed denotes itself. -/
theorem addressOf_fmtU32 (v : UInt32) : addressOf (Cidr.fmtU32 v) = some v := by
  have cut : (dotted (toBeBytes v)).splitOn '.' = (toBeBytes v).map decimal :=
    splitOn_dotted (by simp [toBeBytes])
  have octets : ((Cidr.fmtU32 v).toList.splitOn '.').mapM parseU8 = some (toBeBytes v) := by
    rw [Cidr.fmtU32, String.toList_ofList, cut]
    exact mapM_parseU8_decimal fun _ => toBeBytes_le
  have four : toBeBytes v = [v.toNat / 16777216, v.toNat / 65536 % 256, v.toNat / 256 % 256,
      v.toNat % 256] := rfl
  rw [addressOf, octets, four]
  exact congrArg some (fromBeBytes_toBeBytes v)

/-- A text that denotes an address holds no blank. -/
theorem isWord_of_addressOf {ip : String} {addr : UInt32} (denotes : addressOf ip = some addr)
    : IsWord ip.toList := by
  unfold addressOf at denotes
  split at denotes
  case h_2 => cases denotes
  case h_1 a b c d read =>
    have octets := mapM_eq_some.mp read
    refine ⟨?_, fun ch member => ?_⟩
    · intro empty
      rw [empty] at octets
      cases octets.length_eq
    · by_cases dot : ch = '.'
      · rw [dot]
        rfl
      · have whole : ['.'].intercalate (ip.toList.splitOn '.') = ip.toList :=
          List.intercalate_splitOn '.'
        rw [← List.singleton_infix_iff, ← whole,
          infix_intercalate_iff (by simpa using Ne.symm dot) (by simp)] at member
        obtain ⟨piece, inside, within⟩ := member
        obtain ⟨octet, -, parsed⟩ := exists_of_forall₂_left octets inside
        have within := (List.singleton_infix_iff ch piece).mp within
        rcases digit_of_parseUnsigned parsed within with rfl | digit
        · rfl
        · exact isWhitespace_of_digitValue digit

/-- An address that a chain may be keyed on is one. -/
theorem addressOf_of_accepted {ip : String} {defs : List NetDef}
    (accepted : (isIngressIp ip || ipInDeclaredNetwork ip defs) = true)
    : ∃ addr, addressOf ip = some addr := by
  rcases Bool.or_eq_true _ _ ▸ accepted with ingress | declared
  · unfold isIngressIp at ingress
    unfold addressOf
    split at ingress
    case h_1 => exact ⟨_, rfl⟩
    case h_2 => cases ingress
  · unfold ipInDeclaredNetwork at declared
    split at declared
    case h_1 => cases declared
    case h_2 addr _ =>
      rw [Bool.and_eq_true, decide_eq_true_eq] at declared
      exact ⟨addr, declared.1 ▸ addressOf_fmtU32 addr⟩

theorem accepted_of_checkIps {defs : List NetDef} {ips : List String}
    (checked : checkIps defs ips = .ok ())
    : ∀ ip ∈ ips, (isIngressIp ip || ipInDeclaredNetwork ip defs) = true := by
  induction ips with
  | nil => simp
  | cons ip rest ih =>
      rw [checkIps] at checked
      split at checked
      case isTrue => cases checked
      case isFalse accepted =>
        rw [Bool.not_eq_true, Bool.not_eq_false'] at accepted
        exact List.forall_mem_cons.mpr ⟨accepted, ih checked⟩

-----------------------------------------------------------------------------------------
-- The map after the script
-----------------------------------------------------------------------------------------

/-- The stale addresses: the entries of the map that point at the chain, or that are spelled as one
to be given.
-/
theorem mem_staleOf {m : FwMap} {listing : List Char} (listed : Listed m listing) {chain : String}
    {ips : List String} {text : String}
    : text ∈ staleOf chain ips listing
      ↔ ∃ addr, text = Cidr.fmtU32 addr
        ∧ ∃ old, m.lookup addr = some old ∧ (old = chain ∨ Cidr.fmtU32 addr ∈ ips) := by
  obtain ⟨pairs, read, entries⟩ := parseFwmapElements_listed listed
  rw [staleOf, mem_sortedSet, read]
  simp only [List.mem_map, List.mem_filter, Bool.or_eq_true, decide_eq_true_eq,
    List.contains_iff_mem]
  constructor
  · rintro ⟨_, ⟨⟨⟨addr, old⟩, inside, rfl⟩, kept⟩, rfl⟩
    exact ⟨addr, rfl, old, (entries addr old).mp inside, kept⟩
  · rintro ⟨addr, rfl, old, found, kept⟩
    exact ⟨(Cidr.fmtU32 addr, old), ⟨⟨(addr, old), (entries addr old).mpr found, rfl⟩, kept⟩, rfl⟩

theorem staleOf_eq {m : FwMap} {listing : List Char} (listed : Listed m listing) (chain : String)
    (ips : List String)
    : ∃ gone : List UInt32, staleOf chain ips listing = gone.map Cidr.fmtU32 ∧ gone.Nodup
      ∧ ∀ addr, addr ∈ gone
        ↔ ∃ old, m.lookup addr = some old ∧ (old = chain ∨ Cidr.fmtU32 addr ∈ ips) := by
  have addresses {stale : List String} (all : ∀ text ∈ stale, ∃ addr, text = Cidr.fmtU32 addr)
      : ∃ gone : List UInt32, stale = gone.map Cidr.fmtU32 := by
    induction stale with
    | nil => exact ⟨[], rfl⟩
    | cons text rest ih =>
        obtain ⟨⟨addr, rfl⟩, later⟩ := List.forall_mem_cons.mp all
        obtain ⟨gone, rfl⟩ := ih later
        exact ⟨addr :: gone, rfl⟩
  obtain ⟨gone, same⟩ := addresses fun text inside => by
    obtain ⟨addr, is, _⟩ := (mem_staleOf listed).mp inside
    exact ⟨addr, is⟩
  have once : (staleOf chain ips listing).Nodup := nodup_sortedSet _
  rw [same] at once
  refine ⟨gone, same, once.of_map, fun addr => ?_⟩
  rw [← List.mem_map_of_injective fun _ _ => fmtU32_inj, ← same, mem_staleOf listed]
  constructor
  · rintro ⟨other, is, held⟩
    exact fmtU32_inj is ▸ held
  · intro held
    exact ⟨addr, rfl, held⟩

/-- What a script that was made consists of. For another listing there is one too, since the
listing tells only what is stale.
-/
theorem firewallScript_eq_ok {unprintable : Char → Bool} {ips : List String} {fw : ContainerFw}
    {listing : List Char} {defs : List NetDef} {script : String}
    (made : firewallScript unprintable ips fw listing defs = .ok script)
    : ∃ primary others body, ips = primary :: others ∧ Gives body.toList []
      ∧ (∀ ip ∈ ips, (isIngressIp ip || ipInDeclaredNetwork ip defs) = true)
      ∧ ∀ other, firewallScript unprintable ips fw other defs
        = .ok (scriptText (fwChainName primary) (staleOf (fwChainName primary) ips other) ips
          body) := by
  cases ips with
  | nil => cases made
  | cons primary others =>
      rw [firewallScript.eq_def] at made
      obtain ⟨_, checked, made⟩ := bind_eq_ok.mp made
      obtain ⟨_, valid, made⟩ := bind_eq_ok.mp made
      obtain ⟨bodies, written, made⟩ := bind_eq_ok.mp made
      have accepted := accepted_of_checkIps checked
      have words : ∀ ip ∈ primary :: others, IsWord ip.toList := by
        intro ip member
        obtain ⟨addr, denotes⟩ := addressOf_of_accepted (accepted ip member)
        exact isWord_of_addressOf denotes
      have quiet := (quiet_prologue fw).append (quiet_chainBodies words written)
      rw [← String.toList_append] at quiet
      refine ⟨primary, others, _, rfl, quiet, accepted, fun other => ?_⟩
      rw [firewallScript.eq_def]
      exact bind_eq_ok.mpr ⟨_, checked, bind_eq_ok.mpr ⟨_, valid, bind_eq_ok.mpr
        ⟨bodies, written, rfl⟩⟩⟩

/-- The commands of a script as the loader reads them: it reads the listed addresses as they were
printed, and the given ones as it will.
-/
theorem mapM_read {readAddr : ReadAddr} (reads : ∀ addr, readAddr (Cidr.fmtU32 addr) = some addr)
    (gone : List UInt32) (ips : List String) (chain : String)
    : ((gone.map Cidr.fmtU32).map ElementOp.delete ++ ips.map (ElementOp.add · chain)).mapM
        (ElementOp.read readAddr)
      = (ips.mapM readAddr).map fun addrs => gone.map .delete ++ addrs.map (.add · chain) := by
  have additions : (ips.map (ElementOp.add · chain)).mapM (ElementOp.read readAddr)
      = (ips.mapM readAddr).map fun addrs => addrs.map (.add · chain) := by
    induction ips with
    | nil => rfl
    | cons ip rest ih =>
        rw [List.map_cons, List.mapM_cons, ih, List.mapM_cons, ElementOp.read]
        cases readAddr ip <;> cases rest.mapM readAddr <;> rfl
  have deletions : ((gone.map Cidr.fmtU32).map ElementOp.delete).mapM (ElementOp.read readAddr)
      = some (gone.map .delete) := by
    induction gone with
    | nil => rfl
    | cons addr rest ih =>
        rw [List.map_cons, List.map_cons, List.mapM_cons, ih, ElementOp.read, reads]
        rfl
  rw [List.mapM_append, deletions, additions]
  cases ips.mapM readAddr <;> rfl

/-- What the transaction is for: every given address has the chain of the workload, no other has
it, and the other keys are as before.
-/
structure Moves (chain : String) (given : List UInt32) (m after : FwMap) : Prop where
  claimed : ∀ addr ∈ given, after.lookup addr = some chain
  others : ∀ addr, addr ∉ given → after.lookup addr ≠ some chain
  unchanged : ∀ addr, addr ∉ given → m.lookup addr ≠ some chain
    → after.lookup addr = m.lookup addr

/-- A script moves a map so for the addresses, none of its commands failing. -/
def Carries (readAddr : ReadAddr) (chain : String) (ips : List String) (m : FwMap)
    (script : String) : Prop :=
  ∃ after, runScript readAddr m script = some after ∧ Moves chain (ips.filterMap addressOf) m after

/-- The loader reads the addresses as those that they were checked to be, and the ones that the map
sends to another chain are spelled as the listing spells them.
-/
structure WellSpelled (readAddr : ReadAddr) (chain : String) (ips : List String) (m : FwMap)
    : Prop where
  read : ∃ addrs, ips.mapM readAddr = some addrs ∧ addrs.Perm (ips.filterMap addressOf)
  listed : ∀ ip ∈ ips, ∀ addr, addressOf ip = some addr → ∀ old, m.lookup addr = some old
    → old = chain ∨ ip = Cidr.fmtU32 addr

/-- The addresses of texts that denote different ones. -/
theorem nodup_filterMap_addressOf {ips : List String} (distinct : (ips.map addressOf).Nodup)
    : (ips.filterMap addressOf).Nodup := by
  have flat : ips.filterMap addressOf = (ips.map addressOf).filterMap id := by
    rw [List.filterMap_map]
    rfl
  rw [flat]
  exact distinct.filterMap fun _ _ _ first second => first.trans second.symm

/-- Once the deletions are made, the map has the elements of other chains that are spelled otherwise
than every address to be given.
-/
theorem exists_cleared {m : FwMap} {listing : List Char} (listed : Listed m listing)
    (chain : String) (ips : List String)
    : ∃ (gone : List UInt32) (middle : FwMap), staleOf chain ips listing = gone.map Cidr.fmtU32
      ∧ applyOps m (gone.map .delete) = some middle
      ∧ ∀ addr old, middle.lookup addr = some old
        ↔ m.lookup addr = some old ∧ old ≠ chain ∧ Cidr.fmtU32 addr ∉ ips := by
  obtain ⟨gone, stale, once, goes⟩ := staleOf_eq listed chain ips
  have present : ∀ addr ∈ gone, addr ∈ m := by
    intro addr member
    obtain ⟨old, found, _⟩ := (goes addr).mp member
    exact AList.lookup_isSome.mp (by simp [found])
  obtain ⟨middle, deleted, left⟩ := applyOps_delete once present
  refine ⟨gone, middle, stale, deleted, fun addr old => ?_⟩
  rw [left]
  constructor
  · intro held
    split at held
    case isTrue => cases held
    case isFalse kept =>
      refine ⟨held, fun same => kept ?_, fun given => kept ?_⟩
      · exact (goes addr).mpr ⟨old, held, .inl same⟩
      · exact (goes addr).mpr ⟨old, held, .inr given⟩
  · rintro ⟨held, otherChain, otherText⟩
    rw [if_neg, held]
    intro member
    obtain ⟨_, found, toChain | given⟩ := (goes addr).mp member
    · exact otherChain ((Option.some.inj (held.symm.trans found)).trans toChain)
    · exact otherText given

/-- A script deletes, then it adds what the loader reads. -/
theorem runScript_scriptText {readAddr : ReadAddr}
    (reads : ∀ addr, readAddr (Cidr.fmtU32 addr) = some addr) {ips : List String}
    (words : ∀ ip ∈ ips, IsWord ip.toList) {m : FwMap} {listing : List Char}
    (listed : Listed m listing) {chain : String} (named : IsWord chain.toList) {body : String}
    (quiet : Gives body.toList [])
    : ∃ middle : FwMap, runScript readAddr m (scriptText chain (staleOf chain ips listing) ips body)
        = (ips.mapM readAddr).bind (fun addrs => applyOps middle (addrs.map (.add · chain)))
      ∧ ∀ addr old, middle.lookup addr = some old
        ↔ m.lookup addr = some old ∧ old ≠ chain ∧ Cidr.fmtU32 addr ∉ ips := by
  obtain ⟨gone, middle, stale, deleted, held⟩ := exists_cleared listed chain ips
  refine ⟨middle, ?_, held⟩
  have printed : ∀ ip ∈ gone.map Cidr.fmtU32, IsWord ip.toList := by
    intro ip member
    obtain ⟨addr, -, rfl⟩ := List.mem_map.mp member
    exact isWord_fmtU32 addr
  rw [runScript, stale, elementOps_scriptText named printed words quiet, mapM_read reads,
    Option.bind_map]
  exact congrArg _ (funext fun addrs => applyOps_append deleted _)

/-- A script carries its addresses exactly if they are spelled for the map. -/
theorem carries_scriptText_iff {readAddr : ReadAddr}
    (reads : ∀ addr, readAddr (Cidr.fmtU32 addr) = some addr) {ips : List String}
    (distinct : (ips.map addressOf).Nodup) (denote : ∀ ip ∈ ips, ∃ addr, addressOf ip = some addr)
    {m : FwMap} {listing : List Char} (listed : Listed m listing) {chain : String}
    (named : IsWord chain.toList) {body : String} (quiet : Gives body.toList [])
    : Carries readAddr chain ips m (scriptText chain (staleOf chain ips listing) ips body)
      ↔ WellSpelled readAddr chain ips m := by
  have words : ∀ ip ∈ ips, IsWord ip.toList := by
    intro ip member
    obtain ⟨addr, denotes⟩ := denote ip member
    exact isWord_of_addressOf denotes
  obtain ⟨middle, ran, held⟩ := runScript_scriptText reads words listed named quiet
  have cleared (addr : UInt32) : middle.lookup addr ≠ some chain :=
    fun found => ((held addr chain).mp found).2.1 rfl
  rw [Carries, ran]
  constructor
  · rintro ⟨after, ran, moves⟩
    obtain ⟨addrs, read, applied⟩ := Option.bind_eq_some_iff.mp ran
    obtain ⟨single, absent⟩ := absent_of_applyOps_add applied
    obtain ⟨_, added, final⟩ := applyOps_add single chain absent
    obtain rfl := Option.some.inj (applied.symm.trans added)
    have same (addr : UInt32) : addr ∈ addrs ↔ addr ∈ ips.filterMap addressOf := by
      constructor
      · intro member
        by_contra other
        exact moves.others addr other (by rw [final, if_pos member])
      · intro member
        by_contra other
        have has := moves.claimed addr member
        rw [final, if_neg other] at has
        exact cleared addr has
    refine ⟨⟨addrs, read, (List.perm_ext_iff_of_nodup single
      (nodup_filterMap_addressOf distinct)).mpr same⟩, ?_⟩
    -- An address of the list was added, so its key was free by then.
    intro ip member addr denotes old found
    have free := absent addr ((same addr).mpr (List.mem_filterMap.mpr ⟨ip, member, denotes⟩))
    by_contra bad
    rw [not_or] at bad
    have otherText : Cidr.fmtU32 addr ∉ ips := fun printed =>
      bad.2 (List.inj_on_of_nodup_map distinct member printed
        (denotes.trans (addressOf_fmtU32 addr).symm))
    rw [← AList.lookup_eq_none, (held addr old).mpr ⟨found, bad.1, otherText⟩] at free
    cases free
  · rintro ⟨⟨addrs, read, same⟩, spelled⟩
    have absent : ∀ addr ∈ addrs, addr ∉ middle := by
      intro addr member present
      obtain ⟨ip, given, denotes⟩ := List.mem_filterMap.mp (same.mem_iff.mp member)
      obtain ⟨old, found⟩ := Option.isSome_iff_exists.mp (AList.lookup_isSome.mpr present)
      obtain ⟨before, otherChain, otherText⟩ := (held addr old).mp found
      rcases spelled ip given addr denotes old before with toChain | printed
      · exact otherChain toChain
      · exact otherText (printed ▸ given)
    obtain ⟨after, added, final⟩ := applyOps_add
      (same.nodup_iff.mpr (nodup_filterMap_addressOf distinct)) chain absent
    refine ⟨after, by rw [read]; exact added, ?_, ?_, ?_⟩
    · intro addr given
      rw [final, if_pos (same.mem_iff.mpr given)]
    · intro addr other
      rw [final, if_neg (mt same.mem_iff.mp other)]
      exact cleared addr
    · intro addr other unrelated
      have otherText : Cidr.fmtU32 addr ∉ ips := fun printed =>
        other (List.mem_filterMap.mpr ⟨_, printed, addressOf_fmtU32 addr⟩)
      rw [final, if_neg (mt same.mem_iff.mp other)]
      ext old
      rw [held]
      exact ⟨And.left, fun found => ⟨found, fun is => unrelated (is ▸ found), otherText⟩⟩

theorem listed_single {addr : UInt32} {chain : String}
    (named : chain ≠ "" ∧ chain.toList.all isNameChar = true)
    : ∃ listing, Listed ((∅ : FwMap).insert addr chain) listing := by
  let item : Element := {
    front := []
    addr
    chain
    back := []
    frontBlank := List.forall_mem_nil _
    backBlank := List.forall_mem_nil _
    named
  }
  refine ⟨_, @Listed.elements _ [] [] [item] (by simp) (by simp) ?_⟩
  intro other target
  simp only [item, List.mem_singleton, exists_eq_left, lookup_insert_ite, AList.lookup_empty]
  grind

/-- On a map, the transaction moves it as intended exactly if the loader reads the addresses as
they were checked and those that the map sends to another chain are spelled as `Ipv4Addr` prints
them. Over all maps, exactly if every address is spelled so.
-/
theorem firewallScript_carries_iff {readAddr : ReadAddr}
    (reads : ∀ addr, readAddr (Cidr.fmtU32 addr) = some addr) {unprintable : Char → Bool}
    {primary : String} {others : List String}
    (distinct : ((primary :: others).map addressOf).Nodup) {fw : ContainerFw}
    {defs : List NetDef}
    (made : ∃ listing script,
      firewallScript unprintable (primary :: others) fw listing defs = .ok script)
    : (∀ m listing script, Listed m listing
        → firewallScript unprintable (primary :: others) fw listing defs = .ok script
        → (Carries readAddr (fwChainName primary) (primary :: others) m script
          ↔ WellSpelled readAddr (fwChainName primary) (primary :: others) m))
      ∧ ((∀ m listing script, Listed m listing
          → firewallScript unprintable (primary :: others) fw listing defs = .ok script
          → Carries readAddr (fwChainName primary) (primary :: others) m script)
        ↔ ∀ ip ∈ primary :: others, ∃ addr, ip = Cidr.fmtU32 addr) := by
  obtain ⟨_, _, made⟩ := made
  obtain ⟨_, _, body, shape, quiet, accepted, scripts⟩ := firewallScript_eq_ok made
  obtain ⟨rfl, rfl⟩ := List.cons.inj shape
  have denote : ∀ ip ∈ primary :: others, ∃ addr, addressOf ip = some addr :=
    fun ip member => addressOf_of_accepted (accepted ip member)
  have each {m : FwMap} {listing : List Char} {script : String} (listed : Listed m listing)
      (made : firewallScript unprintable (primary :: others) fw listing defs = .ok script)
      : Carries readAddr (fwChainName primary) (primary :: others) m script
        ↔ WellSpelled readAddr (fwChainName primary) (primary :: others) m := by
    obtain rfl := Except.ok.inj ((scripts listing).symm.trans made)
    exact carries_scriptText_iff reads distinct denote listed (isWord_fwChainName primary) quiet
  refine ⟨fun m listing script => each, fun carries ip member => ?_, ?_⟩
  · obtain ⟨addr, denotes⟩ := denote ip member
    -- A map that sends this address to a chain of another name.
    obtain ⟨listing, listed⟩ := @listed_single addr "fw" (by decide)
    have held := ((each listed (scripts listing)).mp
      (carries _ _ _ listed (scripts listing))).listed ip member addr denotes "fw"
        (AList.lookup_insert _)
    refine ⟨addr, held.resolve_left fun same => ?_⟩
    have empty : String.ofList (hex8 (fnv32 primary)) = "" := by
      rw [fwChainName] at same
      exact String.append_right_inj "fw" |>.mp (by rw [String.append_empty]; exact same.symm)
    have long := congrArg (fun text => text.toList.length) empty
    simp [hex8] at long
  · intro printed m listing script listed made
    have read : ∀ ips : List String, (∀ ip ∈ ips, ∃ addr, ip = Cidr.fmtU32 addr)
        → ips.mapM readAddr = some (ips.filterMap addressOf) := by
      intro ips all
      induction ips with
      | nil => rfl
      | cons ip rest ih =>
          obtain ⟨⟨addr, rfl⟩, later⟩ := List.forall_mem_cons.mp all
          rw [List.mapM_cons, reads, ih later, List.filterMap_cons, addressOf_fmtU32]
          rfl
    refine (each listed made).mpr ⟨⟨_, read _ printed, .refl _⟩, ?_⟩
    intro ip member addr denotes _ _
    obtain ⟨other, rfl⟩ := printed ip member
    have same : other = addr := Option.some.inj ((addressOf_fmtU32 other).symm.trans denotes)
    exact .inr (congrArg Cidr.fmtU32 same)

/-- A map where a workload still holds the element of a network it left, and another chain the
element of one it joins.
-/
def leavingMap : FwMap :=
  (((∅ : FwMap).insert 0x0ACB0007 "fwbbbbbbbb").insert 0x0AC90005 "fwcccccccc").insert
    0x0ACA0009 (fwChainName "10.200.0.5")

theorem blank_nil : ∀ c ∈ ([] : List Char), isWhitespace c = true := List.forall_mem_nil _

def leavingElements : List Element := [
  { front := [' '], addr := 0x0ACA0009, chain := fwChainName "10.200.0.5", back := [],
    frontBlank := List.forall_mem_singleton.mpr rfl, backBlank := blank_nil,
    named := by decide +kernel },
  { front := "\n\t\t\t     ".toList, addr := 0x0ACB0007, chain := "fwbbbbbbbb", back := [],
    frontBlank := List.all_iff_forall_prop.mp (by decide), backBlank := blank_nil,
    named := by decide },
  { front := [' '], addr := 0x0AC90005, chain := "fwcccccccc", back := [' '],
    frontBlank := List.forall_mem_singleton.mpr rfl,
    backBlank := List.forall_mem_singleton.mpr rfl, named := by decide }
]

def leavingListing : List Char :=
  "table ip dlxing \x7b\n\tmap fwmap \x7b\n\t\ttype ipv4_addr : verdict\n\t\t".toList
    ++ "elements = \x7b".toList
    ++ ([','].intercalate (leavingElements.map Element.text)
      ++ '\x7d' :: "\n\t\x7d\n\x7d\n".toList)

theorem listed_leaving : Listed leavingMap leavingListing := by
  apply Listed.elements (by simp [leavingElements]) (by decide)
  intro addr chain
  simp only [leavingElements, leavingMap, lookup_insert_ite, AList.lookup_empty, List.mem_cons,
    List.not_mem_nil, or_false, exists_eq_or_imp, exists_eq_left]
  grind

def leavingRecord : ContainerFw := {
  enabled := true
  policyIn := "deny"
  policyOut := ""
  rules := []
  ownNamespace := "default"
}

theorem made_of_isOk {unprintable : Char → Bool} {ips : List String} {fw : ContainerFw}
    {listing : List Char} {defs : List NetDef}
    (isOk : (firewallScript unprintable ips fw listing defs).isOk = true)
    : ∃ script, firewallScript unprintable ips fw listing defs = .ok script := by
  cases made : firewallScript unprintable ips fw listing defs with
  | error e =>
      rw [made] at isOk
      cases isOk
  | ok script => exact ⟨script, rfl⟩

theorem firewallScript_carries_leaving
    : (∃ script, firewallScript (fun _ => false) ["10.200.0.5", "10.201.0.5"] leavingRecord
          leavingListing [] = .ok script
        ∧ Carries addressOf (fwChainName "10.200.0.5") ["10.200.0.5", "10.201.0.5"] leavingMap
          script)
      ∧ ∃ script, firewallScript (fun _ => false) ["10.200.0.5", "10.201.0.05"] leavingRecord
          leavingListing [] = .ok script
        ∧ ¬ Carries addressOf (fwChainName "10.200.0.5") ["10.200.0.5", "10.201.0.05"] leavingMap
          script := by
  constructor
  · obtain ⟨script, made⟩ := @made_of_isOk (fun _ => false) ["10.200.0.5", "10.201.0.5"]
      leavingRecord leavingListing [] (by decide +kernel)
    have carries := (firewallScript_carries_iff addressOf_fmtU32 (by decide +kernel)
      ⟨_, _, made⟩).2.mpr (List.forall_mem_cons.mpr ⟨⟨0x0AC80005, by decide⟩,
        List.forall_mem_singleton.mpr ⟨0x0AC90005, by decide⟩⟩)
    exact ⟨script, made, carries _ _ _ listed_leaving made⟩
  · obtain ⟨script, made⟩ := @made_of_isOk (fun _ => false) ["10.200.0.5", "10.201.0.05"]
      leavingRecord leavingListing [] (by decide +kernel)
    refine ⟨script, made, fun carries => ?_⟩
    have held := (((firewallScript_carries_iff addressOf_fmtU32 (by decide +kernel)
      ⟨_, _, made⟩).1 _ _ _ listed_leaving made).mp carries).listed "10.201.0.05" (by simp)
        0x0AC90005 (by decide +kernel) "fwcccccccc" (by decide +kernel)
    exact absurd held (by decide +kernel)

/-- An address spelled otherwise is added beside the element it has, and the whole transaction
fails.
-/
theorem respelled_aborts
    : ∃ script, firewallScript (fun _ => false) ["10.201.0.05"] leavingRecord leavingListing []
        = .ok script
      ∧ Listed leavingMap leavingListing
      ∧ runScript addressOf leavingMap script = none := by
  obtain ⟨script, made⟩ := @made_of_isOk (fun _ => false) ["10.201.0.05"] leavingRecord
    leavingListing [] (by decide +kernel)
  refine ⟨script, made, listed_leaving, ?_⟩
  obtain ⟨_, _, body, shape, quiet, _, scripts⟩ := firewallScript_eq_ok made
  obtain ⟨rfl, rfl⟩ := List.cons.inj shape
  obtain rfl := Except.ok.inj ((scripts leavingListing).symm.trans made)
  have kept : staleOf (fwChainName "10.201.0.05") ["10.201.0.05"] leavingListing = [] := by
    decide +kernel
  have word : IsWord "10.201.0.05".toList := by decide
  have read : addressOf "10.201.0.05" = some 0x0AC90005 := by decide +kernel
  rw [runScript, kept, elementOps_scriptText (isWord_fwChainName _) (List.forall_mem_nil _)
    (List.forall_mem_singleton.mpr word) quiet]
  simp only [List.map_nil, List.nil_append, List.map_cons, List.mapM_cons, List.mapM_nil,
    ElementOp.read, read]
  have present : (0x0AC90005 : UInt32) ∈ leavingMap := by decide
  change applyOps leavingMap [.add 0x0AC90005 (fwChainName "10.201.0.05")] = none
  rw [applyOps, List.foldlM_cons, MapOp.apply, if_pos present]
  rfl

end Delonix.Firewall
