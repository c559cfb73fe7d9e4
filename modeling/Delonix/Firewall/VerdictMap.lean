import Delonix.Firewall.RuleTail
import Delonix.Library.Pieces
import Mathlib.Data.Bool.AllAny
import Mathlib.Data.List.AList

/-! The verdict map that sends a workload's addresses to its chain: its element commands, and
the listing the holder reads it from.
-/

namespace Delonix.Firewall

open Delonix.Library.Text
open Delonix.Library.Words
open Delonix.Library.Collections
open Delonix.Net

/-- The chain of each address that has one. -/
abbrev FwMap := AList fun _ : UInt32 => String

inductive MapOp where
  | delete (addr : UInt32)
  | add (addr : UInt32) (chain : String)
  deriving DecidableEq, Repr

/-- One command. Deleting an absent key and adding a present one fail. -/
def MapOp.apply (m : FwMap) : MapOp → Option FwMap
  | .delete addr => if addr ∈ m then some (m.erase addr) else none
  | .add addr chain => if addr ∈ m then none else some (m.insert addr chain)

/-- The commands of one transaction, in order. The first that fails aborts them all. -/
def applyOps (m : FwMap) (ops : List MapOp) : Option FwMap := ops.foldlM MapOp.apply m

theorem applyOps_append {m middle : FwMap} {front : List MapOp}
    (applied : applyOps m front = some middle) (back : List MapOp)
    : applyOps m (front ++ back) = applyOps middle back := by
  rw [applyOps, List.foldlM_append, ← applyOps, applied]
  rfl

/-- Deleting present keys, each once, by induction over them. -/
theorem applyOps_delete {gone : List UInt32} (once : gone.Nodup) {m : FwMap}
    (present : ∀ addr ∈ gone, addr ∈ m)
    : ∃ after, applyOps m (gone.map .delete) = some after
      ∧ ∀ addr, after.lookup addr = if addr ∈ gone then none else m.lookup addr := by
  induction gone generalizing m with
  | nil => exact ⟨m, rfl, by simp⟩
  | cons first rest ih =>
      obtain ⟨notLater, onceLater⟩ := List.nodup_cons.mp once
      have kept : ∀ addr ∈ rest, addr ∈ m.erase first := by
        intro addr member
        rw [AList.mem_erase]
        exact ⟨fun same => notLater (same ▸ member), present addr (by simp [member])⟩
      obtain ⟨after, applied, found⟩ := ih onceLater kept
      refine ⟨after, ?_, fun addr => ?_⟩
      · rw [applyOps, List.map_cons, List.foldlM_cons, MapOp.apply,
          if_pos (present first (by simp))]
        exact applied
      · rw [found, lookup_erase_ite]
        by_cases same : addr = first
        · simp [same]
        · simp [same]

/-- Adding absent keys, each once, by induction over them. -/
theorem applyOps_add {addrs : List UInt32} (once : addrs.Nodup) {m : FwMap} (chain : String)
    (absent : ∀ addr ∈ addrs, addr ∉ m)
    : ∃ after, applyOps m (addrs.map (.add · chain)) = some after
      ∧ ∀ addr, after.lookup addr = if addr ∈ addrs then some chain else m.lookup addr := by
  induction addrs generalizing m with
  | nil => exact ⟨m, rfl, by simp⟩
  | cons first rest ih =>
      obtain ⟨notLater, onceLater⟩ := List.nodup_cons.mp once
      have free : ∀ addr ∈ rest, addr ∉ m.insert first chain := by
        intro addr member
        rw [AList.mem_insert]
        rintro (same | inside)
        · exact notLater (same ▸ member)
        · exact absent addr (by simp [member]) inside
      obtain ⟨after, applied, found⟩ := ih onceLater free
      refine ⟨after, ?_, fun addr => ?_⟩
      · rw [applyOps, List.map_cons, List.foldlM_cons, MapOp.apply,
          if_neg (absent first (by simp))]
        exact applied
      · rw [found, lookup_insert_ite]
        by_cases same : addr = first
        · simp [same]
        · simp [same]

/-- What an addition that was made tells of the map before it. -/
theorem apply_add_eq_some {m after : FwMap} {addr : UInt32} {chain : String}
    (applied : (MapOp.add addr chain).apply m = some after)
    : addr ∉ m ∧ after = m.insert addr chain := by
  rw [MapOp.apply] at applied
  split at applied
  case isTrue => cases applied
  case isFalse absent => exact ⟨absent, (Option.some.inj applied).symm⟩

/-- Additions that were made were of absent keys, each once, by induction over them. -/
theorem absent_of_applyOps_add {addrs : List UInt32} {chain : String} {m after : FwMap}
    (applied : applyOps m (addrs.map (.add · chain)) = some after)
    : addrs.Nodup ∧ ∀ addr ∈ addrs, addr ∉ m := by
  induction addrs generalizing m with
  | nil => exact ⟨.nil, List.forall_mem_nil _⟩
  | cons first rest ih =>
      rw [applyOps, List.map_cons, List.foldlM_cons] at applied
      obtain ⟨next, added, later⟩ := Option.bind_eq_some_iff.mp applied
      obtain ⟨free, rfl⟩ := apply_add_eq_some added
      obtain ⟨once, absent⟩ := ih later
      simp only [AList.mem_insert, not_or] at absent
      refine ⟨List.nodup_cons.mpr ⟨fun member => (absent first member).1 rfl, once⟩, ?_⟩
      exact List.forall_mem_cons.mpr ⟨free, fun addr member => (absent addr member).2⟩

/-- One entry between commas: what stands before and after the first colon. -/
def fwmapElement (entry : List Char) : Option (String × String) := do
  let (addr, verdict) ← splitOnce ':' entry
  let chain ← stripStart "jump ".toList (trim verdict)
  let chain := trim chain
  let addr := trim addr
  guard (addr ≠ [] ∧ chain ≠ [])
  return (String.ofList addr, String.ofList chain)

/-- The addresses of a listing with their chains. -/
def parseFwmapElements (listing : List Char) : List (String × String) :=
  match cutAt "elements = \x7b".toList listing with
  | none => []
  | some (_, rest) =>
      let body :=
        match splitOnce '\x7d' rest with
        | some (body, _) => body
        | none => rest
      (body.splitOn ',').filterMap fwmapElement

/-- The characters of a chain's name. -/
def isNameChar (c : Char) : Bool :=
  c.isAlphanum || c == '_' || c == '-' || c == '.' || c == '/'

/-- One element as it is listed, with the blanks around it. -/
structure Element where
  front : List Char
  addr : UInt32
  chain : String
  back : List Char
  frontBlank : ∀ c ∈ front, isWhitespace c = true
  backBlank : ∀ c ∈ back, isWhitespace c = true
  named : chain ≠ "" ∧ chain.toList.all isNameChar = true

def Element.text (item : Element) : List Char :=
  item.front ++ (Cidr.fmtU32 item.addr).toList ++ " : jump ".toList ++ item.chain.toList
    ++ item.back

/-- The listings of a map: one without elements says so by having no list of them. -/
inductive Listed (m : FwMap) : List Char → Prop where
  | empty {listing : List Char} (nothing : m = ∅) (absent : '=' ∉ listing) : Listed m listing
  | elements {before after : List Char} {items : List Element} (some : items ≠ [])
    (absent : '=' ∉ before)
    (entries : ∀ addr chain, (∃ item ∈ items, item.addr = addr ∧ item.chain = chain)
      ↔ m.lookup addr = .some chain)
    : Listed m (before ++ "elements = \x7b".toList
        ++ ([','].intercalate (items.map Element.text) ++ '\x7d' :: after))

theorem isNameChar_range {c : Char} (kept : isNameChar c = true)
    : 45 ≤ c.toNat ∧ c.toNat ≤ 122 ∧ c.toNat ≠ 58 := by
  simp only [isNameChar, Bool.or_eq_true, beq_iff_eq] at kept
  obtain (((letter | rfl) | rfl) | rfl) | rfl := kept
  · have range := isAlphanum_iff.mp letter
    omega
  all_goals decide

theorem isWord_of_named {name : String} (named : name ≠ "" ∧ name.toList.all isNameChar = true)
    : IsWord name.toList where
  nonempty := by simpa using named.1
  visible c member := by
    have range := isNameChar_range (List.all_eq_true.mp named.2 c member)
    exact isWhitespace_eq_false_of_range (by omega) (by omega)

/-- A text without a character, from one that has none of its characters. -/
theorem Element.not_mem_text (item : Element) {c : Char} (visible : isWhitespace c = false)
    (other : isNameChar c = false) (mark : c ≠ ':')
    : c ∉ item.text := by
  have address : c ∉ (Cidr.fmtU32 item.addr).toList := by
    intro member
    rcases mem_dotted (by simpa [Cidr.fmtU32] using member) with rfl | digit
    · cases other
    · have isDigit : c.isDigit = true := by
        have zero : '0'.toNat = 48 := rfl
        have nine : '9'.toNat = 57 := rfl
        exact Char.isDigit_iff_toNat.mpr (by omega)
      simp [isNameChar, Char.isAlphanum, isDigit] at other
  have between : c ∉ " : jump ".toList := by
    intro member
    have all : ∀ d ∈ " : jump ".toList, d = ':' ∨ isWhitespace d = true ∨ isNameChar d = true :=
      List.all_iff_forall_prop.mp (by decide)
    rcases all c member with is | blank | kept
    · exact mark is
    · rw [visible] at blank
      cases blank
    · rw [other] at kept
      cases kept
  have named : c ∉ item.chain.toList := by
    intro member
    rw [List.all_eq_true.mp item.named.2 c member] at other
    cases other
  simp only [Element.text, List.mem_append, not_or]
  refine ⟨⟨⟨⟨?_, address⟩, between⟩, named⟩, ?_⟩
  · intro member
    rw [item.frontBlank c member] at visible
    cases visible
  · intro member
    rw [item.backBlank c member] at visible
    cases visible

theorem trim_word {word : List Char} (isWord : IsWord word) : trim word = word :=
  trim_eq_self isWord.visible

theorem trimStart_word {word : List Char} (isWord : IsWord word) : trimStart word = word := by
  obtain ⟨first, rest, rfl⟩ := List.exists_cons_of_ne_nil isWord.nonempty
  simp [trimStart, isWord.visible first (by simp)]

/-- An element is read as the address and the chain it lists. -/
theorem fwmapElement_text (item : Element)
    : fwmapElement item.text = some (Cidr.fmtU32 item.addr, item.chain) := by
  have address := isWord_fmtU32 item.addr
  have chain := isWord_of_named item.named
  have blank (s : List Char) : ∀ c ∈ [' '], isWhitespace c = true :=
    List.forall_mem_singleton.mpr rfl
  have early : ':' ∉ item.front ++ (Cidr.fmtU32 item.addr).toList ++ [' '] := by
    simp only [List.mem_append, not_or]
    refine ⟨⟨?_, ?_⟩, by decide⟩
    · intro member
      exact absurd (item.frontBlank ':' member) (by decide)
    · intro member
      rcases mem_dotted (by simpa [Cidr.fmtU32] using member) with dot | digit
      · exact absurd dot (by decide)
      · exact absurd digit.2 (by decide)
  have cut := splitOnce_append (" jump ".toList ++ item.chain.toList ++ item.back) early
  have shape : item.text = item.front ++ (Cidr.fmtU32 item.addr).toList ++ [' ']
      ++ ':' :: (" jump ".toList ++ item.chain.toList ++ item.back) := by
    simp [Element.text]
  have addr : trim (item.front ++ (Cidr.fmtU32 item.addr).toList ++ [' '])
      = (Cidr.fmtU32 item.addr).toList :=
    trim_padded item.frontBlank (blank []) (trim_word address) (trimStart_word address)
      address.nonempty
  have verdict : trim (" jump ".toList ++ item.chain.toList ++ item.back)
      = "jump ".toList ++ item.chain.toList := by
    obtain ⟨last, front, ends⟩ : ∃ last front, item.chain.toList = front ++ [last] :=
      ⟨_, _, (List.dropLast_append_getLast chain.nonempty).symm⟩
    have visible : isWhitespace last = false := chain.visible last (by simp [ends])
    have bounded := @trim_bounded 'j' last ("ump ".toList ++ front) rfl visible
    have core : "jump ".toList ++ item.chain.toList = 'j' :: ("ump ".toList ++ front ++ [last]) := by
      rw [ends]
      simp
    rw [show " jump ".toList ++ item.chain.toList = [' '] ++ ("jump ".toList ++ item.chain.toList)
      from rfl]
    refine trim_padded (blank []) item.backBlank ?_ ?_ (by simp)
    · rw [core]
      exact bounded
    · rfl
  have jump : stripStart "jump ".toList ("jump ".toList ++ item.chain.toList)
      = some item.chain.toList := stripStart_eq_some.mpr rfl
  rw [fwmapElement, shape, cut]
  simp only [Option.bind_eq_bind, Option.bind_some, verdict, jump, addr, trim_word chain]
  simp [guard, address.nonempty, chain.nonempty]

/-- The pairs read from a listing of a map are its entries. -/
theorem parseFwmapElements_listed {m : FwMap} {listing : List Char} (listed : Listed m listing)
    : ∃ pairs : List (UInt32 × String),
        parseFwmapElements listing = pairs.map (fun pair => (Cidr.fmtU32 pair.1, pair.2))
        ∧ ∀ addr chain, (addr, chain) ∈ pairs ↔ m.lookup addr = some chain := by
  cases listed with
  | empty nothing absent =>
      refine ⟨[], ?_, ?_⟩
      · rw [parseFwmapElements, cutAt_eq_none (by decide) absent]
        rfl
      · simp [nothing]
  | @elements before after items present absent entries =>
      refine ⟨items.map fun item => (item.addr, item.chain), ?_, ?_⟩
      · have mark := @cutAt_append _ " \x7b".toList _ _
          ([','].intercalate (items.map Element.text) ++ '\x7d' :: after)
          (show '=' ∉ "elements ".toList by decide) absent
        have closed : '\x7d' ∉ [','].intercalate (items.map Element.text) := by
          intro member
          have joined : '\x7d' ∈ (joinWith ',' (items.map (String.ofList ·.text))).toList := by
            simpa [joinWith, Function.comp_def] using member
          rcases mem_joinWith joined with comma | ⟨text, held, inside⟩
          · exact absurd comma (by decide)
          · obtain ⟨item, _, rfl⟩ := List.mem_map.mp held
            rw [String.toList_ofList] at inside
            exact item.not_mem_text (by decide) (by decide) (by decide) inside
        have cut : ([','].intercalate (items.map Element.text)).splitOn ','
            = items.map Element.text := by
          apply List.splitOn_intercalate
          · intro part member
            obtain ⟨item, _, rfl⟩ := List.mem_map.mp member
            exact item.not_mem_text (by decide) (by decide) (by decide)
          · simpa using present
        rw [parseFwmapElements, show "elements = \x7b".toList
          = "elements ".toList ++ '=' :: " \x7b".toList from rfl, mark]
        simp only [splitOnce_append after closed, cut, List.filterMap_map, List.map_map]
        rw [← List.filterMap_eq_map]
        congr 1
        funext item
        exact fwmapElement_text item
      · simpa using entries

end Delonix.Firewall
