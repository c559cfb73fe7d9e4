import Delonix.Library.Lines
import Delonix.Library.MarkedBlocks
import Delonix.Library.Words
import Mathlib.Data.Char
import Mathlib.Data.List.Dedup
import Mathlib.Data.List.Lex
import Mathlib.Data.List.Sort

/-! The hosts file of the host, with one block of names for each state root. A root writes its own
block anew and keeps every line outside of it as it is.
-/

namespace Delonix.Hosts

open Delonix.Library.Lines Delonix.Library.MarkedBlocks
  Delonix.Library.Text Delonix.Library.Words

abbrev Text := List Char

/-- A published name and the address it points at. -/
abbrev Entry := Text × Text

/-- FNV-1a over the bytes of a path. -/
def fnv64 (path : List UInt8) : UInt64 :=
  path.foldl (fun h b => (h ^^^ b.toUInt64) * 0x100000001b3) 0xcbf29ce484222325

/-- The identity of a state root: eight hexadecimal digits. -/
def rootId (path : List UInt8) : Text :=
  let digits := Nat.toDigits 16 (fnv64 path &&& 0xffffffff).toNat
  List.replicate (8 - digits.length) '0' ++ digits

def beginPrefix : Text := "# BEGIN delonix ".toList

def endPrefix : Text := "# END delonix ".toList

def beginLine (id : Text) : Text := beginPrefix ++ id ++ " (managed — do not edit)".toList

def endLine (id : Text) : Text := endPrefix ++ id

/-- The lines that begin and end the block of a root. -/
def marks (id : Text) : Marks Line where
  opens line := trim line = beginLine id
  closes line := trim line = endLine id

section

-- `str::to_lowercase`.
variable (lower : Text → Text)

def entryLine (entry : Entry) : Line := entry.2 ++ '\t' :: entry.1 ++ ['\n']

/-- The entries of the block in the order of their names, then of their addresses, each once. -/
def blockEntries (hosts : List Entry) : List Entry :=
  ((hosts.map fun entry => (lower entry.1, entry.2)).insertionSort fun a b =>
    a.1 < b.1 ∨ (a.1 = b.1 ∧ a.2 ≤ b.2)).dedup

/-- The lines of the block: none for no names. -/
def blockLines (id : Text) (hosts : List Entry) : List Line :=
  match blockEntries lower hosts with
  | [] => []
  | entries =>
      (beginLine id ++ ['\n']) :: entries.map entryLine
        ++ [endLine id ++ ['\n']]

def block (id : Text) (hosts : List Entry) : Text := (blockLines lower id hosts).flatten

structure Scan where
  kept : List Line
  inside : Bool
  /-- How many lines are kept before the block. -/
  place : Option Nat

def Scan.step (id : Text) (s : Scan) (line : Line) : Scan :=
  if trim line = beginLine id then { s with inside := true, place := some s.kept.length }
  else if s.inside then
    if trim line = endLine id then { s with inside := false } else s
  else { s with kept := s.kept ++ [line] }

def scan (id : Text) (lines : List Line) : Scan :=
  lines.foldl (Scan.step id) { kept := [], inside := false, place := none }

/-- The names a line gives an address to, without its comment. -/
def hostNames (line : Line) : List Text := (splitWhitespace (line.takeWhile (· ≠ '#'))).tail

def wanted (hosts : List Entry) : List Text := hosts.map fun entry => lower entry.1

def noEndText (path id : Text) : Text :=
  "hosts: the delonix block of this state root in ".toList ++ path
    ++ " has no END line (a hand edit?) — restore the line '".toList ++ endLine id
    ++ "' or delete the block by hand, then apply again".toList

def twoAddressesText (name a b : Text) : Text :=
  "hosts: '".toList ++ name ++ "' is published with two addresses (".toList ++ a
    ++ " and ".toList ++ b ++ ") — two routes claim it from different pools".toList

def takenText (path name : Text) (line : Line) : Text :=
  "hosts: '".toList ++ name ++ "' already has an entry in ".toList ++ path
    ++ " outside this state root's delonix block (a hand-written line, or another state ".toList
    ++ "root's block) — remove it or drop the name from the route: ".toList ++ trim line

/-- A name that is published with two addresses, with both. -/
def twoAddresses : List (Text × Text) → List Entry → Option (Text × Text × Text)
  | _, [] => none
  | seen, (name, addr) :: rest =>
      match seen.lookup (lower name) with
      | some known => if known ≠ addr then some (name, known, addr) else twoAddresses seen rest
      | none => twoAddresses ((lower name, addr) :: seen) rest

/-- A wanted name that a line gives an address to. -/
def takenName (hosts : List Entry) (line : Line) : Option Text :=
  (hostNames line).find? fun name => (wanted lower hosts).contains (lower name)

/-- The file with the block of the root written anew, where it was or at the end. -/
def render (path existing : Text) (hosts : List Entry) (id : Text) : Except Text Text :=
  let s := scan id (splitInclusive existing)
  if s.inside then .error (noEndText path id)
  else
    match twoAddresses lower [] hosts with
    | some (name, a, b) => .error (twoAddressesText name a b)
    | none =>
        match s.kept.findSome? fun line => (takenName lower hosts line).map (·, line) with
        | some (name, line) => .error (takenText path name line)
        | none =>
            let place := s.place.getD s.kept.length
            .ok (closeLine (s.kept.take place).flatten ++ block lower id hosts
              ++ (s.kept.drop place).flatten)

/-- What is written to the file, if anything. It is read again once the lock is held. -/
def syncAt (path old reread : Text) (hosts : List Entry) (id : Text)
    : Except Text (Option Text) := do
  let new ← render lower path old hosts id
  if new = old then return none
  else
    let new ← if reread = old then pure new else render lower path reread hosts id
    if new = reread then return none else return some new

end

theorem visible_toDigits {n : Nat} {c : Char} (member : c ∈ Nat.toDigits 16 n)
    : isWhitespace c = false := by
  have digit : ∀ d < 16, isWhitespace (Nat.digitChar d) = false := by decide
  induction n using Nat.strongRecOn with
  | _ n ih =>
      rw [Nat.toDigits_eq_if (by decide)] at member
      split at member
      case isTrue small =>
        rw [List.mem_singleton.mp member]
        exact digit n small
      case isFalse large =>
        obtain front | last := List.mem_append.mp member
        · exact ih (n / 16) (by omega) front
        · rw [List.mem_singleton.mp last]
          exact digit (n % 16) (by omega)

theorem isWord_rootId (path : List UInt8) : IsWord (rootId path) where
  nonempty := by simp [rootId]
  visible := by
    intro c member
    obtain zero | digit := List.mem_append.mp member
    · rw [List.eq_of_mem_replicate zero]
      decide
    · exact visible_toDigits digit

theorem beginLine_ne_endLine (id id' : Text) : beginLine id ≠ endLine id' := by
  intro same
  have third : (beginLine id)[2]? = (endLine id')[2]? := by rw [same]
  have b : (beginLine id)[2]? = some 'B' := rfl
  have e : (endLine id')[2]? = some 'E' := rfl
  rw [b, e] at third
  revert third
  decide

theorem beginLine_inj {id id' : Text} (same : beginLine id = beginLine id') : id = id' :=
  List.append_cancel_left (List.append_cancel_right same)

theorem endLine_inj {id id' : Text} (same : endLine id = endLine id') : id = id' :=
  List.append_cancel_left same

theorem trim_of_ends {s : List Char} (start : ∀ c ∈ s.head?, isWhitespace c = false)
    (stop : ∀ c ∈ s.getLast?, isWhitespace c = false)
    : trim s = s := by
  have front : trimStart s = s := by
    cases s with
    | nil => rfl
    | cons c rest =>
        rw [trimStart, List.dropWhile_cons_of_neg]
        simpa using start c rfl
  rw [trim, front, trimEnd, List.rdropWhile_eq_self_iff]
  intro nonempty
  simpa using stop _ (List.getLast?_eq_some_getLast nonempty)

theorem trim_beginLine (id : Text) : trim (beginLine id) = beginLine id := by
  refine trim_of_ends ?_ ?_
  · intro c first
    cases first
    decide
  · intro c last
    have is : (beginLine id).getLast? = some ')' := by
      rw [beginLine, List.getLast?_append_of_ne_nil _ (by decide)]
      rfl
    rw [is] at last
    cases last
    decide

theorem trim_endLine {id : Text} (word : IsWord id) : trim (endLine id) = endLine id := by
  refine trim_of_ends ?_ ?_
  · intro c first
    cases first
    decide
  · intro c last
    rw [endLine, List.getLast?_append_of_ne_nil _ word.nonempty] at last
    exact word.visible c (List.mem_of_getLast? last)

theorem trim_broken (s : List Char) : trim (s ++ ['\n']) = trim s := by
  by_cases blank : ∀ c ∈ s, isWhitespace c = true
  · have all : ∀ c ∈ s ++ ['\n'], isWhitespace c = true := by
      intro c member
      obtain inside | last := List.mem_append.mp member
      · exact blank c inside
      · rw [List.mem_singleton.mp last]
        decide
    rw [trim, trim, trimStart, trimStart, List.dropWhile_eq_nil_iff.mpr all,
      List.dropWhile_eq_nil_iff.mpr blank]
  · have some : s.dropWhile isWhitespace ≠ [] := by
      intro none
      exact blank (List.dropWhile_eq_nil_iff.mp none)
    rw [trim, trim, trimStart, trimStart, List.dropWhile_append, if_neg (by simpa using some),
      trimEnd, List.rdropWhile_concat_pos _ _ _ (by decide)]
    rfl

theorem trim_closeLine (s : List Char) : trim (closeLine s) = trim s := by
  rw [closeLine]
  split
  · exact trim_broken s
  · rfl

/-- A text that begins with a visible character still does once it is trimmed. -/
theorem trim_visible {c : Char} (visible : isWhitespace c = false) (s : List Char)
    : ∃ rest, trim (c :: s) = c :: rest := by
  have front : trimStart (c :: s) = c :: s := by
    rw [trimStart, List.dropWhile_cons_of_neg (by simp [visible])]
  obtain ⟨blank, is, all⟩ := trimEnd_spec (c :: s)
  rw [trim, front]
  cases found : trimEnd (c :: s) with
  | nil =>
      rw [found, List.nil_append] at is
      have := all c (by simp [← is])
      simp [visible] at this
  | cons d rest =>
      rw [found] at is
      exact ⟨rest, by rw [(List.cons.inj is).1]⟩

theorem respects_closeLine (id : Text) : (marks id).Respects closeLine where
  opens line := by simp only [marks, trim_closeLine]
  closes line := by simp only [marks, trim_closeLine]

/-- A name or an address as the callers pass it: one word that begins no comment. -/
structure Plain (s : Text) : Prop where
  word : IsWord s
  uncommented : '#' ∉ s

/-- What the lowercase mapping does to names. -/
structure Lowercase (lower : Text → Text) : Prop where
  twice : ∀ s, lower (lower s) = lower s
  plain : ∀ s, Plain s → Plain (lower s)

def PlainEntry (entry : Entry) : Prop := Plain entry.1 ∧ Plain entry.2

section

variable {lower : Text → Text} {hosts : List Entry}

theorem mem_blockEntries {entry : Entry}
    : entry ∈ blockEntries lower hosts ↔ ∃ given ∈ hosts, (lower given.1, given.2) = entry := by
  simp [blockEntries]

theorem blockEntries_eq_nil : blockEntries lower hosts = [] ↔ hosts = [] := by
  constructor
  · intro none
    cases hosts with
    | nil => rfl
    | cons entry rest =>
        have member : (lower entry.1, entry.2) ∈ blockEntries lower (entry :: rest) :=
          mem_blockEntries.mpr ⟨entry, by simp, rfl⟩
        rw [none] at member
        cases member
  · rintro rfl
    rfl

theorem plain_blockEntries (laws : Lowercase lower) (plain : ∀ entry ∈ hosts, PlainEntry entry)
    : ∀ entry ∈ blockEntries lower hosts, PlainEntry entry := by
  intro entry member
  obtain ⟨given, mem, rfl⟩ := mem_blockEntries.mp member
  exact ⟨laws.plain _ (plain given mem).1, (plain given mem).2⟩

theorem blockLines_nil (id : Text) : blockLines lower id [] = [] := rfl

theorem blockLines_of_ne_nil (id : Text) (some : hosts ≠ [])
    : blockLines lower id hosts
      = (beginLine id ++ ['\n']) :: (blockEntries lower hosts).map entryLine
        ++ [endLine id ++ ['\n']] := by
  rw [blockLines]
  split
  case h_1 none => exact absurd (blockEntries_eq_nil.mp none) some
  case h_2 => rfl

theorem not_mem_of_visible {s : Text} (visible : ∀ c ∈ s, isWhitespace c = false) : '\n' ∉ s :=
  fun member => by simpa [isWhitespace] using visible _ member

theorem unmarked_entryLine {entry : Entry} (plain : PlainEntry entry) (id : Text)
    : (marks id).Unmarked (entryLine entry) := by
  obtain ⟨⟨-, -⟩, ⟨nonempty, visible⟩, uncommented⟩ := plain
  obtain ⟨c, rest, spelled⟩ := List.exists_cons_of_ne_nil nonempty
  rw [spelled] at visible uncommented
  obtain ⟨trimmed, is⟩ := trim_visible (visible c (by simp))
    (rest ++ '\t' :: entry.1 ++ ['\n'])
  have line : trim (entryLine entry) = c :: trimmed := by
    rw [entryLine, spelled, ← is]
    simp
  have other : c ≠ '#' := fun same => uncommented (by simp [same])
  constructor
  · simp only [marks, line, decide_eq_false_iff_not]
    exact fun same => other (List.cons.inj same).1
  · simp only [marks, line, decide_eq_false_iff_not]
    exact fun same => other (List.cons.inj same).1

theorem opens_beginLine (id other : Text)
    : (marks other).opens (beginLine id ++ ['\n']) = decide (id = other) := by
  simp only [marks, trim_broken, trim_beginLine, decide_eq_decide]
  exact ⟨beginLine_inj, fun same => by rw [same]⟩

theorem closes_beginLine (id other : Text)
    : (marks other).closes (beginLine id ++ ['\n']) = false := by
  simp only [marks, trim_broken, trim_beginLine, decide_eq_false_iff_not]
  exact beginLine_ne_endLine id other

theorem opens_endLine {id : Text} (word : IsWord id) (other : Text)
    : (marks other).opens (endLine id ++ ['\n']) = false := by
  simp only [marks, trim_broken, trim_endLine word, decide_eq_false_iff_not]
  exact fun same => beginLine_ne_endLine other id same.symm

theorem closes_endLine {id : Text} (word : IsWord id) (other : Text)
    : (marks other).closes (endLine id ++ ['\n']) = decide (id = other) := by
  simp only [marks, trim_broken, trim_endLine word, decide_eq_decide]
  exact ⟨endLine_inj, fun same => by rw [same]⟩

theorem oneBlock_blockLines (laws : Lowercase lower) (plain : ∀ entry ∈ hosts, PlainEntry entry)
    {id : Text} (word : IsWord id)
    : (marks id).OneBlock (blockLines lower id hosts) := by
  by_cases some : hosts = []
  · rw [some]
    exact .none
  · rw [blockLines_of_ne_nil id some]
    refine .block (by simp [opens_beginLine]) ?_ (opens_endLine word id)
      (by simp [closes_endLine word])
    intro line member
    obtain ⟨entry, mem, rfl⟩ := List.mem_map.mp member
    exact unmarked_entryLine (plain_blockEntries laws plain entry mem) id

theorem unmarked_blockLines (laws : Lowercase lower) (plain : ∀ entry ∈ hosts, PlainEntry entry)
    {id other : Text} (word : IsWord id) (different : id ≠ other)
    : ∀ line ∈ blockLines lower id hosts, (marks other).Unmarked line := by
  by_cases some : hosts = []
  · simp [some, blockLines_nil]
  · rw [blockLines_of_ne_nil id some]
    intro line member
    simp only [List.cons_append, List.mem_cons, List.mem_append, List.mem_map,
      List.not_mem_nil, or_false] at member
    obtain rfl | ⟨entry, mem, rfl⟩ | rfl := member
    · exact ⟨by simp [opens_beginLine, different], closes_beginLine id other⟩
    · exact unmarked_entryLine (plain_blockEntries laws plain entry mem) other
    · exact ⟨opens_endLine word other, by simp [closes_endLine word, different]⟩

theorem closed_blockLines (laws : Lowercase lower) (plain : ∀ entry ∈ hosts, PlainEntry entry)
    {id : Text} (word : IsWord id)
    : ∀ line ∈ blockLines lower id hosts, Closed line := by
  have single := not_mem_of_visible word.visible
  by_cases some : hosts = []
  · simp [some, blockLines_nil]
  · rw [blockLines_of_ne_nil id some]
    intro line member
    simp only [List.cons_append, List.mem_cons, List.mem_append, List.mem_map,
      List.not_mem_nil, or_false] at member
    obtain rfl | ⟨entry, mem, rfl⟩ | rfl := member
    · refine ⟨_, ?_, rfl⟩
      have start : '\n' ∉ beginPrefix := by decide
      have stop : '\n' ∉ " (managed — do not edit)".toList := by decide
      simp only [beginLine, List.mem_append, not_or]
      exact ⟨⟨start, single⟩, stop⟩
    · obtain ⟨⟨name, -⟩, ⟨addr, -⟩⟩ := plain_blockEntries laws plain entry mem
      refine ⟨_, ?_, rfl⟩
      simp [not_mem_of_visible name.visible, not_mem_of_visible addr.visible]
    · refine ⟨_, ?_, rfl⟩
      have start : '\n' ∉ endPrefix := by decide
      simp only [endLine, List.mem_append, not_or]
      exact ⟨start, single⟩

theorem foldl_step (id : Text) (s : Scan) (lines : List Line)
    : (lines.foldl (Scan.step id) s).kept = s.kept ++ (marks id).left s.inside lines
      ∧ (lines.foldl (Scan.step id) s).inside = (marks id).openAfter s.inside lines := by
  induction lines generalizing s with
  | nil => simp [Marks.left, Marks.openAfter]
  | cons line rest ih =>
      obtain ⟨kept, inside⟩ := ih (Scan.step id s line)
      have next : (marks id).openAfter s.inside (line :: rest)
          = (marks id).openAfter ((marks id).after s.inside line) rest := rfl
      rw [List.foldl_cons, kept, inside, Marks.left, next]
      by_cases opens : trim line = beginLine id
      · simp [Scan.step, marks, Marks.after, opens]
      · by_cases closes : trim line = endLine id
        · have never := (beginLine_ne_endLine id id).symm
          cases open_ : s.inside <;> simp [Scan.step, marks, Marks.after, closes, open_, never]
        · cases open_ : s.inside <;> simp [Scan.step, marks, Marks.after, opens, closes, open_]

theorem foldl_step_place {id : Text} (s : Scan) {lines : List Line}
    (none : ∀ line ∈ lines, (marks id).opens line = false)
    : (lines.foldl (Scan.step id) s).place = s.place := by
  induction lines generalizing s with
  | nil => rfl
  | cons line rest ih =>
      obtain ⟨here, later⟩ := List.forall_mem_cons.mp none
      have here : trim line ≠ beginLine id := by simpa [marks] using here
      rw [List.foldl_cons, ih _ later, Scan.step, if_neg here]
      split
      · split <;> rfl
      · rfl

theorem scan_kept (id : Text) (lines : List Line)
    : (scan id lines).kept = (marks id).left false lines :=
  (foldl_step id _ lines).1

theorem scan_inside (id : Text) (lines : List Line)
    : (scan id lines).inside = (marks id).openAfter false lines :=
  (foldl_step id _ lines).2

theorem scan_place {id : Text} {lines front back : List Line}
    (placed : (marks id).Placed lines front back)
    : (scan id lines).place.getD (scan id lines).kept.length = front.length := by
  rw [scan_kept, placed.left]
  cases placed with
  | last none =>
      rw [scan, foldl_step_place _ none]
      simp
  | @there front back line opens none =>
      have opens : trim line = beginLine id := by simpa [marks] using opens
      rw [scan, List.foldl_append, List.foldl_cons, foldl_step_place _ none, Scan.step,
        if_pos opens, Option.getD_some, (foldl_step id _ front).1, List.nil_append]

/-- What a file is rendered to, and when it is. -/
theorem render_eq_ok {path existing : Text} {id y : Text} {front back : List Line}
    (placed : (marks id).Placed (splitInclusive existing) front back)
    : render lower path existing hosts id = .ok y
      ↔ (marks id).openAfter false (splitInclusive existing) = false
        ∧ twoAddresses lower [] hosts = none
        ∧ (∀ line ∈ front ++ back, takenName lower hosts line = none)
        ∧ y = closeLine front.flatten ++ block lower id hosts ++ back.flatten := by
  have place := scan_place placed
  rw [scan_kept, placed.left] at place
  have kept : ((marks id).left false (splitInclusive existing)).findSome?
        (fun line => (takenName lower hosts line).map (·, line)) = none
      ↔ ∀ line ∈ front ++ back, takenName lower hosts line = none := by
    rw [placed.left, List.findSome?_eq_none_iff]
    simp
  simp only [render, scan_inside, scan_kept]
  cases inside : (marks id).openAfter false (splitInclusive existing) with
  | true => simp
  | false =>
      cases two : twoAddresses lower [] hosts with
      | some found => simp
      | none =>
          rw [← kept]
          cases taken : ((marks id).left false (splitInclusive existing)).findSome?
              (fun line => (takenName lower hosts line).map (·, line)) with
          | some found => simp
          | none =>
              simp only [Bool.false_eq_true, if_false, placed.left, place,
                List.take_left, List.drop_left, Except.ok.injEq, true_and]
              exact eq_comm

end

end Delonix.Hosts
