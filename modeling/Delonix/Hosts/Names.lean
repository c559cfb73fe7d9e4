import Delonix.Hosts.OwnBlock

/-! Every wanted name is found once in the written file: on its line of the block.
-/

namespace Delonix.Hosts

open Delonix.Library.Lines Delonix.Library.MarkedBlocks
open Delonix.Library.Words (IsWord splitWhitespace splitWhitespace_append splitWhitespace_word)

variable {lower : Text → Text} {path existing y : Text} {hosts : List Entry} {id : Text}

/-- The line gives the name an address, in whatever case. -/
def names (lower : Text → Text) (w : Text) (line : Line) : Bool :=
  ((hostNames line).map lower).contains w

/-- Each wanted name has one line. -/
def Named (lower : Text → Text) (hosts : List Entry) (y : Text) : Prop :=
  ∀ w ∈ wanted lower hosts, ((splitInclusive y).filter (names lower w)).length = 1

theorem hostNames_entryLine {entry : Entry} (plain : PlainEntry entry)
    : hostNames (entryLine entry) = [entry.1] := by
  obtain ⟨⟨name, name_plain⟩, ⟨addr, addr_plain⟩⟩ := plain
  have whole : (entryLine entry).takeWhile (· ≠ '#') = entry.2 ++ '\t' :: (entry.1 ++ ['\n']) := by
    have spelled : entryLine entry = entry.2 ++ '\t' :: (entry.1 ++ ['\n']) := by
      simp [entryLine]
    rw [spelled, List.takeWhile_eq_self_iff]
    intro c member
    simp only [List.mem_append, List.mem_cons, List.not_mem_nil, or_false] at member
    rw [decide_eq_true_eq]
    rintro rfl
    obtain inAddr | tab | inName | break_ := member
    · exact addr_plain inAddr
    · revert tab
      decide
    · exact name_plain inName
    · revert break_
      decide
  rw [hostNames, whole, splitWhitespace_append (by decide), splitWhitespace_word addr,
    splitWhitespace_append (by decide), splitWhitespace_word name]
  simp [splitWhitespace]

theorem hostNames_comment {line : Line} (comment : line.head? = some '#')
    : hostNames line = [] := by
  cases line with
  | nil => cases comment
  | cons c rest =>
      cases comment
      rfl

/-- A line on which no wanted name was found gives none of them an address. -/
theorem names_of_not_taken {line : Line} (none : takenName lower hosts line = none) {w : Text}
    (asked : w ∈ wanted lower hosts)
    : names lower w line = false := by
  rw [takenName, List.find?_eq_none] at none
  by_contra found
  rw [Bool.not_eq_false, names, List.contains_iff_mem, List.mem_map] at found
  obtain ⟨name, mem, rfl⟩ := found
  exact none name mem (by simpa using asked)

/-- Names in the same spelling up to case have the same address. -/
theorem twoAddresses_eq_none {seen : List (Text × Text)} {hosts : List Entry}
    (single : twoAddresses lower seen hosts = none)
    : ∃ addressOf : Text → Option Text,
        (∀ name known, seen.lookup name = some known → addressOf name = some known)
        ∧ ∀ entry ∈ hosts, addressOf (lower entry.1) = some entry.2 := by
  induction hosts generalizing seen with
  | nil => exact ⟨fun name => seen.lookup name, fun _ _ found => found, by simp⟩
  | cons entry rest ih =>
      obtain ⟨name, addr⟩ := entry
      rw [twoAddresses] at single
      cases known : seen.lookup (lower name) with
      | some first =>
          simp only [known] at single
          split at single
          · cases single
          case isFalse same =>
            obtain ⟨addressOf, earlier, later⟩ := ih single
            refine ⟨addressOf, earlier, List.forall_mem_cons.mpr ⟨?_, later⟩⟩
            rw [earlier _ _ known, Decidable.not_not.mp same]
      | none =>
          simp only [known] at single
          obtain ⟨addressOf, earlier, later⟩ := ih single
          refine ⟨addressOf, fun other first found => earlier other first ?_,
            List.forall_mem_cons.mpr ⟨earlier _ _ (by simp), later⟩⟩
          by_cases mine : other = lower name
          · rw [mine, known] at found
            cases found
          · rw [List.lookup_cons, beq_false_of_ne mine]
            exact found

theorem length_filter_eq_one {α : Type} [DecidableEq α] {items : List α} {item : α}
    {chosen : α → Bool} (unique : items.Nodup) (member : item ∈ items)
    (only : ∀ other ∈ items, chosen other = decide (other = item))
    : (items.filter chosen).length = 1 := by
  rw [← List.countP_eq_length_filter, List.countP_congr fun other mem => by rw [only other mem]]
  exact List.count_eq_one_of_mem unique member

theorem named_render (laws : Lowercase lower) (plain : ∀ entry ∈ hosts, PlainEntry entry)
    (word : IsWord id) (ok : render lower path existing hosts id = .ok y)
    : Named lower hosts y := by
  intro w asked
  obtain ⟨⟨name, addr⟩, given, is⟩ := List.mem_map.mp asked
  have asking : hosts ≠ [] := List.ne_nil_of_mem given
  obtain ⟨before, after, was⟩ := Marks.exists_placed (m := marks id) (splitInclusive existing)
  obtain ⟨-, single, -, -⟩ := (render_eq_ok was).mp ok
  obtain ⟨addressOf, -, addresses⟩ := twoAddresses_eq_none single
  obtain ⟨front, back, placed, written, -⟩ :=
    lines_render laws plain word ok fun nobody => absurd nobody asking
  have free := not_taken ok placed
  have none : ∀ lines : List Line, (∀ line ∈ lines, line ∈ front ++ back)
      → lines.filter (names lower w) = [] := by
    intro lines inside
    refine List.filter_eq_nil_iff.mpr fun line member => ?_
    rw [names_of_not_taken (free line (inside line member)) asked]
    decide
  have comments : ∀ line : Line, line.head? = some '#' → [line].filter (names lower w) = [] := by
    intro line comment
    simp [names, hostNames_comment comment]
  have first := comments (beginLine id ++ ['\n']) rfl
  have last := comments (endLine id ++ ['\n']) rfl
  have lowered : ∀ entry ∈ blockEntries lower hosts, lower entry.1 = entry.1
      ∧ addressOf entry.1 = some entry.2 := by
    intro entry member
    obtain ⟨given, mem, rfl⟩ := mem_blockEntries.mp member
    exact ⟨laws.twice _, addresses given mem⟩
  have entries : (((blockEntries lower hosts).map entryLine).filter (names lower w)).length
      = 1 := by
    rw [List.filter_map, List.length_map]
    have mine : (w, addr) ∈ blockEntries lower hosts :=
      mem_blockEntries.mpr ⟨(name, addr), given, by rw [is]⟩
    refine length_filter_eq_one (List.nodup_dedup _) mine fun entry member => ?_
    obtain ⟨same, address⟩ := lowered entry member
    rw [Function.comp_apply, names,
      hostNames_entryLine (plain_blockEntries laws plain entry member), List.map_cons, List.map_nil,
      same]
    by_cases mine' : entry.1 = w
    · have address' := (lowered _ mine).2
      rw [mine'] at address
      have addr_same := Option.some.inj (address.symm.trans address')
      have whole : entry = (w, addr) := Prod.ext mine' addr_same
      simp [whole]
    · have other : entry ≠ (w, addr) := fun same => mine' (by rw [same])
      simp [other, Ne.symm mine']
  rw [written, List.filter_append, List.filter_append, none front (by simp +contextual),
    none back (by simp +contextual), blockLines_of_ne_nil id asking, List.cons_append,
    ← List.singleton_append, List.filter_append, List.filter_append, first, last]
  simpa using entries

end Delonix.Hosts
