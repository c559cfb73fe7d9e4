import Delonix.Hosts.Render

/-! A root that renders the hosts file touches its own block only. The file as it is written is the
lines outside of the block with the new block in the old one's place, or at the end after a line
that may first have to be ended.
-/

namespace Delonix.Hosts

open Delonix.Library.Lines Delonix.Library.MarkedBlocks
open Delonix.Library.Words (IsWord splitWhitespace splitWhitespace_append)

variable {lower : Text → Text} {path existing y : Text} {hosts : List Entry} {id : Text}

/-- There are names to write and no block of the root to write them in place of. -/
def Appends (id : Text) (hosts : List Entry) (lines : List Line) : Prop :=
  hosts ≠ [] ∧ ∀ line ∈ lines, (marks id).opens line = false

instance (id : Text) (hosts : List Entry) (lines : List Line)
    : Decidable (Appends id hosts lines) :=
  inferInstanceAs (Decidable (_ ∧ _))

/-- The lines of the file as the block finds them: a new block begins on a line of its own. -/
def ready (id : Text) (hosts : List Entry) (lines : List Line) : List Line :=
  if Appends id hosts lines then lines.map closeLine else lines

/-- No block of the root is left unfinished before another one, and where the root has no names the
lines outside of its blocks end with a line break.
-/
structure Tidy (id : Text) (hosts : List Entry) (existing : Text) : Prop where
  unnested : (marks id).unnested false (splitInclusive existing) = true
  ended : hosts = [] → Ended ((marks id).outside false (splitInclusive existing)).flatten

instance (id : Text) (hosts : List Entry) (existing : Text) : Decidable (Tidy id hosts existing) :=
  decidable_of_iff ((marks id).unnested false (splitInclusive existing) = true
      ∧ (hosts = [] → Ended ((marks id).outside false (splitInclusive existing)).flatten))
    ⟨fun both => ⟨both.1, both.2⟩, fun tidy => ⟨tidy.unnested, tidy.ended⟩⟩

theorem ready_eq (id : Text) (hosts : List Entry) (lines : List Line)
    : ready id hosts lines = lines ∨ ready id hosts lines = lines.map closeLine
      ∧ hosts ≠ [] ∧ ∀ line ∈ lines, (marks id).opens line = false := by
  rw [ready]
  split
  case isTrue both => exact .inr ⟨rfl, both⟩
  case isFalse => exact .inl rfl

theorem ready_of_opens {lines : List Line} {line : Line} (member : line ∈ lines)
    (opens : (marks id).opens line = true)
    : ready id hosts lines = lines := by
  rw [ready, if_neg]
  rintro ⟨-, none⟩
  rw [none line member] at opens
  cases opens

theorem not_opens_map_closeLine {lines : List Line}
    (none : ∀ line ∈ lines, (marks id).opens line = false)
    : ∀ line ∈ lines.map closeLine, (marks id).opens line = false := by
  intro line member
  obtain ⟨old, mem, rfl⟩ := List.mem_map.mp member
  rw [(respects_closeLine id).opens]
  exact none old mem

theorem wellMarked_ready (other : Text) {lines : List Line}
    (well : (marks other).WellMarked false lines)
    : (marks other).WellMarked false (ready id hosts lines) := by
  obtain same | ⟨closed, -⟩ := ready_eq id hosts lines
  · rwa [same]
  · rw [closed]
    exact (respects_closeLine other).wellMarked well

theorem apart_ready {other other' : Text} {lines : List Line}
    (apart : Marks.Apart (marks other) (marks other') false false lines)
    : Marks.Apart (marks other) (marks other') false false (ready id hosts lines) := by
  obtain same | ⟨closed, -⟩ := ready_eq id hosts lines
  · rwa [same]
  · rw [closed]
    exact apart.map (respects_closeLine other) (respects_closeLine other')

theorem Tidy.wellMarked (tidy : Tidy id hosts existing)
    (closed : (marks id).openAfter false (splitInclusive existing) = false)
    : (marks id).WellMarked false (splitInclusive existing) :=
  ⟨tidy.unnested, closed⟩

/-- The file is closed where the block stands, and is that of the lines around it. -/
theorem splitInclusive_written (laws : Lowercase lower) (plain : ∀ entry ∈ hosts, PlainEntry entry)
    (word : IsWord id) {front back : List Line} (closed : ∀ line ∈ front, Closed line)
    (cut : Cut back)
    : splitInclusive (front.flatten ++ block lower id hosts ++ back.flatten)
      = front ++ blockLines lower id hosts ++ back := by
  have all : ∀ line ∈ front ++ blockLines lower id hosts, Closed line := by
    intro line member
    obtain inFront | inBlock := List.mem_append.mp member
    · exact closed line inFront
    · exact closed_blockLines laws plain word line inBlock
  rw [block, ← List.flatten_append, ← List.flatten_append]
  exact splitInclusive_flatten (Cut.append all cut)

theorem closed_left (id : Text) (opened : Bool) {lines : List Line}
    (closed : ∀ line ∈ lines, Closed line)
    : ∀ line ∈ (marks id).left opened lines, Closed line :=
  fun line member => closed line ((Marks.left_sublist opened lines).subset member)

/-- The written file, line by line: the block stands in its place among the lines outside of the
root's old blocks.
-/
theorem lines_render (laws : Lowercase lower) (plain : ∀ entry ∈ hosts, PlainEntry entry)
    (word : IsWord id) (ok : render lower path existing hosts id = .ok y)
    (ended : hosts = [] → Ended ((marks id).left false (splitInclusive existing)).flatten)
    : ∃ front back,
        (marks id).Placed (ready id hosts (splitInclusive existing)) front back
        ∧ splitInclusive y = front ++ blockLines lower id hosts ++ back
        ∧ (∀ line ∈ front, Closed line) := by
  obtain ⟨front, back, placed⟩ := Marks.exists_placed (m := marks id) (splitInclusive existing)
  obtain ⟨-, -, -, rfl⟩ := (render_eq_ok placed).mp ok
  have cut := cut_splitInclusive existing
  generalize splitInclusive existing = lines at *
  cases placed with
  | last none =>
      have closed := cut.closed_closeLine
      have written := splitInclusive_written laws plain word closed .nil
      rw [flatten_map_closeLine cut] at written
      have ready_closed : ready id hosts front = front.map closeLine := by
        by_cases nobody : hosts = []
        · rw [ready, if_neg (by simp [Appends, nobody])]
          have ended := ended nobody
          rw [Marks.left_of_not_opens none] at ended
          exact (map_closeLine_of_closed (cut.closed_of_ended ended)).symm
        · rw [ready, if_pos ⟨nobody, none⟩]
      refine ⟨front.map closeLine, [], ?_, written, closed⟩
      rw [ready_closed]
      exact .last (not_opens_map_closeLine none)
  | @there before after line opens none =>
      have closed := closed_left id false (cut.closed_front (by simp))
      refine ⟨_, (marks id).left true after, ?_, ?_, closed⟩
      · have member : line ∈ before ++ line :: after := by simp
        rw [ready_of_opens member opens]
        exact .there opens none
      · rw [closeLine_of_ended (ended_flatten_of_closed closed)]
        refine splitInclusive_written laws plain word closed (cut.sublist ?_)
        refine (Marks.left_sublist true after).trans ?_
        exact (List.sublist_cons_self line after).trans (List.sublist_append_right before _)

theorem not_opens_front {m : Marks Line} {lines front back : List Line}
    (placed : m.Placed lines front back)
    : (∀ line ∈ front, m.opens line = false) ∧ ∀ line ∈ back, m.opens line = false := by
  have none : ∀ line ∈ m.left false lines, m.opens line = false := Marks.not_opens_left
  rw [placed.left] at none
  exact List.forall_mem_append.mp none

/-- What a root that renders the file promises for itself: the lines outside of its blocks are
those there were, rendering again changes nothing, and with nothing to write nothing is written.
-/
structure OwnKept (lower : Text → Text) (path existing : Text) (hosts : List Entry) (id y : Text)
    : Prop where
  frame : (marks id).outside false (splitInclusive y)
    = (marks id).outside false (ready id hosts (splitInclusive existing))
  again : render lower path y hosts id = .ok y
  idle : hosts = [] → (∀ line ∈ splitInclusive existing, (marks id).opens line = false)
    → y = existing ∧ ∀ reread, syncAt lower path existing reread hosts id = .ok none

/-- Nothing is written when the file renders to itself. -/
theorem syncAt_unchanged (reread : Text)
    (ok : render lower path existing hosts id = .ok existing)
    : syncAt lower path existing reread hosts id = .ok none := by
  simp [syncAt, ok, bind, Except.bind, pure, Except.pure]

theorem blockLines_ne_nil (some : hosts ≠ []) : blockLines lower id hosts ≠ [] := by
  rw [blockLines_of_ne_nil id some]
  simp

/-- A line break at the end of a line is no part of a name. -/
theorem hostNames_closeLine (line : Line) : hostNames (closeLine line) = hostNames line := by
  rw [closeLine]
  split
  case isFalse => rfl
  case isTrue =>
    rw [hostNames, hostNames, List.takeWhile_append]
    split
    case isTrue whole =>
      have single : ['\n'].takeWhile (· ≠ '#') = ['\n'] := rfl
      rw [single, splitWhitespace_append (by decide),
        (List.takeWhile_prefix _).eq_of_length whole]
      simp [splitWhitespace]
    case isFalse => rfl

theorem takenName_closeLine (line : Line)
    : takenName lower hosts (closeLine line) = takenName lower hosts line := by
  rw [takenName, takenName, hostNames_closeLine]

/-- No line of the written file that is not of the block has a wanted name. -/
theorem not_taken (ok : render lower path existing hosts id = .ok y) {front back : List Line}
    (placed : (marks id).Placed (ready id hosts (splitInclusive existing)) front back)
    : ∀ line ∈ front ++ back, takenName lower hosts line = none := by
  obtain ⟨before, after, was⟩ := Marks.exists_placed (m := marks id) (splitInclusive existing)
  obtain ⟨-, -, free, -⟩ := (render_eq_ok was).mp ok
  rw [← was.left] at free
  rw [← placed.left]
  obtain same | ⟨closed, -⟩ := ready_eq id hosts (splitInclusive existing)
  · rwa [same]
  · rw [closed, (respects_closeLine id).left]
    intro line member
    obtain ⟨old, mem, rfl⟩ := List.mem_map.mp member
    rw [takenName_closeLine]
    exact free old mem

theorem OwnKept.of_tidy (laws : Lowercase lower) (plain : ∀ entry ∈ hosts, PlainEntry entry)
    (word : IsWord id) (ok : render lower path existing hosts id = .ok y)
    (tidy : Tidy id hosts existing)
    : OwnKept lower path existing hosts id y := by
  obtain ⟨before, after, was⟩ := Marks.exists_placed (m := marks id) (splitInclusive existing)
  obtain ⟨closed, single, -, -⟩ := (render_eq_ok was).mp ok
  have well := tidy.wellMarked closed
  have ended := tidy.ended
  rw [well.outside] at ended
  obtain ⟨front, back, placed, written, front_closed⟩ :=
    lines_render laws plain word ok ended
  obtain ⟨before, after⟩ := not_opens_front placed
  have one := oneBlock_blockLines laws plain word
  have well_written := Marks.wellMarked_insert one before after
  have left_written := Marks.left_insert one before after
  have y_eq : y = front.flatten ++ block lower id hosts ++ back.flatten := by
    rw [← flatten_splitInclusive y, written, block]
    simp
  constructor
  case frame =>
    rw [written, well_written.outside, left_written, ← placed.left,
      (wellMarked_ready id well).outside]
  case again =>
    by_cases nobody : hosts = []
    · have lines_y : splitInclusive y = front ++ back := by
        rw [written, nobody, blockLines_nil, List.append_nil]
      have none : ∀ line ∈ splitInclusive y, (marks id).opens line = false := by
        rw [lines_y]
        exact List.forall_mem_append.mpr ⟨before, after⟩
      refine (render_eq_ok (.last none)).mpr ⟨?_, single, ?_, ?_⟩
      · exact Marks.openAfter_of_not_opens none
      · rw [List.append_nil, lines_y]
        exact not_taken ok placed
      · have still : Ended y := by
          rw [← flatten_splitInclusive y, lines_y, ← placed.left, ready,
            if_neg (by simp [Appends, nobody])]
          exact ended nobody
        rw [flatten_splitInclusive, closeLine_of_ended still, nobody, block, blockLines_nil]
        simp
    · have placed' := one.placed (blockLines_ne_nil nobody) before after
      rw [← written] at placed'
      refine (render_eq_ok placed').mpr ⟨?_, single, not_taken ok placed, ?_⟩
      · rw [written]
        exact well_written.closed
      · rw [closeLine_of_ended (ended_flatten_of_closed front_closed), y_eq]
  case idle =>
    intro nobody none
    have same : y = existing := by
      have unchanged : ready id hosts (splitInclusive existing) = splitInclusive existing := by
        rw [ready, if_neg (by simp [Appends, nobody])]
      have kept := placed.left
      rw [unchanged, Marks.left_of_not_opens none] at kept
      rw [← flatten_splitInclusive y, ← flatten_splitInclusive existing, written, nobody,
        blockLines_nil, List.append_nil, kept]
    exact ⟨same, fun reread => syncAt_unchanged reread (same ▸ ok)⟩

/-- A file in which a block was left unfinished is not kept as the root promises. -/
theorem OwnKept.unnested (laws : Lowercase lower) (plain : ∀ entry ∈ hosts, PlainEntry entry)
    (word : IsWord id) (ok : render lower path existing hosts id = .ok y)
    (kept : OwnKept lower path existing hosts id y)
    : (marks id).unnested false (splitInclusive existing) = true := by
  by_contra nested
  rw [Bool.not_eq_true] at nested
  obtain ⟨impossible, -⟩ | ⟨line, member, opens⟩ := Marks.opens_outside nested
  · cases impossible
  have cut := cut_splitInclusive existing
  obtain ⟨front, back, placed⟩ := Marks.exists_placed (m := marks id) (splitInclusive existing)
  obtain ⟨before, after⟩ := not_opens_front placed
  have was_in := (Marks.outside_sublist false (splitInclusive existing)).subset member
  have frame := kept.frame
  rw [ready_of_opens was_in opens] at frame
  have back_sublist : back.Sublist (splitInclusive existing) := by
    have all := Marks.left_sublist (m := marks id) false (splitInclusive existing)
    rw [placed.left] at all
    exact (List.sublist_append_right front back).trans all
  obtain ⟨-, -, -, rfl⟩ := (render_eq_ok placed).mp ok
  have front_closed : ∀ line ∈ front, Closed line := by
    generalize splitInclusive existing = lines at *
    cases placed with
    | last none =>
        rw [none line was_in] at opens
        cases opens
    | there _ _ => exact closed_left id false (cut.closed_front (by simp))
  rw [closeLine_of_ended (ended_flatten_of_closed front_closed),
    splitInclusive_written laws plain word front_closed (cut.sublist back_sublist),
    (Marks.wellMarked_insert (oneBlock_blockLines laws plain word) before after).outside,
    Marks.left_insert (oneBlock_blockLines laws plain word) before after] at frame
  rw [← frame] at member
  obtain inFront | inBack := List.mem_append.mp member
  · rw [before line inFront] at opens
    cases opens
  · rw [after line inBack] at opens
    cases opens

/-- A root without names keeps its promises only where the lines it leaves end with a line break.
-/
theorem OwnKept.ended (ok : render lower path existing [] id = .ok y)
    (kept : OwnKept lower path existing [] id y)
    : Ended ((marks id).left false (splitInclusive existing)).flatten := by
  by_contra open_
  have cut := cut_splitInclusive existing
  obtain ⟨front, back, placed⟩ := Marks.exists_placed (m := marks id) (splitInclusive existing)
  have spelled := placed.left
  rw [spelled] at open_
  obtain ⟨before, after⟩ := not_opens_front placed
  obtain ⟨-, -, -, is⟩ := (render_eq_ok placed).mp ok
  rw [block, blockLines_nil, List.flatten_nil, List.append_nil] at is
  have all_cut : Cut (front ++ back) := spelled ▸ cut.sublist (Marks.left_sublist false _)
  by_cases none : ∀ line ∈ splitInclusive existing, (marks id).opens line = false
  · -- a break was put at the end of a file that was to stay as it is
    obtain ⟨same, -⟩ := kept.idle rfl none
    rw [Marks.left_of_not_opens none] at spelled
    rw [← spelled, flatten_splitInclusive] at open_
    have last := placed.back_eq_nil none
    rw [last, List.append_nil] at spelled
    rw [last, List.flatten_nil, List.append_nil, ← spelled, flatten_splitInclusive, same,
      closeLine_of_not_ended open_] at is
    simpa using congrArg List.length is
  · have front_closed : ∀ line ∈ front, Closed line := by
      generalize splitInclusive existing = lines at *
      cases placed with
      | last free => exact absurd free none
      | there _ _ => exact closed_left id false (cut.closed_front (by simp))
    rw [closeLine_of_ended (ended_flatten_of_closed front_closed), ← List.flatten_append] at is
    have lines_y : splitInclusive y = front ++ back := is ▸ splitInclusive_flatten all_cut
    have free : ∀ line ∈ splitInclusive y, (marks id).opens line = false := by
      rw [lines_y]
      exact List.forall_mem_append.mpr ⟨before, after⟩
    -- the second rendering puts the break at the end
    obtain ⟨-, -, -, again⟩ := (render_eq_ok (.last free)).mp kept.again
    rw [flatten_splitInclusive, block, blockLines_nil, List.flatten_nil, List.append_nil,
      List.append_nil, closeLine_of_not_ended (is ▸ open_)] at again
    simpa using congrArg List.length again

/-- A root keeps its promises exactly where it finds its blocks tidy. -/
theorem ownKept_iff (laws : Lowercase lower) (plain : ∀ entry ∈ hosts, PlainEntry entry)
    (word : IsWord id) (ok : render lower path existing hosts id = .ok y)
    : OwnKept lower path existing hosts id y ↔ Tidy id hosts existing := by
  constructor
  · intro kept
    have unnested := kept.unnested laws plain word ok
    refine ⟨unnested, fun nobody => ?_⟩
    obtain ⟨front, back, placed⟩ := Marks.exists_placed (m := marks id) (splitInclusive existing)
    obtain ⟨closed, -⟩ := (render_eq_ok placed).mp ok
    rw [Marks.WellMarked.outside ⟨unnested, closed⟩]
    cases nobody
    exact kept.ended ok
  · exact OwnKept.of_tidy laws plain word ok

end Delonix.Hosts
