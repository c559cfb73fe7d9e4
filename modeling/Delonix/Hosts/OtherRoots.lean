import Delonix.Hosts.Names

/-! Several state roots in one hosts file. Where no line belongs to blocks of two roots, a root
keeps the blocks of the others, and two roots may render one after the other in either order.
-/

namespace Delonix.Hosts

open Delonix.Library.Lines Delonix.Library.MarkedBlocks
open Delonix.Library.Words (IsWord)

variable {lower : Text → Text} {path : Text}

/-- No line of the file belongs to blocks of both roots. -/
def Apart (id other : Text) (existing : Text) : Prop :=
  Marks.Apart (marks id) (marks other) false false (splitInclusive existing)

instance (id other existing : Text) : Decidable (Apart id other existing) :=
  Marks.decidableApart _ _ _ _ _

/-- The lines of the blocks of a root. -/
def blocksOf (id : Text) (lines : List Line) : List Line := (marks id).within false lines

/-- The lines outside of the blocks of both roots. -/
def outsideBoth (id other : Text) (lines : List Line) : List Line :=
  (marks id).outside false ((marks other).outside false lines)

/-- The two results are the same but for the places of the two blocks. -/
structure SameButPlaces (id other : Text) (lines lines' : List Line) : Prop where
  outside : outsideBoth id other lines = outsideBoth id other lines'
  own : blocksOf id lines = blocksOf id lines'
  others : blocksOf other lines = blocksOf other lines'

/-- A root that renders a file, as the callers ask it to. -/
structure Renders (lower : Text → Text) (path existing : Text) (hosts : List Entry) (id y : Text)
    : Prop where
  plain : ∀ entry ∈ hosts, PlainEntry entry
  word : IsWord id
  ok : render lower path existing hosts id = .ok y
  tidy : Tidy id hosts existing

variable {existing y : Text} {hosts : List Entry} {id other : Text}

theorem Renders.wellMarked (renders : Renders lower path existing hosts id y)
    : (marks id).WellMarked false (splitInclusive existing) := by
  obtain ⟨front, back, placed⟩ := Marks.exists_placed (m := marks id) (splitInclusive existing)
  exact renders.tidy.wellMarked ((render_eq_ok placed).mp renders.ok).1

/-- The written file, line by line. -/
theorem Renders.written (laws : Lowercase lower) (renders : Renders lower path existing hosts id y)
    : ∃ front back,
        (marks id).Placed (ready id hosts (splitInclusive existing)) front back
        ∧ splitInclusive y = front ++ blockLines lower id hosts ++ back
        ∧ (∀ line ∈ front, Closed line) := by
  have ended := renders.tidy.ended
  rw [renders.wellMarked.outside] at ended
  exact lines_render laws renders.plain renders.word renders.ok ended

theorem marks_apart (different : id ≠ other) (line : Line) (opens : (marks id).opens line = true)
    : (marks other).opens line = false := by
  simp only [marks, decide_eq_true_eq, decide_eq_false_iff_not] at opens ⊢
  exact fun same => different (beginLine_inj (opens.symm.trans same))

/-- The blocks of another root are kept. -/
theorem Renders.blocksOf_other (laws : Lowercase lower)
    (renders : Renders lower path existing hosts id y) (different : id ≠ other)
    (apart : Apart id other existing)
    : blocksOf other (splitInclusive y)
      = blocksOf other (ready id hosts (splitInclusive existing)) := by
  obtain ⟨front, back, placed, written, -⟩ := renders.written laws
  have well : (marks id).WellMarked false (ready id hosts (splitInclusive existing)) :=
    wellMarked_ready id renders.wellMarked
  have apart : Marks.Apart (marks id) (marks other) false false
      (ready id hosts (splitInclusive existing)) := apart_ready apart
  rw [blocksOf, written, Marks.within_insert
    (unmarked_blockLines laws renders.plain renders.word different)
    (placed.apart well apart (marks_apart different)), ← placed.left]
  exact apart.within well

theorem Renders.left_written (laws : Lowercase lower)
    (renders : Renders lower path existing hosts id y)
    : (marks id).WellMarked false (splitInclusive y)
      ∧ (marks id).left false (splitInclusive y)
        = (marks id).left false (ready id hosts (splitInclusive existing))
      ∧ blocksOf id (splitInclusive y) = blockLines lower id hosts := by
  obtain ⟨front, back, placed, written, -⟩ := renders.written laws
  obtain ⟨before, after⟩ := not_opens_front placed
  have one := oneBlock_blockLines laws renders.plain renders.word
  rw [written, placed.left]
  exact ⟨Marks.wellMarked_insert one before after, Marks.left_insert one before after,
    Marks.within_insert_block one before after⟩

-----------------------------------------------------------------------------------------
-- The written file for another root
-----------------------------------------------------------------------------------------

theorem Renders.onto (laws : Lowercase lower) (renders : Renders lower path existing hosts id y)
    (different : id ≠ other) (apart : Apart id other existing)
    (well' : (marks other).WellMarked false (splitInclusive existing))
    : (marks other).WellMarked false (splitInclusive y) ∧ Apart id other y := by
  obtain ⟨front, back, placed, written, -⟩ := renders.written laws
  obtain ⟨before, after⟩ := not_opens_front placed
  have one := oneBlock_blockLines laws renders.plain renders.word
  have plain := unmarked_blockLines laws renders.plain renders.word different
  have well : (marks id).WellMarked false (ready id hosts (splitInclusive existing)) :=
    wellMarked_ready id renders.wellMarked
  have well' : (marks other).WellMarked false (ready id hosts (splitInclusive existing)) :=
    wellMarked_ready other well'
  have apart : Marks.Apart (marks id) (marks other) false false
      (ready id hosts (splitInclusive existing)) := apart_ready apart
  have left_well := apart.wellMarked well well'
  rw [placed.left] at left_well
  constructor
  · rw [written]
    exact left_well.insert plain
  · rw [Apart, written]
    exact Marks.apart_insert one before after plain
      (placed.apart well apart (marks_apart different))

theorem Renders.not_opens_iff (laws : Lowercase lower)
    (renders : Renders lower path existing hosts id y) (different : id ≠ other)
    (apart : Apart id other existing)
    (well' : (marks other).WellMarked false (splitInclusive existing))
    : (∀ line ∈ splitInclusive y, (marks other).opens line = false)
      ↔ ∀ line ∈ splitInclusive existing, (marks other).opens line = false := by
  obtain ⟨front, back, placed, written, -⟩ := renders.written laws
  have plain := unmarked_blockLines laws renders.plain renders.word different
  have well : (marks id).WellMarked false (ready id hosts (splitInclusive existing)) :=
    wellMarked_ready id renders.wellMarked
  have well' : (marks other).WellMarked false (ready id hosts (splitInclusive existing)) :=
    wellMarked_ready other well'
  have apart : Marks.Apart (marks id) (marks other) false false
      (ready id hosts (splitInclusive existing)) := apart_ready apart
  have same : (∀ line ∈ ready id hosts (splitInclusive existing), (marks other).opens line = false)
      ↔ ∀ line ∈ splitInclusive existing, (marks other).opens line = false := by
    obtain same | ⟨closed, -⟩ := ready_eq id hosts (splitInclusive existing)
    · rw [same]
    · rw [closed]
      refine ⟨fun none line member => ?_, not_opens_map_closeLine⟩
      rw [← (respects_closeLine other).opens]
      exact none _ (List.mem_map_of_mem member)
  rw [← same, written]
  constructor
  · intro none
    refine apart.not_opens well well' fun line member => none line ?_
    rw [placed.left] at member
    simp only [List.mem_append] at member ⊢
    tauto
  · intro none line member
    have left_in := (Marks.left_sublist (m := marks id) false
      (ready id hosts (splitInclusive existing))).subset
    rw [placed.left] at left_in
    simp only [List.mem_append] at member
    obtain (inFront | inBlock) | inBack := member
    · exact none line (left_in (List.mem_append_left _ inFront))
    · exact (plain line inBlock).1
    · exact none line (left_in (List.mem_append_right _ inBack))

/-- What a root without names leaves has all its line breaks. -/
theorem closed_of_tidy (nobody : hosts = []) (tidy : Tidy id hosts existing)
    (well : (marks id).WellMarked false (splitInclusive existing))
    : ∀ line ∈ (marks id).left false (splitInclusive existing), Closed line := by
  have ended := tidy.ended nobody
  rw [well.outside] at ended
  exact ((cut_splitInclusive existing).sublist (Marks.left_sublist false _)).closed_of_ended ended

theorem closed_ready {hosts' : List Entry} (nobody : hosts' = []) (tidy : Tidy other hosts' existing)
    (well : (marks other).WellMarked false (splitInclusive existing))
    : ∀ line ∈ (marks other).left false (ready id hosts (splitInclusive existing)),
        Closed line := by
  obtain same | ⟨closed, -⟩ := ready_eq id hosts (splitInclusive existing)
  · rw [same]
    exact closed_of_tidy nobody tidy well
  · rw [closed]
    exact closed_left other false (cut_splitInclusive existing).closed_closeLine

/-- A file that is tidy for the other root stays so. -/
theorem Renders.tidy_other (laws : Lowercase lower)
    (renders : Renders lower path existing hosts id y) {hosts' : List Entry}
    (different : id ≠ other) (apart : Apart id other existing)
    (tidy : Tidy other hosts' existing)
    (well' : (marks other).WellMarked false (splitInclusive existing))
    : Tidy other hosts' y := by
  obtain ⟨well_written, -⟩ := renders.onto laws different apart well'
  refine ⟨well_written.unnested, fun nobody => ?_⟩
  obtain ⟨front, back, placed, written, -⟩ := renders.written laws
  rw [well_written.outside, written]
  refine ended_flatten_of_closed fun line member => ?_
  have plain := unmarked_blockLines laws renders.plain renders.word different
  obtain inBlock | inLeft := Marks.mem_left_insert plain member
  · exact closed_blockLines laws renders.plain renders.word line inBlock
  · rw [← placed.left, (apart_ready apart).left_left (wellMarked_ready id renders.wellMarked)
      (wellMarked_ready other well')] at inLeft
    exact closed_ready nobody tidy well' line ((Marks.left_sublist false _).subset inLeft)

-----------------------------------------------------------------------------------------
-- One root after the other
-----------------------------------------------------------------------------------------

theorem outsideBoth_eq {lines : List Line} (well : (marks id).WellMarked false lines)
    (well' : (marks other).WellMarked false lines)
    (apart : Marks.Apart (marks id) (marks other) false false lines)
    : outsideBoth id other lines = (marks other).left false ((marks id).left false lines) := by
  rw [outsideBoth, well'.outside, (apart.symm.wellMarked well' well).outside,
    apart.left_left well well']

/-- What two roots leave of a file: its last line gets a line break where a block goes to the end.
-/
def settled (id other : Text) (lines : List Line) : List Line :=
  let both := (marks other).left false ((marks id).left false lines)
  if (∃ line ∈ lines, (marks id).opens line = true)
      ∧ ∃ line ∈ lines, (marks other).opens line = true then both
  else both.map closeLine

theorem settled_comm {lines : List Line} (well : (marks id).WellMarked false lines)
    (well' : (marks other).WellMarked false lines)
    (apart : Marks.Apart (marks id) (marks other) false false lines)
    : settled id other lines = settled other id lines := by
  rw [settled, settled, apart.left_left well well']
  simp only [and_comm]

theorem closeLine_closeLine (line : Line) : closeLine (closeLine line) = closeLine line :=
  closeLine_of_ended (ended_closeLine line)

theorem map_closeLine_twice (lines : List Line)
    : (lines.map closeLine).map closeLine = lines.map closeLine := by
  simp [Function.comp_def, closeLine_closeLine]

theorem left_ready_of_appends {lines : List Line} (appends : Appends id hosts lines)
    (other : Text)
    : (marks other).left false (ready id hosts lines)
      = ((marks other).left false lines).map closeLine := by
  rw [ready, if_pos appends]
  exact (respects_closeLine other).left false lines

theorem ready_of_not_appends {lines : List Line} (inside : ¬ Appends id hosts lines)
    : ready id hosts lines = lines := by
  rw [ready, if_neg inside]

theorem outsideBoth_second (laws : Lowercase lower) {z : Text} {hosts' : List Entry}
    (different : id ≠ other) (first : Renders lower path existing hosts id y)
    (second : Renders lower path y hosts' other z) (tidy : Tidy other hosts' existing)
    (well' : (marks other).WellMarked false (splitInclusive existing))
    (apart : Apart id other existing)
    : outsideBoth id other (splitInclusive z) = settled id other (splitInclusive existing) := by
  obtain ⟨well_y', apart_y⟩ := first.onto laws different apart well'
  obtain ⟨well_y, left_y, -⟩ := first.left_written laws
  obtain ⟨well_z', left_z, -⟩ := second.left_written laws
  obtain ⟨well_z, apart_z⟩ := second.onto laws different.symm apart_y.symm well_y
  have well := first.wellMarked
  rw [outsideBoth_eq well_z well_z' apart_z.symm, apart_z.symm.left_left well_z well_z', left_z,
    ← (apart_ready apart_y).left_left (wellMarked_ready id well_y) (wellMarked_ready other well_y')]
  set both := (marks other).left false ((marks id).left false (splitInclusive existing)) with is
  have own_closed : hosts = [] → both.map closeLine = both := fun nobody =>
    map_closeLine_of_closed (closed_left other false (closed_of_tidy nobody first.tidy well))
  have other_closed : hosts' = [] → both.map closeLine = both := by
    intro nobody
    rw [is, apart.left_left well well']
    exact map_closeLine_of_closed (closed_left id false (closed_of_tidy nobody tidy well'))
  have first_left : (marks other).left false ((marks id).left false (splitInclusive y))
      = if Appends id hosts (splitInclusive existing) then both.map closeLine else both := by
    rw [left_y]
    split
    case isTrue appends =>
      rw [left_ready_of_appends appends, (respects_closeLine other).left]
    case isFalse inside => rw [ready_of_not_appends inside]
  have second_left : (marks other).left false
        ((marks id).left false (ready other hosts' (splitInclusive y)))
      = if Appends id hosts (splitInclusive existing)
            ∨ Appends other hosts' (splitInclusive existing) then both.map closeLine
        else both := by
    have same : Appends other hosts' (splitInclusive y)
        ↔ Appends other hosts' (splitInclusive existing) :=
      and_congr_right fun _ => first.not_opens_iff laws different apart well'
    by_cases appends : Appends other hosts' (splitInclusive y)
    · have either : Appends id hosts (splitInclusive existing)
          ∨ Appends other hosts' (splitInclusive existing) := .inr (same.mp appends)
      simp only [either, if_true]
      rw [left_ready_of_appends appends, (respects_closeLine other).left, first_left]
      split
      · exact map_closeLine_twice both
      · rfl
    · have never : ¬ Appends other hosts' (splitInclusive existing) := fun is =>
        appends (same.mpr is)
      rw [ready_of_not_appends appends, first_left]
      simp only [never, or_false]
  rw [second_left, settled, ← is]
  have none_of : ∀ m : Marks Line, (¬ ∃ line ∈ splitInclusive existing, m.opens line = true)
      → ∀ line ∈ splitInclusive existing, m.opens line = false := by
    intro m none line member
    by_contra opens
    exact none ⟨line, member, by simpa using opens⟩
  by_cases opened : (∃ line ∈ splitInclusive existing, (marks id).opens line = true)
      ∧ ∃ line ∈ splitInclusive existing, (marks other).opens line = true
  · rw [if_pos opened, if_neg]
    rintro (⟨-, none⟩ | ⟨-, none⟩)
    · obtain ⟨⟨line, member, opens⟩, -⟩ := opened
      simp [none line member] at opens
    · obtain ⟨-, line, member, opens⟩ := opened
      simp [none line member] at opens
  · rw [if_neg opened]
    split
    case isTrue => rfl
    case isFalse neither =>
      obtain mine | theirs := not_and_or.mp opened
      · refine (own_closed ?_).symm
        by_contra nobody
        exact neither (.inl ⟨nobody, none_of _ mine⟩)
      · refine (other_closed ?_).symm
        by_contra nobody
        exact neither (.inr ⟨nobody, none_of _ theirs⟩)

/-- The blocks that are in the file once both roots have rendered it. -/
theorem blocks_second (laws : Lowercase lower) {z : Text} {hosts' : List Entry}
    (different : id ≠ other) (first : Renders lower path existing hosts id y)
    (second : Renders lower path y hosts' other z)
    (well' : (marks other).WellMarked false (splitInclusive existing))
    (apart : Apart id other existing)
    : blocksOf id (splitInclusive z) = blockLines lower id hosts
      ∧ blocksOf other (splitInclusive z) = blockLines lower other hosts' := by
  obtain ⟨-, apart_y⟩ := first.onto laws different apart well'
  obtain ⟨-, -, own⟩ := first.left_written laws
  obtain ⟨-, -, others⟩ := second.left_written laws
  refine ⟨?_, others⟩
  rw [second.blocksOf_other laws different.symm apart_y.symm]
  obtain same | ⟨closed, -⟩ := ready_eq other hosts' (splitInclusive y)
  · rw [same, own]
  · rw [closed, blocksOf, (respects_closeLine id).within]
    have own : (marks id).within false (splitInclusive y) = blockLines lower id hosts := own
    rw [own]
    exact map_closeLine_of_closed (closed_blockLines laws first.plain first.word)

/-- Two roots may render the file in either order. -/
theorem Renders.commute (laws : Lowercase lower) {z u v : Text} {hosts' : List Entry}
    (different : id ≠ other) (apart : Apart id other existing)
    (own_first : Renders lower path existing hosts id y)
    (then_other : Renders lower path y hosts' other z)
    (other_first : Renders lower path existing hosts' other u)
    (then_own : Renders lower path u hosts id v)
    : SameButPlaces id other (splitInclusive z) (splitInclusive v) := by
  have well := own_first.wellMarked
  have well' := other_first.wellMarked
  obtain ⟨-, apart_y⟩ := own_first.onto laws different apart well'
  obtain ⟨well_y, -, -⟩ := own_first.left_written laws
  obtain ⟨-, apart_u⟩ := other_first.onto laws different.symm apart.symm well
  obtain ⟨well_u', -, -⟩ := other_first.left_written laws
  obtain ⟨well_v, -, -⟩ := then_own.left_written laws
  obtain ⟨well_v', apart_v⟩ := then_own.onto laws different apart_u.symm well_u'
  obtain ⟨own_z, others_z⟩ := blocks_second laws different own_first then_other well' apart
  obtain ⟨others_v, own_v⟩ :=
    blocks_second laws different.symm other_first then_own well apart.symm
  constructor
  case outside =>
    rw [outsideBoth_second laws different own_first then_other other_first.tidy well' apart,
      outsideBoth_eq well_v well_v' apart_v, apart_v.left_left well_v well_v',
      ← outsideBoth_eq well_v' well_v apart_v.symm,
      outsideBoth_second laws different.symm other_first then_own own_first.tidy well apart.symm]
    exact settled_comm well well' apart
  case own => rw [own_z, own_v]
  case others => rw [others_z, others_v]

end Delonix.Hosts

/-! What the hosts file keeps when a state root renders it, and for which files it does.
-/

namespace Delonix.Hosts

open Delonix.Library.Lines Delonix.Library.MarkedBlocks Delonix.Library.Text
open Delonix.Library.Words (IsWord)

/-- What a root that rendered a file into `y` promises another root. -/
structure OtherKept (lower : Text → Text) (path existing : Text) (hosts : List Entry)
    (id other y : Text) : Prop where
  kept : blocksOf other (splitInclusive y)
    = blocksOf other (ready id hosts (splitInclusive existing))
  commutes : ∀ hosts' z u v, (∀ entry ∈ hosts', PlainEntry entry) → Tidy other hosts' existing
    → render lower path y hosts' other = .ok z
    → render lower path existing hosts' other = .ok u
    → render lower path u hosts id = .ok v
    → SameButPlaces id other (splitInclusive z) (splitInclusive v)

/-- The names are found once whatever the file. The root keeps its own promises exactly in tidy files,
and in those its promises to each root that has no line in common with it.
-/
theorem render_keeps {lower : Text → Text} (laws : Lowercase lower) {path existing y : Text}
    {hosts : List Entry} {root : List UInt8} (plain : ∀ entry ∈ hosts, PlainEntry entry)
    (ok : render lower path existing hosts (rootId root) = .ok y)
    : Named lower hosts y
      ∧ (OwnKept lower path existing hosts (rootId root) y ↔ Tidy (rootId root) hosts existing)
      ∧ (Tidy (rootId root) hosts existing → ∀ root', rootId root ≠ rootId root'
        → Apart (rootId root) (rootId root') existing
        → OtherKept lower path existing hosts (rootId root) (rootId root') y) := by
  have word := isWord_rootId root
  refine ⟨named_render laws plain word ok, ownKept_iff laws plain word ok, ?_⟩
  intro tidy root' different apart
  have renders : Renders lower path existing hosts (rootId root) y := ⟨plain, word, ok, tidy⟩
  refine ⟨renders.blocksOf_other laws different apart, ?_⟩
  intro hosts' z u v plain' tidy' second other_first then_own
  have other : Renders lower path existing hosts' (rootId root') u :=
    ⟨plain', isWord_rootId root', other_first, tidy'⟩
  have tidy_y := renders.tidy_other laws different apart tidy' other.wellMarked
  have tidy_u := other.tidy_other laws different.symm apart.symm tidy renders.wellMarked
  exact Renders.commute laws different apart renders ⟨plain', isWord_rootId root', second, tidy_y⟩
    other ⟨plain, word, then_own, tidy_u⟩

-----------------------------------------------------------------------------------------
-- Some files
-----------------------------------------------------------------------------------------

/-- The lowercase mapping of texts in ASCII. -/
def asciiLower (s : Text) : Text := s.map Char.toLower

theorem toLower_range (c : Char)
    : c.toLower = c ∨ (97 ≤ c.toLower.toNat ∧ c.toLower.toNat ≤ 122) := by
  by_cases outside : c.toNat < 65 ∨ 90 < c.toNat
  · exact .inl (toLower_eq_self outside)
  · have capital : ∀ n, 65 ≤ n → n ≤ 90 → 97 ≤ (Char.ofNat n).toLower.toNat
        ∧ (Char.ofNat n).toLower.toNat ≤ 122 := by
      intro n low high
      interval_cases n <;> decide
    have range := capital c.toNat (by omega) (by omega)
    rw [Char.ofNat_toNat] at range
    exact .inr range

theorem asciiLower_laws : Lowercase asciiLower where
  twice := by
    intro s
    rw [asciiLower, asciiLower, List.map_map]
    refine List.map_congr_left fun c _ => ?_
    obtain same | ⟨low, -⟩ := toLower_range c
    · simp only [Function.comp_apply, same]
    · exact toLower_eq_self (.inr (by omega))
  plain := by
    rintro s ⟨⟨nonempty, visible⟩, uncommented⟩
    have kept : ∀ c ∈ asciiLower s, isWhitespace c = false ∧ c ≠ '#' := by
      intro c member
      obtain ⟨old, mem, rfl⟩ := List.mem_map.mp member
      obtain same | ⟨low, high⟩ := toLower_range old
      · rw [same]
        exact ⟨visible old mem, fun is => uncommented (is ▸ mem)⟩
      · refine ⟨isWhitespace_eq_false_of_range (by omega) (by omega), ?_⟩
        rintro is
        rw [is] at low
        revert low
        decide
    exact ⟨⟨by simpa [asciiLower] using nonempty, fun c mem => (kept c mem).1⟩,
      fun mem => (kept _ mem).2 rfl⟩

def hostsPath : Text := "/etc/hosts".toList

def someRoot : Text := rootId []

def webEntry : Entry := ("Web.example.pt".toList, "127.0.0.1".toList)

/-- A file that was written by hand, its last line without a line break. -/
def handWritten : Text := "127.0.0.1 localhost".toList

/-- A block of which the last line was lost, and after it the block that the root wrote. -/
def unfinished : Text :=
  beginLine someRoot ++ "\n10.0.0.9 hand.written\n".toList ++ beginLine someRoot ++ ['\n']
    ++ endLine someRoot ++ ['\n']

/-- The hand-written file with the block at its end. -/
def handWrittenWeb : Text :=
  handWritten ++ ['\n'] ++ beginLine someRoot ++ "\n127.0.0.1\tweb.example.pt\n".toList
    ++ endLine someRoot ++ ['\n']

theorem handWritten_kept
    : Named asciiLower [webEntry] handWrittenWeb
      ∧ OwnKept asciiLower hostsPath handWritten [webEntry] someRoot handWrittenWeb
      ∧ OtherKept asciiLower hostsPath handWritten [webEntry] someRoot (rootId [47])
        handWrittenWeb := by
  have plain : ∀ entry ∈ [webEntry], PlainEntry entry := by
    intro entry member
    rw [List.mem_singleton.mp member]
    exact ⟨⟨by decide +kernel, by decide +kernel⟩, ⟨by decide +kernel, by decide +kernel⟩⟩
  have ok : render asciiLower hostsPath handWritten [webEntry] (rootId []) = .ok handWrittenWeb := by
    decide +kernel
  have tidy : Tidy (rootId []) [webEntry] handWritten := by decide +kernel
  obtain ⟨named, own, others⟩ := render_keeps asciiLower_laws plain ok
  exact ⟨named, own.mpr tidy, others tidy [47] (by decide +kernel) (by decide +kernel)⟩

/-- With nothing to write a line break is written; and a line that was written by hand goes with the
block before it, whose last line is missing.
-/
theorem handWritten_not_kept
    : render asciiLower hostsPath handWritten [] someRoot = .ok (handWritten ++ ['\n'])
      ∧ ¬ OwnKept asciiLower hostsPath handWritten [] someRoot (handWritten ++ ['\n'])
      ∧ render asciiLower hostsPath unfinished [] someRoot = .ok []
      ∧ ¬ OwnKept asciiLower hostsPath unfinished [] someRoot [] := by
  refine ⟨by decide +kernel, fun kept => ?_, by decide +kernel, fun kept => ?_⟩
  · have same := (kept.idle rfl (by decide +kernel)).1
    revert same
    decide +kernel
  · have frame := kept.frame
    revert frame
    decide +kernel

end Delonix.Hosts
