import Mathlib.Data.List.Basic
import Mathlib.Data.List.Induction
import Mathlib.Tactic.Common

/-! Texts cut into lines that keep their line breaks: only the last line may have none.
-/

namespace Delonix.Library.Lines

abbrev Line := List Char

/-- `str::split_inclusive` at line breaks. -/
def splitInclusive : List Char → List Line
  | [] => []
  | c :: rest =>
      if c = '\n' then [c] :: splitInclusive rest
      else
        match splitInclusive rest with
        | [] => [[c]]
        | first :: others => (c :: first) :: others

/-- A line with its line break. -/
def Closed (line : Line) : Prop := ∃ body, '\n' ∉ body ∧ line = body ++ ['\n']

/-- The lines of a text: all but the last end in a line break. -/
inductive Cut : List Line → Prop
  | nil : Cut []
  | unended {line : Line} (nonempty : line ≠ []) (single : '\n' ∉ line) : Cut [line]
  | cons {line : Line} {rest : List Line} (closed : Closed line) (later : Cut rest)
      : Cut (line :: rest)

theorem flatten_splitInclusive (s : List Char) : (splitInclusive s).flatten = s := by
  induction s with
  | nil => rfl
  | cons c rest ih =>
      rw [splitInclusive]
      split
      · rw [List.flatten_cons, ih, List.singleton_append]
      · cases parts : splitInclusive rest with
        | nil =>
            rw [parts] at ih
            simp [← ih]
        | cons first others =>
            rw [parts] at ih
            simp [← ih]

theorem cut_splitInclusive (s : List Char) : Cut (splitInclusive s) := by
  induction s with
  | nil => exact .nil
  | cons c rest ih =>
      rw [splitInclusive]
      split
      case isTrue same => exact .cons ⟨[], by simp, by simp [same]⟩ ih
      case isFalse other =>
        cases parts : splitInclusive rest with
        | nil => exact .unended (by simp) (by simpa using Ne.symm other)
        | cons first others =>
            rw [parts] at ih
            cases ih with
            | unended nonempty single =>
                exact .unended (by simp) (by simp [single, Ne.symm other])
            | cons closed later =>
                obtain ⟨body, single, rfl⟩ := closed
                exact .cons ⟨c :: body, by simp [single, Ne.symm other], rfl⟩ later

theorem splitInclusive_closed {line : Line} (closed : Closed line) (rest : List Char)
    : splitInclusive (line ++ rest) = line :: splitInclusive rest := by
  obtain ⟨body, single, rfl⟩ := closed
  induction body with
  | nil => simp [splitInclusive]
  | cons c body ih =>
      simp only [List.mem_cons, not_or] at single
      rw [List.cons_append, List.cons_append, splitInclusive, if_neg (Ne.symm single.1),
        ih single.2]

theorem splitInclusive_unended {line : Line} (nonempty : line ≠ []) (single : '\n' ∉ line)
    : splitInclusive line = [line] := by
  induction line with
  | nil => contradiction
  | cons c line ih =>
      simp only [List.mem_cons, not_or] at single
      rw [splitInclusive, if_neg (Ne.symm single.1)]
      cases line with
      | nil => rfl
      | cons d line => rw [ih (by simp) single.2]

/-- Lines that can be those of a text are the lines of their text. -/
theorem splitInclusive_flatten {lines : List Line} (cut : Cut lines)
    : splitInclusive lines.flatten = lines := by
  induction cut with
  | nil => rfl
  | unended nonempty single => simpa using splitInclusive_unended nonempty single
  | cons closed later ih => rw [List.flatten_cons, splitInclusive_closed closed, ih]

theorem Closed.ne_nil {line : Line} (closed : Closed line) : line ≠ [] := by
  obtain ⟨body, -, rfl⟩ := closed
  simp

theorem Cut.sublist {lines fewer : List Line} (cut : Cut lines) (sub : fewer.Sublist lines)
    : Cut fewer := by
  induction cut generalizing fewer with
  | nil =>
      cases List.sublist_nil.mp sub
      exact .nil
  | unended nonempty single =>
      obtain rfl | rfl := List.sublist_singleton.mp sub
      · exact .nil
      · exact .unended nonempty single
  | cons closed later ih =>
      cases sub with
      | cons _ sub => exact ih sub
      | cons_cons _ sub => exact .cons closed (ih sub)

theorem Cut.append {front back : List Line} (closed : ∀ line ∈ front, Closed line)
    (cut : Cut back)
    : Cut (front ++ back) := by
  induction front with
  | nil => exact cut
  | cons line front ih =>
      obtain ⟨here, later⟩ := List.forall_mem_cons.mp closed
      exact .cons here (ih later)

theorem Cut.closed_head {line : Line} {rest : List Line} (cut : Cut (line :: rest))
    (more : rest ≠ [])
    : Closed line ∧ Cut rest := by
  cases rest with
  | nil => contradiction
  | cons next rest =>
      cases cut with
      | cons closed later => exact ⟨closed, later⟩

/-- A line with another one after it has its line break. -/
theorem Cut.closed_front {front back : List Line} (cut : Cut (front ++ back)) (more : back ≠ [])
    : ∀ line ∈ front, Closed line := by
  induction front with
  | nil => simp
  | cons line front ih =>
      obtain ⟨closed, later⟩ := cut.closed_head (by simp [more])
      exact List.forall_mem_cons.mpr ⟨closed, ih later⟩

/-- The text ends its last line. -/
def Ended (s : List Char) : Prop := s = [] ∨ s.getLast? = some '\n'

instance (s : List Char) : Decidable (Ended s) := inferInstanceAs (Decidable (_ ∨ _))

/-- A line break at the end, where one is missing. -/
def closeLine (s : List Char) : List Char :=
  if s ≠ [] ∧ s.getLast? ≠ some '\n' then s ++ ['\n'] else s

theorem closeLine_of_ended {s : List Char} (ended : Ended s) : closeLine s = s := by
  rw [closeLine, if_neg]
  rintro ⟨some, other⟩
  exact ended.elim some other

theorem closeLine_of_not_ended {s : List Char} (open_ : ¬ Ended s)
    : closeLine s = s ++ ['\n'] := by
  rw [closeLine, if_pos]
  exact ⟨fun none => open_ (.inl none), fun broken => open_ (.inr broken)⟩

theorem ended_closeLine (s : List Char) : Ended (closeLine s) := by
  by_cases ended : Ended s
  · rwa [closeLine_of_ended ended]
  · rw [closeLine_of_not_ended ended]
    exact .inr (by simp)

theorem ended_flatten_of_closed {lines : List Line} (closed : ∀ line ∈ lines, Closed line)
    : Ended lines.flatten := by
  cases lines using List.reverseRecOn with
  | nil => exact .inl rfl
  | append_singleton front last =>
      obtain ⟨body, -, rfl⟩ := closed last (by simp)
      exact .inr (by simp)

/-- Such lines all have their line breaks when their text ends its last line. -/
theorem Cut.closed_of_ended {lines : List Line} (cut : Cut lines) (ended : Ended lines.flatten)
    : ∀ line ∈ lines, Closed line := by
  cases lines using List.reverseRecOn with
  | nil => simp
  | append_singleton front last =>
      have before := cut.closed_front (by simp)
      have here := cut.sublist (List.sublist_append_right front [last])
      have closed : Closed last := by
        cases here with
        | unended nonempty single =>
            exfalso
            obtain none | broken := ended
            · simp [nonempty] at none
            · simp only [List.flatten_append, List.flatten_cons, List.flatten_nil,
                List.append_nil, List.getLast?_append_of_ne_nil _ nonempty] at broken
              exact single (List.mem_of_getLast? broken)
        | cons closed later => exact closed
      intro line member
      obtain inFront | is := List.mem_append.mp member
      · exact before line inFront
      · rwa [List.mem_singleton.mp is]

theorem Closed.ended {line : Line} (closed : Closed line) : Ended line := by
  obtain ⟨body, -, rfl⟩ := closed
  exact .inr (by simp)

theorem map_closeLine_of_closed {lines : List Line} (closed : ∀ line ∈ lines, Closed line)
    : lines.map closeLine = lines := by
  rw [List.map_congr_left fun line member => closeLine_of_ended (closed line member).ended]
  exact List.map_id lines

theorem Cut.closed_last {front : List Line} {last : Line} (cut : Cut (front ++ [last]))
    : Closed (closeLine last) := by
  cases cut.sublist (List.sublist_append_right front [last]) with
  | unended nonempty single =>
      refine ⟨last, single, closeLine_of_not_ended ?_⟩
      rintro (none | broken)
      · exact nonempty none
      · exact single (List.mem_of_getLast? broken)
  | cons closed _ =>
      rw [closeLine_of_ended closed.ended]
      exact closed

/-- Every line of the text gets its line break; only the last one may need it. -/
theorem Cut.closed_closeLine {lines : List Line} (cut : Cut lines)
    : ∀ line ∈ lines.map closeLine, Closed line := by
  cases lines using List.reverseRecOn with
  | nil => simp
  | append_singleton front last =>
      rw [List.map_append, map_closeLine_of_closed (cut.closed_front (by simp))]
      intro line member
      obtain inFront | is := List.mem_append.mp member
      · exact cut.closed_front (by simp) line inFront
      · rw [List.mem_singleton.mp is]
        exact cut.closed_last

theorem flatten_map_closeLine {lines : List Line} (cut : Cut lines)
    : (lines.map closeLine).flatten = closeLine lines.flatten := by
  cases lines using List.reverseRecOn with
  | nil => rfl
  | append_singleton front last =>
      have nonempty : last ≠ [] := by
        cases cut.sublist (List.sublist_append_right front [last]) with
        | unended nonempty _ => exact nonempty
        | cons closed _ => exact closed.ne_nil
      rw [List.map_append, map_closeLine_of_closed (cut.closed_front (by simp))]
      simp only [closeLine, List.flatten_append, List.map_cons, List.map_nil, List.flatten_cons,
        List.flatten_nil, List.append_nil, ne_eq, List.append_eq_nil_iff, nonempty, and_false,
        not_false_eq_true, true_and, List.getLast?_append_of_ne_nil _ nonempty]
      split <;> simp

end Delonix.Library.Lines
