import Delonix.Backup.Cron
import Delonix.Library.Checks
import Delonix.Library.Pieces

/-! The text of schedules in both languages: which items, fields and weekdays of a crontab come
through the translation, and how the translated text is read.
-/

namespace Delonix.Backup

open Delonix.Library.Checks
open Delonix.Library.Pieces
open Delonix.Library.Text
open Delonix.Library.Words

-----------------------------------------------------------------------------------------
-- Numbers and steps as text
-----------------------------------------------------------------------------------------

theorem digit_of_parseDigits {max acc n : Nat} {s : Text}
    (read : parseDigits 10 max acc s = some n)
    : ∀ c ∈ s, 48 ≤ c.toNat ∧ c.toNat ≤ 57 := by
  induction s generalizing acc with
  | nil => simp
  | cons c rest ih =>
      rw [parseDigits] at read
      obtain ⟨v, isDigit, later⟩ := Option.bind_eq_some_iff.mp read
      simp only at later
      split at later
      case isFalse => cases later
      case isTrue =>
        refine List.forall_mem_cons.mpr ⟨?_, ih later⟩
        obtain ⟨value, small⟩ := Option.filter_eq_some_iff.mp isDigit
        by_contra outside
        have small : v < 10 := by simpa using small
        split_ifs at value with decimal lower upper
        · simp at decimal
          omega
        · simp at lower value
          omega
        · simp at upper value
          omega

theorem not_mem_of_number {s : Text} {n : Nat} (read : number s = some n) {c : Char}
    (other : c.toNat < 48 ∨ 57 < c.toNat)
    : c ∉ s := by
  intro member
  unfold number at read
  split at read
  case isTrue => cases read
  case isFalse =>
    have digit := digit_of_parseDigits read c member
    omega

theorem number_of_valueIn {lo hi a : Nat} {s : Text} (read : valueIn lo hi s = some a)
    : number s = some a ∧ lo ≤ a ∧ a ≤ hi := by
  obtain ⟨number, within⟩ := Option.filter_eq_some_iff.mp read
  simpa [number] using within

theorem valueIn_eq_none_of_mem {lo hi : Nat} {s : Text} {c : Char} (member : c ∈ s)
    (other : c.toNat < 48 ∨ 57 < c.toNat)
    : valueIn lo hi s = none := by
  rw [Option.eq_none_iff_forall_ne_some]
  intro a read
  exact not_mem_of_number (number_of_valueIn read).1 other member

theorem fromZero_eq_self {s : Text} (plain : '*' ∉ s ∨ '/' ∉ s) : fromZero s = s := by
  fun_induction fromZero s with
  | case1 rest ih => simp at plain
  | case2 c rest _ ih =>
      rw [ih (plain.imp (fun h member => h (by simp [member])) fun h member =>
        h (by simp [member]))]
  | case3 => rfl

theorem splitOn_fromZero (s : Text)
    : (fromZero s).splitOn ',' = (s.splitOn ',').map fromZero := by
  fun_induction fromZero s with
  | case1 rest ih =>
      simp only [List.splitOn_cons_eq_if_modifyHead, ih]
      cases split : rest.splitOn ',' with
      | nil => exact absurd split (List.splitOn_ne_nil ',' rest)
      | cons first others => simp [fromZero]
  | case2 c rest notStep ih =>
      simp only [List.splitOn_cons_eq_if_modifyHead, ih]
      cases split : rest.splitOn ',' with
      | nil => exact absurd split (List.splitOn_ne_nil ',' rest)
      | cons first others =>
          by_cases comma : c = ','
          · simp [comma, fromZero]
          · have same : fromZero (c :: first) = c :: fromZero first := by
              rw [fromZero]
              intro later star slash
              have whole := congrArg ([','].intercalate ·) split
              simp only [List.intercalate_splitOn] at whole
              rw [slash] at whole
              cases others with
              | nil => exact notStep later star (by simpa using whole)
              | cons next others => exact notStep _ star whole
            simp [comma, same]
  | case3 => rfl

theorem fromZero_eq_star {s : Text} : fromZero s = ['*'] ↔ s = ['*'] := by
  constructor
  · intro same
    unfold fromZero at same
    split at same
    · simp at same
    case h_2 c rest _ =>
      obtain ⟨rfl, nothing⟩ := List.cons.inj same
      cases rest with
      | nil => rfl
      | cons d rest =>
          unfold fromZero at nothing
          split at nothing <;> simp_all
    · simp at same
  · intro same
    rw [same]
    rfl

-----------------------------------------------------------------------------------------
-- Items that both languages spell the same
-----------------------------------------------------------------------------------------

/-- A value, or steps from zero where the field starts there and the step fits into it. -/
def GoodItem (lo hi : Nat) (s : Text) : Prop :=
  (∃ a, valueIn lo hi s = some a)
    ∨ lo = 0 ∧ ∃ step n, s = '*' :: '/' :: step ∧ number step = some n ∧ 1 ≤ n ∧ n ≤ hi

theorem calendarSpan_eq_none_of_dash {lo hi : Nat} {s : Text} (dash : '-' ∈ s) (dot : '.' ∉ s)
    : calendarSpan lo hi s = none := by
  rw [calendarSpan, cutAt_eq_none (c := '.') (by decide) dot]
  simp only [valueIn_eq_none_of_mem dash (.inl (by decide)), Option.map_none]

theorem calendarSpan_value {lo hi a : Nat} {s : Text} (read : valueIn lo hi s = some a)
    : calendarSpan lo hi s = some (a, a, hi) := by
  have dot : '.' ∉ s := not_mem_of_number (number_of_valueIn read).1 (.inl (by decide))
  rw [calendarSpan, cutAt_eq_none (c := '.') (by decide) dot]
  simp only [read, Option.map_some]

theorem splitOn_eq_pair {sep : Char} {s first second : Text}
    (cut : s.splitOn sep = [first, second])
    : s = first ++ sep :: second ∧ sep ∉ first ∧ sep ∉ second := by
  have whole : [sep].intercalate (s.splitOn sep) = s := List.intercalate_splitOn sep
  rw [cut] at whole
  refine ⟨whole.symm.trans (by simp), ?_, ?_⟩
  · exact not_mem_of_mem_splitOn (s := s) (by simp [cut])
  · exact not_mem_of_mem_splitOn (s := s) (by simp [cut])

theorem splitOn_eq_single {sep : Char} {s only : Text} (cut : s.splitOn sep = [only])
    : s = only ∧ sep ∉ s := by
  have whole : [sep].intercalate (s.splitOn sep) = s := List.intercalate_splitOn sep
  rw [cut] at whole
  have same : s = only := whole.symm.trans (by simp)
  exact ⟨same, same ▸ not_mem_of_mem_splitOn (s := s) (by simp [cut])⟩

theorem number_chars {s : Text} {n : Nat} (read : number s = some n)
    : '.' ∉ s ∧ '-' ∉ s ∧ '*' ∉ s ∧ '/' ∉ s ∧ '+' ∉ s ∧ ',' ∉ s := by
  refine ⟨?_, ?_, ?_, ?_, ?_, ?_⟩ <;> exact not_mem_of_number read (.inl (by decide))

/-- The span of a crontab item is the star, or holds a dash that no calendar item has. -/
theorem cronSpan_eq_some {lo hi : Nat} {s : Text} {span : Nat × Nat}
    (read : cronSpan lo hi s = some span)
    : (s = ['*'] ∧ span = (lo, hi)) ∨ ('-' ∈ s ∧ '.' ∉ s ∧ '*' ∉ s ∧ '+' ∉ s) := by
  unfold cronSpan at read
  split at read
  case isTrue star => exact .inl ⟨star, (Option.some.inj read).symm⟩
  case isFalse =>
    split at read
    case h_2 => cases read
    case h_1 first last cut =>
      obtain ⟨a, readFirst, later⟩ := Option.bind_eq_some_iff.mp read
      obtain ⟨b, readLast, -⟩ := Option.bind_eq_some_iff.mp later
      obtain ⟨rfl, -, -⟩ := splitOn_eq_pair cut
      have left := number_chars (number_of_valueIn readFirst).1
      have right := number_chars (number_of_valueIn readLast).1
      exact .inr ⟨by simp, by simp [left, right], by simp [left, right], by simp [left, right]⟩

theorem splitOn_step {base step : Text} (noBase : '/' ∉ base) (noStep : '/' ∉ step)
    : (base ++ '/' :: step).splitOn '/' = [base, step] := by
  rw [List.splitOn_append_cons_self_of_not_mem noBase, List.splitOn_eq_singleton noStep]

/-- An item that both languages take says the same in both, and is one of the good ones. -/
theorem items_agree {lo hi : Nat} {s : Text} {steps steps' : Steps}
    (cron : cronItem lo hi s = some steps)
    (calendar : calendarItem lo hi (fromZero s) = some steps')
    : steps = steps' ∧ GoodItem lo hi s := by
  unfold cronItem at cron
  split at cron
  case h_3 => cases cron
  case h_1 base cut =>
    obtain ⟨rfl, slash⟩ := splitOn_eq_single cut
    rw [fromZero_eq_self (.inr slash), calendarItem, cut] at calendar
    simp only at calendar
    cases value : valueIn lo hi s with
    | some a =>
        rw [calendarSpan_value value] at calendar
        simp only [value, Option.map_some, Option.some_or] at cron calendar
        cases cron
        cases calendar
        exact ⟨rfl, .inl ⟨a, value⟩⟩
    | none =>
        simp only [value, Option.map_none, Option.none_or] at cron
        obtain ⟨span, read, -⟩ := Option.map_eq_some_iff.mp cron
        rcases cronSpan_eq_some read with ⟨rfl, -⟩ | ⟨dash, dot, -, -⟩
        · cases calendar
        · rw [calendarSpan_eq_none_of_dash dash dot] at calendar
          cases calendar
  case h_2 base step cut =>
    obtain ⟨rfl, noBase, noStep⟩ := splitOn_eq_pair cut
    obtain ⟨n, readStep, later⟩ := Option.bind_eq_some_iff.mp cron
    obtain ⟨span, read, made⟩ := Option.bind_eq_some_iff.mp later
    obtain ⟨isNumber, pos⟩ := Option.filter_eq_some_iff.mp readStep
    have stepChars := number_chars isNumber
    rcases cronSpan_eq_some read with ⟨rfl, rfl⟩ | ⟨dash, dot, star, -⟩
    · have moved : fromZero (['*'] ++ '/' :: step) = ['0'] ++ '/' :: step := by
        have kept := fromZero_eq_self (s := step) (.inr noStep)
        simp [fromZero, kept]
      rw [moved, calendarItem, splitOn_step (by decide) noStep] at calendar
      obtain ⟨⟨a, b, last⟩, readBase, rest⟩ := Option.bind_eq_some_iff.mp calendar
      obtain ⟨n', readStep', made'⟩ := Option.bind_eq_some_iff.mp rest
      obtain ⟨isNumber', fits⟩ := Option.filter_eq_some_iff.mp readStep'
      have same : n' = n := Option.some.inj (isNumber'.symm.trans isNumber)
      have zero : valueIn lo hi ['0'] = if lo = 0 then some 0 else none := by
        have read : number ['0'] = some 0 := by decide
        rw [valueIn, read]
        by_cases low : lo = 0 <;> simp [low, Option.filter]
      by_cases low : lo = 0
      · subst low
        rw [calendarSpan_value (zero.trans (if_pos rfl))] at readBase
        cases readBase
        cases made
        cases made'
        subst same
        have bounds : 1 ≤ n' ∧ 0 + n' ≤ hi := by simpa using fits
        exact ⟨rfl, .inr ⟨rfl, step, n', rfl, isNumber, bounds.1, by omega⟩⟩
      · have empty : calendarSpan lo hi ['0'] = none := by
          rw [calendarSpan, cutAt_eq_none (c := '.') (by decide) (by decide)]
          simp only [zero, low, if_false, Option.map_none]
        rw [empty] at readBase
        cases readBase
    · have kept : fromZero (base ++ '/' :: step) = base ++ '/' :: step :=
        fromZero_eq_self (.inl (by simp [star, stepChars]))
      rw [kept, calendarItem, cut] at calendar
      simp only [calendarSpan_eq_none_of_dash dash dot] at calendar
      cases calendar

/-- A good item is taken by both languages, says the same, and says something. -/
theorem good_item {lo hi : Nat} {s : Text} (good : GoodItem lo hi s)
    : ∃ steps, cronItem lo hi s = some steps ∧ calendarItem lo hi (fromZero s) = some steps
      ∧ ∃ v, lo ≤ v ∧ v ≤ hi ∧ steps.has v := by
  rcases good with ⟨a, value⟩ | ⟨rfl, step, n, rfl, isNumber, pos, small⟩
  · obtain ⟨isNumber, low, high⟩ := number_of_valueIn value
    have slash := (number_chars isNumber).2.2.2.1
    have cut := List.splitOn_eq_singleton slash
    refine ⟨⟨a, a, 1⟩, ?_, ?_, a, low, high, by simp [Steps.has]⟩
    · rw [cronItem, cut]
      simp [value]
    · rw [fromZero_eq_self (.inr slash), calendarItem, cut]
      simp [calendarSpan_value value]
  · have noStep := (number_chars isNumber).2.2.2.1
    have moved : fromZero ('*' :: '/' :: step) = ['0'] ++ '/' :: step := by
      simp [fromZero, fromZero_eq_self (s := step) (.inr noStep)]
    have zero : valueIn 0 hi ['0'] = some 0 := by
      have read : number ['0'] = some 0 := by decide
      simp [valueIn, read, Option.filter]
    refine ⟨⟨0, hi, n⟩, ?_, ?_, 0, by omega, by omega, by simp [Steps.has]⟩
    · rw [cronItem, show '*' :: '/' :: step = ['*'] ++ '/' :: step from rfl,
        splitOn_step (by decide) noStep]
      simp [isNumber, cronSpan, Option.filter, pos]
    · rw [moved, calendarItem, splitOn_step (by decide) noStep]
      simp [calendarSpan_value zero, isNumber, Option.filter, pos, small]

-----------------------------------------------------------------------------------------
-- Fields
-----------------------------------------------------------------------------------------

/-- Any value, or a list of good items. -/
def GoodField (lo hi : Nat) (s : Text) : Prop :=
  s = ['*'] ∨ ∀ part ∈ s.splitOn ',', GoodItem lo hi part

theorem cronField_star (lo hi : Nat) : cronField lo hi ['*'] = some [⟨lo, hi, 1⟩] := rfl

theorem lists_agree {lo hi : Nat} {parts : List Text} {items items' : List Steps}
    (cron : List.Forall₂ (fun part item => cronItem lo hi part = some item) parts items)
    (calendar : List.Forall₂ (fun part item => calendarItem lo hi (fromZero part) = some item)
      parts items')
    : items = items' ∧ ∀ part ∈ parts, GoodItem lo hi part := by
  induction cron generalizing items' with
  | nil =>
      cases calendar
      exact ⟨rfl, by simp⟩
  | cons first _ ih =>
      cases calendar with
      | cons first' rest' =>
          obtain ⟨same, good⟩ := items_agree first first'
          obtain ⟨others, all⟩ := ih rest'
          exact ⟨by rw [same, others], List.forall_mem_cons.mpr ⟨good, all⟩⟩

theorem fields_agree {lo hi : Nat} {s : Text} {items items' : List Steps}
    (cron : cronField lo hi s = some items)
    (calendar : calendarComponent lo hi (fromZero s) = some items')
    : items = items' ∧ GoodField lo hi s := by
  unfold calendarComponent at calendar
  split at calendar
  case isTrue star =>
    rw [fromZero_eq_star] at star
    subst star
    rw [cronField_star] at cron
    cases cron
    cases calendar
    exact ⟨rfl, .inl rfl⟩
  case isFalse =>
    rw [splitOn_fromZero] at calendar
    obtain ⟨same, good⟩ := lists_agree (mapM_eq_some.mp cron)
      (List.forall₂_map_left_iff.mp (mapM_eq_some.mp calendar))
    exact ⟨same, .inr good⟩

/-- A good field is taken by both languages, says the same, and says something. -/
theorem good_field {lo hi : Nat} {s : Text} (range : lo ≤ hi) (good : GoodField lo hi s)
    : ∃ items, cronField lo hi s = some items
      ∧ calendarComponent lo hi (fromZero s) = some items
      ∧ ∃ v, lo ≤ v ∧ v ≤ hi ∧ anyHas items v := by
  by_cases star : s = ['*']
  · subst star
    exact ⟨[⟨lo, hi, 1⟩], rfl, rfl, lo, le_rfl, range, by simp [anyHas, Steps.has, range]⟩
  · have all := good.resolve_left star
    have notStar : fromZero s ≠ ['*'] := fun same => star (fromZero_eq_star.mp same)
    rw [cronField, calendarComponent, if_neg notStar, splitOn_fromZero]
    have nonempty : s.splitOn ',' ≠ [] := List.splitOn_ne_nil ',' s
    generalize s.splitOn ',' = parts at all nonempty
    have read : ∃ items, List.Forall₂ (fun part item => cronItem lo hi part = some item
        ∧ calendarItem lo hi (fromZero part) = some item) parts items := by
      clear nonempty
      induction parts with
      | nil => exact ⟨[], .nil⟩
      | cons part parts ih =>
          obtain ⟨good, others⟩ := List.forall_mem_cons.mp all
          obtain ⟨item, cron, calendar, -⟩ := good_item good
          obtain ⟨items, rest⟩ := ih others
          exact ⟨item :: items, .cons ⟨cron, calendar⟩ rest⟩
    obtain ⟨items, read⟩ := read
    refine ⟨items, mapM_eq_some.mpr (read.imp fun _ _ h => h.1), ?_, ?_⟩
    · exact mapM_eq_some.mpr (List.forall₂_map_left_iff.mpr (read.imp fun _ _ h => h.2))
    · obtain ⟨part, member⟩ := List.exists_mem_of_ne_nil _ nonempty
      obtain ⟨item, inItems, cron, -⟩ := exists_of_forall₂_left read member
      obtain ⟨item', cron', -, v, low, high, has⟩ := good_item (all part member)
      rw [cron] at cron'
      cases cron'
      exact ⟨v, low, high, List.any_eq_true.mpr ⟨item, inItems, has⟩⟩

/-- A value that a field of plain values lists. -/
def Lists (s : Text) (v : Nat) : Prop :=
  s = ['*'] ∨ ∃ part ∈ s.splitOn ',', number part = some v

theorem cronItem_value {lo hi a : Nat} {s : Text} (value : valueIn lo hi s = some a)
    : cronItem lo hi s = some ⟨a, a, 1⟩ := by
  have slash := (number_chars (number_of_valueIn value).1).2.2.2.1
  rw [cronItem, List.splitOn_eq_singleton slash]
  simp [value]

theorem has_value (a v : Nat) : (⟨a, a, 1⟩ : Steps).has v = true ↔ v = a := by
  simp only [Steps.has, Nat.mod_one, BEq.rfl, Bool.and_true, Bool.and_eq_true, decide_eq_true_eq]
  omega

/-- Items that are plain values are those listed. -/
theorem anyHas_values {lo hi : Nat} {s : Text} {items : List Steps}
    (read : cronField lo hi s = some items)
    (values : ∀ part ∈ s.splitOn ',', ∃ a, valueIn lo hi part = some a) (v : Nat)
    : anyHas items v = true ↔ ∃ part ∈ s.splitOn ',', number part = some v := by
  have all := mapM_eq_some.mp read
  rw [anyHas, List.any_eq_true]
  constructor
  · intro h
    obtain ⟨item, member, has⟩ := h
    obtain ⟨part, inParts, made⟩ := exists_of_forall₂_right all member
    obtain ⟨a, value⟩ := values part inParts
    rw [cronItem_value value] at made
    cases made
    exact ⟨part, inParts, (has_value a v).mp has ▸ (number_of_valueIn value).1⟩
  · intro h
    obtain ⟨part, inParts, isNumber⟩ := h
    obtain ⟨item, member, made⟩ := exists_of_forall₂_left all inParts
    obtain ⟨a, value⟩ := values part inParts
    have same : a = v := Option.some.inj ((number_of_valueIn value).1.symm.trans isNumber)
    rw [cronItem_value value] at made
    cases made
    exact ⟨_, member, (has_value a v).mpr same.symm⟩

/-- The values of a good field of dates, which has no steps. -/
theorem anyHas_iff_lists {hi : Nat} {s : Text} {items : List Steps}
    (read : cronField 1 hi s = some items) (good : GoodField 1 hi s) {v : Nat} (low : 1 ≤ v)
    (high : v ≤ hi)
    : anyHas items v = true ↔ Lists s v := by
  by_cases star : s = ['*']
  · subst star
    rw [cronField_star] at read
    cases read
    simp [anyHas, Steps.has, Lists, low, high, Nat.mod_one]
  · have values : ∀ part ∈ s.splitOn ',', ∃ a, valueIn 1 hi part = some a := by
      intro part member
      rcases good.resolve_left star part member with value | ⟨zero, -⟩
      · exact value
      · cases zero
    rw [anyHas_values read values, Lists, or_iff_right star]

-----------------------------------------------------------------------------------------
-- Weekdays
-----------------------------------------------------------------------------------------

/-- A weekday that the field names by number, with 7 as another Sunday. -/
def ListsWeekday (dow : Text) (w : Nat) : Prop :=
  ∃ part ∈ dow.splitOn ',', ∃ n, number part = some n ∧ n % 7 = w

/-- What the translation takes for a day number. -/
def IsDayNumber (part : Text) : Prop := ∃ n, parseUnsigned 10 usizeMax part = some n ∧ n ≤ 7

/-- The day field that the translation takes. -/
def DayNumbers (dow : Text) : Prop := dow = ['*'] ∨ ∀ part ∈ dow.splitOn ',', IsDayNumber part

theorem number_of_parseUnsigned {s : Text} {n : Nat}
    (read : parseUnsigned 10 usizeMax s = some n) (noSign : '+' ∉ s)
    : number s = some n := by
  unfold parseUnsigned at read
  split at read
  case h_1 => cases read
  case h_2 => cases read
  case h_3 => simp at noSign
  case h_4 nonempty _ _ =>
    rw [number, if_neg nonempty]
    exact read

/-- The names are those of the numbers, by induction over the parts. -/
theorem dayNames_ok {names out parts : List Text} (made : dayNames names parts = .ok out)
    : (∀ part ∈ parts, IsDayNumber part)
      ∧ ∀ name, name ∈ out ↔ name ∈ names ∨ ∃ part ∈ parts, ∃ n,
        parseUnsigned 10 usizeMax part = some n ∧ days[n]? = some name := by
  induction parts generalizing names with
  | nil =>
      cases made
      simp
  | cons part parts ih =>
      rw [dayNames] at made
      split at made
      case h_1 => cases made
      case h_2 n read =>
        split at made
        case h_1 => cases made
        case h_2 name named =>
          obtain ⟨others, members⟩ := ih made
          have small : n < 8 := (List.getElem?_eq_some_iff.mp named).1
          refine ⟨List.forall_mem_cons.mpr ⟨⟨n, read, by omega⟩, others⟩, fun other => ?_⟩
          have added : other ∈ (if name ∈ names then names else names ++ [name])
              ↔ other ∈ names ∨ other = name := by
            split
            case isTrue old =>
              exact ⟨.inl, fun h => h.elim id fun same => same ▸ old⟩
            case isFalse => simp
          have here : (∃ n, parseUnsigned 10 usizeMax part = some n ∧ days[n]? = some other)
              ↔ other = name := by
            simp [read, named, eq_comm]
          rw [members, added, List.exists_mem_cons_iff, here, or_assoc]

theorem dayNames_total {names parts : List Text} (all : ∀ part ∈ parts, IsDayNumber part)
    : ∃ out, dayNames names parts = .ok out := by
  induction parts generalizing names with
  | nil => exact ⟨names, rfl⟩
  | cons part parts ih =>
      obtain ⟨⟨n, read, small⟩, others⟩ := List.forall_mem_cons.mp all
      have named : n < days.length := by
        have length : days.length = 8 := by decide
        omega
      rw [dayNames, read]
      simp only [List.getElem?_eq_getElem named]
      exact ih others

theorem days_plain : ∀ name ∈ days, ',' ∉ name ∧ ' ' ∉ name := by decide

theorem weekdayItem_days : ∀ n < 8, days[n]?.bind weekdayItem = some [n % 7] := by decide

theorem weekdayItem_of_named {n : Nat} {name : Text} (named : days[n]? = some name)
    : weekdayItem name = some [n % 7] := by
  have item := weekdayItem_days n (List.getElem?_eq_some_iff.mp named).1
  rwa [named] at item

/-- The weekdays of a list of names are those of the names. -/
theorem calendarDays_eq {names : List Text} (nonempty : names ≠ [])
    (all : ∀ name ∈ names, name ∈ days)
    : ∃ ws, calendarDays ([','].intercalate names) = some ws
      ∧ ∀ w, w ∈ ws ↔ ∃ n, n ≤ 7 ∧ n % 7 = w ∧ ∃ name ∈ names, days[n]? = some name := by
  have split : ([','].intercalate names).splitOn ',' = names :=
    List.splitOn_intercalate ',' (fun name member => (days_plain name (all name member)).1) nonempty
  have item (name : Text) (member : name ∈ days)
      : ∃ n, n ≤ 7 ∧ days[n]? = some name ∧ weekdayItem name = some [n % 7] := by
    obtain ⟨n, named⟩ := List.getElem?_of_mem member
    have small : n < 8 := (List.getElem?_eq_some_iff.mp named).1
    exact ⟨n, by omega, named, weekdayItem_of_named named⟩
  obtain ⟨lists, read⟩ : ∃ lists, names.mapM weekdayItem = some lists := by
    clear nonempty split
    induction names with
    | nil => exact ⟨[], rfl⟩
    | cons name names ih =>
        obtain ⟨n, -, -, first⟩ := item name (all name (by simp))
        obtain ⟨lists, rest⟩ := ih fun other member => all other (by simp [member])
        exact ⟨[n % 7] :: lists, by rw [List.mapM_cons, first, rest]; rfl⟩
  refine ⟨lists.flatten, by rw [calendarDays, split, read]; rfl, fun w => ?_⟩
  have each := mapM_eq_some.mp read
  rw [List.mem_flatten]
  constructor
  · intro h
    obtain ⟨list, inLists, member⟩ := h
    obtain ⟨name, inNames, made⟩ := exists_of_forall₂_right each inLists
    obtain ⟨n, small, named, made'⟩ := item name (all name inNames)
    rw [made] at made'
    cases made'
    exact ⟨n, small, (List.mem_singleton.mp member).symm, name, inNames, named⟩
  · intro h
    obtain ⟨n, small, same, name, inNames, named⟩ := h
    obtain ⟨list, inLists, made⟩ := exists_of_forall₂_left each inNames
    rw [weekdayItem_of_named named] at made
    cases made
    exact ⟨_, inLists, by simp [same]⟩

/-- No item of a crontab has a sign. -/
theorem noSign_of_cronItem {lo hi : Nat} {s : Text} {steps : Steps}
    (read : cronItem lo hi s = some steps)
    : '+' ∉ s := by
  unfold cronItem at read
  split at read
  case h_3 => cases read
  case h_1 base cut =>
    obtain ⟨rfl, -⟩ := splitOn_eq_single cut
    cases value : valueIn lo hi s with
    | some a => exact (number_chars (number_of_valueIn value).1).2.2.2.2.1
    | none =>
        simp only [value, Option.map_none, Option.none_or] at read
        obtain ⟨span, isSpan, -⟩ := Option.map_eq_some_iff.mp read
        rcases cronSpan_eq_some isSpan with ⟨rfl, -⟩ | ⟨-, -, -, noSign⟩
        · decide
        · exact noSign
  case h_2 base step cut =>
    obtain ⟨rfl, -, -⟩ := splitOn_eq_pair cut
    obtain ⟨n, readStep, later⟩ := Option.bind_eq_some_iff.mp read
    obtain ⟨span, isSpan, -⟩ := Option.bind_eq_some_iff.mp later
    have stepChars := number_chars (Option.filter_eq_some_iff.mp readStep).1
    rcases cronSpan_eq_some isSpan with ⟨rfl, -⟩ | ⟨-, -, -, noSign⟩
    · simp [stepChars]
    · simp [stepChars, noSign]

theorem noSign_of_cronField {lo hi : Nat} {s : Text} {items : List Steps}
    (read : cronField lo hi s = some items)
    : '+' ∉ s := by
  intro sign
  rw [← (List.intercalate_splitOn ',' : [','].intercalate (s.splitOn ',') = s)] at sign
  rcases mem_intercalate sign with comma | ⟨part, member, sign⟩
  · simp at comma
  · obtain ⟨item, -, made⟩ := exists_of_forall₂_left (mapM_eq_some.mp read) member
    exact noSign_of_cronItem made sign

/-- Numbers without a sign are a day field of a crontab. -/
theorem cronField_days {dow : Text} (all : ∀ part ∈ dow.splitOn ',', IsDayNumber part)
    (noSign : '+' ∉ dow)
    : (∀ part ∈ dow.splitOn ',', ∃ a, valueIn 0 7 part = some a)
      ∧ ∃ items, cronField 0 7 dow = some items := by
  have values : ∀ part ∈ dow.splitOn ',', ∃ a, valueIn 0 7 part = some a := by
    intro part member
    obtain ⟨n, read, small⟩ := all part member
    have isNumber := number_of_parseUnsigned read
      fun sign => noSign (subset_of_mem_splitOn member sign)
    exact ⟨n, by simp [valueIn, isNumber, Option.filter, small]⟩
  refine ⟨values, ?_⟩
  rw [cronField]
  generalize dow.splitOn ',' = parts at values
  induction parts with
  | nil => exact ⟨[], rfl⟩
  | cons part parts ih =>
      obtain ⟨⟨a, value⟩, others⟩ := List.forall_mem_cons.mp values
      obtain ⟨items, rest⟩ := ih others
      exact ⟨⟨a, a, 1⟩ :: items, by rw [List.mapM_cons, cronItem_value value, rest]; rfl⟩

-----------------------------------------------------------------------------------------
-- The translated text
-----------------------------------------------------------------------------------------

theorem mem_fromZero {s : Text} {c : Char} (member : c ∈ fromZero s) : c ∈ s ∨ c = '0' := by
  fun_induction fromZero s with
  | case1 rest ih =>
      simp only [List.mem_cons] at member ⊢
      rcases member with zero | slash | later
      · exact .inr zero
      · exact .inl (.inr (.inl slash))
      · exact (ih later).imp (fun h => .inr (.inr h)) id
  | case2 d rest _ ih =>
      rcases List.mem_cons.mp member with same | later
      · exact .inl (by simp [same])
      · exact (ih later).imp (fun h => by simp [h]) id
  | case3 => cases member

theorem field_eq_ok {v what out : Text}
    : field v what = .ok out ↔ v.all fieldChar = true ∧ out = fromZero v := by
  rw [field]
  split
  case isTrue all => simp [all, eq_comm]
  case isFalse other => simp [other]

/-- A field has none of the characters that part the text. -/
theorem not_mem_fromZero {v : Text} (all : v.all fieldChar = true) {c : Char}
    (other : fieldChar c = false)
    : c ∉ fromZero v := by
  intro member
  rcases mem_fromZero member with inside | rfl
  · rw [List.all_eq_true.mp all c inside] at other
    cases other
  · cases other

theorem calendarDate_eq_some {mon dom : Text} {parsed : List Steps × List Steps}
    : calendarDate ('*' :: '-' :: (mon ++ '-' :: dom)) = some parsed
      ↔ '-' ∉ mon ∧ '-' ∉ dom ∧ calendarComponent 1 12 mon = some parsed.1
        ∧ calendarComponent 1 31 dom = some parsed.2 := by
  have cut : ('*' :: '-' :: (mon ++ '-' :: dom)).splitOn '-'
      = ['*'] :: (mon.splitOn '-' ++ dom.splitOn '-') := by
    rw [← List.splitOn_append_cons_self]
    exact @List.splitOn_append_cons_self_of_not_mem _ ['*'] _ _ _ (by decide) _
  unfold calendarDate
  rw [cut]
  constructor
  · intro read
    split at read
    case h_2 => cases read
    case h_1 first second parts =>
      obtain ⟨-, both⟩ := List.cons.inj parts
      obtain ⟨x, xs, monParts⟩ := List.exists_cons_of_ne_nil (List.splitOn_ne_nil '-' mon)
      obtain ⟨y, ys, domParts⟩ := List.exists_cons_of_ne_nil (List.splitOn_ne_nil '-' dom)
      rw [monParts, domParts] at both
      cases xs with
      | cons z zs =>
          have long := congrArg List.length both
          simp at long
      | nil =>
          obtain ⟨sameMon, sameDom⟩ := List.cons.inj both
          obtain ⟨sameDom, noMore⟩ := List.cons.inj sameDom
          subst sameMon sameDom noMore
          obtain ⟨rfl, noMon⟩ := splitOn_eq_single monParts
          obtain ⟨rfl, noDom⟩ := splitOn_eq_single domParts
          obtain ⟨month, readMonth, later⟩ := Option.bind_eq_some_iff.mp read
          obtain ⟨day, readDay, made⟩ := Option.bind_eq_some_iff.mp later
          cases made
          exact ⟨noMon, noDom, readMonth, readDay⟩
  · intro h
    obtain ⟨noMon, noDom, readMonth, readDay⟩ := h
    rw [List.splitOn_eq_singleton noMon, List.splitOn_eq_singleton noDom]
    simp [readMonth, readDay]

theorem calendarTime_eq_some {hour min : Text} (noHour : ':' ∉ hour) (noMin : ':' ∉ min)
    {parsed : List Steps × List Steps}
    : calendarTime (hour ++ ':' :: (min ++ ":00".toList)) = some parsed
      ↔ calendarComponent 0 23 hour = some parsed.1
        ∧ calendarComponent 0 59 min = some parsed.2 := by
  have cut : (hour ++ ':' :: (min ++ ":00".toList)).splitOn ':' = [hour, min, ['0', '0']] := by
    rw [List.splitOn_append_cons_self_of_not_mem noHour,
      show min ++ ":00".toList = min ++ ':' :: ['0', '0'] from rfl,
      List.splitOn_append_cons_self_of_not_mem noMin]
    rfl
  rw [calendarTime, cut]
  simp only [Option.bind_eq_bind, Option.bind_eq_some_iff, Option.some.injEq]
  constructor
  · intro h
    obtain ⟨hours, readHours, minutes, readMinutes, rfl⟩ := h
    exact ⟨readHours, readMinutes⟩
  · intro h
    exact ⟨parsed.1, h.1, parsed.2, h.2, rfl⟩

theorem datedTimed_eq_some {ws : List Nat} {date time : Text} {calendar : Calendar}
    : ((calendarDate date).bind fun dates => (calendarTime time).bind fun times =>
        some (⟨ws, dates.1, dates.2, times.1, times.2⟩ : Calendar)) = some calendar
      ↔ ∃ dates times, calendarDate date = some dates ∧ calendarTime time = some times
        ∧ calendar = ⟨ws, dates.1, dates.2, times.1, times.2⟩ := by
  simp only [Option.bind_eq_some_iff, Option.some.injEq]
  constructor
  · intro h
    obtain ⟨dates, readDate, times, readTime, made⟩ := h
    exact ⟨dates, times, readDate, readTime, made.symm⟩
  · intro h
    obtain ⟨dates, times, readDate, readTime, made⟩ := h
    exact ⟨dates, readDate, times, readTime, made.symm⟩

/-- The weekdays that the translation reads. -/
def ReadsWeekday (dow : Text) (w : Nat) : Prop :=
  dow = ['*'] ∨ ∃ part ∈ dow.splitOn ',', ∃ n, n ≤ 7
    ∧ parseUnsigned 10 usizeMax part = some n ∧ n % 7 = w

/-- The translated text is read as its weekdays, its date and its time. -/
theorem parse_translated {dow weekdayText date time : Text} (made : dayText dow = .ok weekdayText)
    (noDate : ' ' ∉ date) (noTime : ' ' ∉ time)
    : ∃ ws : List Nat, (∀ w ≤ 6, w ∈ ws ↔ ReadsWeekday dow w)
      ∧ ∀ calendar, Calendar.parse (weekdayText ++ date ++ ' ' :: time) = some calendar
        ↔ ∃ dates times, calendarDate date = some dates ∧ calendarTime time = some times
          ∧ calendar = ⟨ws, dates.1, dates.2, times.1, times.2⟩ := by
  unfold dayText at made
  split at made
  case isTrue star =>
    cases made
    refine ⟨List.range 7, fun w small => ?_, fun calendar => ?_⟩
    · simp [ReadsWeekday, star]
      omega
    · have cut : ([] ++ date ++ ' ' :: time).splitOn ' ' = [date, time] := by
        rw [List.nil_append, List.splitOn_append_cons_self_of_not_mem noDate,
          List.splitOn_eq_singleton noTime]
      rw [Calendar.parse, cut]
      exact datedTimed_eq_some
  case isFalse star =>
    obtain ⟨names, named, rfl⟩ := map_eq_ok.mp made
    obtain ⟨numbers, members⟩ := dayNames_ok named
    have all : ∀ name ∈ names, name ∈ days := by
      intro name member
      obtain h | ⟨part, -, n, -, isName⟩ := (members name).mp member
      · cases h
      · exact List.mem_of_getElem? isName
    have nonempty : names ≠ [] := by
      obtain ⟨part, member⟩ := List.exists_mem_of_ne_nil _ (List.splitOn_ne_nil ',' dow)
      obtain ⟨n, read, small⟩ := numbers part member
      have bound : n < days.length := by
        have length : days.length = 8 := by decide
        omega
      exact List.ne_nil_of_mem ((members days[n]).mpr
        (.inr ⟨part, member, n, read, List.getElem?_eq_getElem bound⟩))
    obtain ⟨ws, readDays, inWeek⟩ := calendarDays_eq nonempty all
    refine ⟨ws, fun w small => ?_, fun calendar => ?_⟩
    · rw [inWeek, ReadsWeekday, or_iff_right star]
      constructor
      · intro h
        obtain ⟨n, small, same, name, member, isName⟩ := h
        obtain h | ⟨part, inParts, m, read, isName'⟩ := (members name).mp member
        · cases h
        · have sameDay := (weekdayItem_of_named isName).symm.trans (weekdayItem_of_named isName')
          have mod : n % 7 = m % 7 := by simpa using sameDay
          obtain ⟨m', read', small'⟩ := numbers part inParts
          rw [read] at read'
          cases read'
          exact ⟨part, inParts, m, small', read, by omega⟩
      · intro h
        obtain ⟨part, inParts, n, small, read, same⟩ := h
        have bound : n < days.length := by
          have length : days.length = 8 := by decide
          omega
        have isName := List.getElem?_eq_getElem bound
        exact ⟨n, small, same, days[n],
          (members _).mpr (.inr ⟨part, inParts, n, read, isName⟩), isName⟩
    · have noNames : ' ' ∉ [','].intercalate names := by
        intro blank
        rcases mem_intercalate blank with comma | ⟨name, member, blank⟩
        · simp at comma
        · exact (days_plain name (all name member)).2 blank
      have cut : ([','].intercalate names ++ [' '] ++ date ++ ' ' :: time).splitOn ' '
          = [[','].intercalate names, date, time] := by
        rw [List.append_assoc, List.append_assoc, List.singleton_append,
          List.splitOn_append_cons_self_of_not_mem noNames,
          List.splitOn_append_cons_self_of_not_mem noDate, List.splitOn_eq_singleton noTime]
      rw [Calendar.parse, cut]
      simp only [readDays]
      exact datedTimed_eq_some

end Delonix.Backup
