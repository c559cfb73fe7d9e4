import Delonix.Backup.CronText
import Mathlib.Tactic.Tauto

/-! When a translated schedule fires as the crontab expression says: on the part of crontab
expressions that calendar expressions spell the same.
-/

namespace Delonix.Backup

open Delonix.Library.Checks
open Delonix.Library.Pieces
open Delonix.Library.Text
open Delonix.Library.Words

/-- The text is a calendar expression for exactly the minutes of the crontab expression. -/
def Denotes (text expr : Text) : Prop :=
  ∃ cron calendar, Cron.parse expr = some cron ∧ Calendar.parse text = some calendar
    ∧ ∀ m : Moment, calendar.fires m = cron.fires m

/-- The weekdays of the crontab are those of the translation. -/
theorem onWeekday_iff {dow : Text} {items : List Steps} {cron : Cron}
    (read : cronField 0 7 dow = some items) (is : cron.weekday = items)
    (numbers : DayNumbers dow) {w : Nat} (small : w ≤ 6)
    : cron.onWeekday w = true ↔ ReadsWeekday dow w := by
  have noSign := noSign_of_cronField read
  rw [Cron.onWeekday, is, Bool.or_eq_true, Bool.and_eq_true, beq_iff_eq]
  by_cases star : dow = ['*']
  · subst star
    rw [cronField_star] at read
    cases read
    simp [anyHas, Steps.has, ReadsWeekday, Nat.mod_one]
    omega
  · have all := numbers.resolve_left star
    obtain ⟨values, -⟩ := cronField_days all noSign
    rw [anyHas_values read values, anyHas_values read values, ReadsWeekday, or_iff_right star]
    constructor
    · intro h
      rcases h with ⟨part, member, isNumber⟩ | ⟨rfl, part, member, isNumber⟩
      · obtain ⟨n, parsed, bound⟩ := all part member
        have same := number_of_parseUnsigned parsed
          fun sign => noSign (subset_of_mem_splitOn member sign)
        rw [isNumber] at same
        cases same
        exact ⟨part, member, w, bound, parsed, by omega⟩
      · obtain ⟨n, parsed, bound⟩ := all part member
        have same := number_of_parseUnsigned parsed
          fun sign => noSign (subset_of_mem_splitOn member sign)
        rw [isNumber] at same
        cases same
        exact ⟨part, member, 7, bound, parsed, rfl⟩
    · intro h
      obtain ⟨part, member, n, bound, parsed, same⟩ := h
      have isNumber := number_of_parseUnsigned parsed
        fun sign => noSign (subset_of_mem_splitOn member sign)
      by_cases sunday : n = 7
      · subst sunday
        exact .inr ⟨by omega, part, member, isNumber⟩
      · have here : n = w := by omega
        exact .inl ⟨part, member, here ▸ isNumber⟩

section Meaning

variable {minute hours day month weekday : List Steps} {ws : List Nat} {dayRestricted
  weekdayRestricted : Bool}

theorem fires_eq_of_one_day
    (weekdays : ∀ w ≤ 6, (Cron.mk minute hours day month weekday dayRestricted
      weekdayRestricted).onWeekday w = true ↔ w ∈ ws)
    (one : (dayRestricted && weekdayRestricted) = false) (m : Moment)
    : (Calendar.mk ws month day hours minute).fires m
      = (Cron.mk minute hours day month weekday dayRestricted weekdayRestricted).fires m := by
  have week := weekdays m.weekday m.inWeek
  rw [Bool.eq_iff_iff]
  simp only [Calendar.fires, Cron.fires, Cron.onDay, one, Bool.and_eq_true,
    List.contains_iff_mem, Bool.false_eq_true, if_false, week]
  tauto

/-- With both days restricted, the languages agree only when nothing is left out by either. -/
theorem fires_eq_iff_of_both
    (weekdays : ∀ w ≤ 6, (Cron.mk minute hours day month weekday true true).onWeekday w = true
      ↔ w ∈ ws)
    (someMinute : ∃ v, 0 ≤ v ∧ v ≤ 59 ∧ anyHas minute v)
    (someHour : ∃ v, 0 ≤ v ∧ v ≤ 23 ∧ anyHas hours v)
    (someMonth : ∃ v, 1 ≤ v ∧ v ≤ 12 ∧ anyHas month v) (someWeekday : ∃ w ≤ 6, w ∈ ws)
    : (∀ m, (Calendar.mk ws month day hours minute).fires m
        = (Cron.mk minute hours day month weekday true true).fires m)
      ↔ (∀ v, 1 ≤ v → v ≤ 12 → anyHas month v → ∀ d, 1 ≤ d → d ≤ longestMonth v → anyHas day d)
        ∧ ∀ w ≤ 6, w ∈ ws := by
  have one (m : Moment)
      : ((Calendar.mk ws month day hours minute).fires m
          = (Cron.mk minute hours day month weekday true true).fires m)
        ↔ (anyHas minute m.minute → anyHas hours m.hour → anyHas month m.month →
          (anyHas day m.day ↔ m.weekday ∈ ws)) := by
    have week := weekdays m.weekday m.inWeek
    rw [Bool.eq_iff_iff]
    simp only [Calendar.fires, Cron.fires, Cron.onDay, Bool.and_eq_true, Bool.or_eq_true,
      List.contains_iff_mem, Bool.and_self, if_true, week]
    tauto
  obtain ⟨mi, -, miHigh, miHas⟩ := someMinute
  obtain ⟨ho, -, hoHigh, hoHas⟩ := someHour
  obtain ⟨mo, moLow, moHigh, moHas⟩ := someMonth
  obtain ⟨we, weHigh, weHas⟩ := someWeekday
  constructor
  · intro same
    have atDay (v d w : Nat) (vLow : 1 ≤ v) (vHigh : v ≤ 12) (vHas : anyHas month v)
        (dLow : 1 ≤ d) (dHigh : d ≤ longestMonth v) (wHigh : w ≤ 6)
        : anyHas day d ↔ w ∈ ws :=
      (one ⟨mi, ho, d, v, w, miHigh, hoHigh, ⟨dLow, dHigh⟩, ⟨vLow, vHigh⟩, wHigh⟩).mp
        (same _) miHas hoHas vHas
    have everyDay (v : Nat) (vLow : 1 ≤ v) (vHigh : v ≤ 12) (vHas : anyHas month v) (d : Nat)
        (dLow : 1 ≤ d) (dHigh : d ≤ longestMonth v)
        : anyHas day d = true :=
      (atDay v d we vLow vHigh vHas dLow dHigh weHigh).mpr weHas
    refine ⟨everyDay, fun w high => ?_⟩
    have first : 1 ≤ longestMonth mo := by
      have lengths : ∀ v, 1 ≤ v → v ≤ 12 → 1 ≤ longestMonth v := by decide
      exact lengths mo moLow moHigh
    exact (atDay mo 1 w moLow moHigh moHas le_rfl first high).mp
      (everyDay mo moLow moHigh moHas 1 le_rfl first)
  · intro h m
    refine (one m).mpr fun _ _ inMonth => ?_
    exact ⟨fun _ => h.2 m.weekday m.inWeek,
      fun _ => h.1 m.month m.inYear.1 m.inYear.2 inMonth m.day m.inMonth.1 m.inMonth.2⟩

end Meaning

/-- All weekdays are listed and, for the listed months, all days. -/
structure EveryDay (dom mon dow : Text) : Prop where
  dates : ∀ v, 1 ≤ v → v ≤ 12 → Lists mon v → ∀ d, 1 ≤ d → d ≤ longestMonth v → Lists dom d
  week : ∀ w ≤ 6, ListsWeekday dow w

/-- The part of crontab expressions that the translation carries over. -/
structure Common (min hour dom mon dow : Text) : Prop where
  minute : GoodField 0 59 min
  hours : GoodField 0 23 hour
  day : GoodField 1 31 dom
  month : GoodField 1 12 mon
  noSign : '+' ∉ dow
  oneDay : dom = ['*'] ∨ dow = ['*'] ∨ EveryDay dom mon dow

/-- The expressions that the translation does not refuse. -/
structure Taken (expr min hour dom mon dow : Text) : Prop where
  fields : splitWhitespace expr = [min, hour, dom, mon, dow]
  minute : min.all fieldChar = true
  hours : hour.all fieldChar = true
  day : dom.all fieldChar = true
  month : mon.all fieldChar = true
  numbers : DayNumbers dow

theorem dayText_ok {dow out : Text} (made : dayText dow = .ok out) : DayNumbers dow := by
  unfold dayText at made
  split at made
  case isTrue star => exact .inl star
  case isFalse =>
    obtain ⟨names, named, -⟩ := map_eq_ok.mp made
    exact .inr (dayNames_ok named).1

theorem dayText_total {dow : Text} (numbers : DayNumbers dow) : ∃ out, dayText dow = .ok out := by
  unfold dayText
  split
  case isTrue => exact ⟨[], rfl⟩
  case isFalse star =>
    obtain ⟨names, named⟩ : ∃ names, dayNames [] (dow.splitOn ',') = .ok names :=
      dayNames_total (numbers.resolve_left star)
    exact ⟨_, map_eq_ok.mpr ⟨names, named, rfl⟩⟩

/-- The text of the translation, and what it is made from. -/
theorem cronToOnCalendar_eq_ok {expr text : Text}
    : cronToOnCalendar expr = .ok text
      ↔ ∃ min hour dom mon dow weekdayText, Taken expr min hour dom mon dow
        ∧ dayText dow = .ok weekdayText
        ∧ text = weekdayText ++ ('*' :: '-' :: (fromZero mon ++ '-' :: fromZero dom))
          ++ ' ' :: (fromZero hour ++ ':' :: (fromZero min ++ ":00".toList)) := by
  unfold cronToOnCalendar
  split
  case h_2 fields other =>
    constructor
    · intro h
      cases h
    · intro h
      obtain ⟨min, hour, dom, mon, dow, -, taken, -⟩ := h
      exact absurd taken.fields (other min hour dom mon dow)
  case h_1 min hour dom mon dow cut =>
    simp only [bind_eq_ok, field_eq_ok, Except.ok.injEq]
    constructor
    · intro h
      obtain ⟨_, ⟨minute, rfl⟩, _, ⟨hours, rfl⟩, _, ⟨day, rfl⟩, _, ⟨month, rfl⟩, weekdayText, made,
        rfl⟩ := h
      exact ⟨min, hour, dom, mon, dow, weekdayText,
        ⟨cut, minute, hours, day, month, dayText_ok made⟩, made, rfl⟩
    · intro h
      obtain ⟨min', hour', dom', mon', dow', weekdayText, taken, made, rfl⟩ := h
      have same := cut.symm.trans taken.fields
      simp only [List.cons.injEq, and_true] at same
      obtain ⟨rfl, rfl, rfl, rfl, rfl⟩ := same
      exact ⟨_, ⟨taken.minute, rfl⟩, _, ⟨taken.hours, rfl⟩, _, ⟨taken.day, rfl⟩,
        _, ⟨taken.month, rfl⟩, weekdayText, made, rfl⟩

/-- A schedule fires when it says. -/
structure FiresAsWritten (expr : Text) : Prop where
  faithful : ∀ text, cronToOnCalendar expr = .ok text → Denotes text expr
  refused : (¬ ∃ text, Denotes text expr) → ∃ e, cronToOnCalendar expr = .error e

theorem readsWeekday_iff {dow : Text} (numbers : DayNumbers dow) (restricted : dow ≠ ['*'])
    (noSign : '+' ∉ dow) {w : Nat}
    : ReadsWeekday dow w ↔ ListsWeekday dow w := by
  rw [ReadsWeekday, or_iff_right restricted]
  constructor
  · intro h
    obtain ⟨part, member, n, -, parsed, same⟩ := h
    exact ⟨part, member, n, number_of_parseUnsigned parsed
      fun sign => noSign (subset_of_mem_splitOn member sign), same⟩
  · intro h
    obtain ⟨part, member, n, isNumber, same⟩ := h
    obtain ⟨n', parsed, bound⟩ := numbers.resolve_left restricted part member
    have again := number_of_parseUnsigned parsed
      fun sign => noSign (subset_of_mem_splitOn member sign)
    rw [isNumber] at again
    cases again
    exact ⟨part, member, n, bound, parsed, same⟩

theorem someWeekday {dow : Text} (numbers : DayNumbers dow) : ∃ w ≤ 6, ReadsWeekday dow w := by
  rcases numbers with star | all
  · exact ⟨0, by omega, .inl star⟩
  · obtain ⟨part, member⟩ := List.exists_mem_of_ne_nil _ (List.splitOn_ne_nil ',' dow)
    obtain ⟨n, parsed, bound⟩ := all part member
    exact ⟨n % 7, by omega, .inr ⟨part, member, n, bound, parsed, rfl⟩⟩

theorem longestMonth_le (v : Nat) (low : 1 ≤ v) (high : v ≤ 12) : longestMonth v ≤ 31 := by
  have lengths : ∀ v, 1 ≤ v → v ≤ 12 → longestMonth v ≤ 31 := by decide
  exact lengths v low high

/-- What the two sides of a translation of good fields are read as. -/
structure Sides (expr text min hour dom mon dow : Text) (cron : Cron) (calendar : Calendar) : Prop
    where
  readCron : Cron.parse expr = some cron
  readCalendar : Calendar.parse text = some calendar
  minute : cronField 0 59 min = some cron.minute ∧ calendar.minute = cron.minute
  hours : cronField 0 23 hour = some cron.hour ∧ calendar.hour = cron.hour
  day : cronField 1 31 dom = some cron.day ∧ calendar.day = cron.day
  month : cronField 1 12 mon = some cron.month ∧ calendar.month = cron.month
  restricted : cron.dayRestricted = (dom ≠ ['*'] : Bool)
    ∧ cron.weekdayRestricted = (dow ≠ ['*'] : Bool)
  weekdays : ∀ w ≤ 6, cron.onWeekday w = true ↔ w ∈ calendar.weekdays
  read : ∀ w ≤ 6, w ∈ calendar.weekdays ↔ ReadsWeekday dow w

/-- The fields that both languages say the same of have the same minutes when the day rule does
not tell them apart.
-/
theorem Sides.fires_iff {expr text min hour dom mon dow : Text} {cron : Cron}
    {calendar : Calendar} (sides : Sides expr text min hour dom mon dow cron calendar)
    (numbers : DayNumbers dow) (noSign : '+' ∉ dow) (minute : GoodField 0 59 min)
    (hours : GoodField 0 23 hour) (day : GoodField 1 31 dom) (month : GoodField 1 12 mon)
    : (∀ m, calendar.fires m = cron.fires m)
      ↔ dom = ['*'] ∨ dow = ['*'] ∨ EveryDay dom mon dow := by
  obtain ⟨-, -, readMinute, readHours, readDay, readMonth, restricted, weekdays, read⟩ := sides
  obtain ⟨cronMinute, cronHours, cronDay, cronMonth, cronWeekday, dayRestricted,
    weekdayRestricted⟩ := cron
  obtain ⟨ws, calMonth, calDay, calHours, calMinute⟩ := calendar
  obtain ⟨readMinute, rfl⟩ := readMinute
  obtain ⟨readHours, rfl⟩ := readHours
  obtain ⟨readDay, rfl⟩ := readDay
  obtain ⟨readMonth, rfl⟩ := readMonth
  obtain ⟨rfl, rfl⟩ := restricted
  by_cases one : dom = ['*'] ∨ dow = ['*']
  · have oneDay : ((dom ≠ ['*'] : Bool) && (dow ≠ ['*'] : Bool)) = false := by
      rcases one with star | star <;> simp [star]
    refine ⟨fun _ => one.imp_right .inl, fun _ m => fires_eq_of_one_day weekdays oneDay m⟩
  · rw [not_or] at one
    simp only [one, ne_eq, not_false_eq_true, decide_true, false_or] at weekdays ⊢
    obtain ⟨items, is, -, someMinute⟩ := good_field (by decide) minute
    rw [readMinute] at is
    cases is
    obtain ⟨items, is, -, someHour⟩ := good_field (by decide) hours
    rw [readHours] at is
    cases is
    obtain ⟨items, is, -, someMonth⟩ := good_field (by decide) month
    rw [readMonth] at is
    cases is
    obtain ⟨w, small, reads⟩ := someWeekday numbers
    rw [fires_eq_iff_of_both weekdays someMinute someHour someMonth
      ⟨w, small, (read w small).mpr reads⟩]
    constructor
    · intro h
      refine ⟨fun v low high listed d first last => ?_, fun w small => ?_⟩
      · have inYear := longestMonth_le v low high
        exact (anyHas_iff_lists readDay day first (by omega)).mp
          (h.1 v low high ((anyHas_iff_lists readMonth month low high).mpr listed) d first last)
      · exact (readsWeekday_iff numbers one.2 noSign).mp ((read w small).mp (h.2 w small))
    · intro h
      refine ⟨fun v low high has d first last => ?_, fun w small => ?_⟩
      · have inYear := longestMonth_le v low high
        exact (anyHas_iff_lists readDay day first (by omega)).mpr
          (h.dates v low high ((anyHas_iff_lists readMonth month low high).mp has) d first last)
      · exact (read w small).mpr ((readsWeekday_iff numbers one.2 noSign).mpr (h.week w small))

section Taken

variable {expr min hour dom mon dow weekdayText : Text}

/-- The text that the translation puts together. -/
def translated (weekdayText min hour dom mon : Text) : Text :=
  weekdayText ++ ('*' :: '-' :: (fromZero mon ++ '-' :: fromZero dom))
    ++ ' ' :: (fromZero hour ++ ':' :: (fromZero min ++ ":00".toList))

theorem parse_translated_fields (taken : Taken expr min hour dom mon dow)
    (made : dayText dow = .ok weekdayText)
    : ∃ ws : List Nat, (∀ w ≤ 6, w ∈ ws ↔ ReadsWeekday dow w)
      ∧ ∀ calendar, Calendar.parse (translated weekdayText min hour dom mon) = some calendar
        ↔ '-' ∉ fromZero mon ∧ '-' ∉ fromZero dom
          ∧ calendarComponent 1 12 (fromZero mon) = some calendar.month
          ∧ calendarComponent 1 31 (fromZero dom) = some calendar.day
          ∧ calendarComponent 0 23 (fromZero hour) = some calendar.hour
          ∧ calendarComponent 0 59 (fromZero min) = some calendar.minute
          ∧ calendar.weekdays = ws := by
  have blank : fieldChar ' ' = false := by decide
  have colon : fieldChar ':' = false := by decide
  have noDate : ' ' ∉ '*' :: '-' :: (fromZero mon ++ '-' :: fromZero dom) := by
    simp [not_mem_fromZero taken.month blank, not_mem_fromZero taken.day blank]
  have noTime : ' ' ∉ fromZero hour ++ ':' :: (fromZero min ++ ":00".toList) := by
    simp [not_mem_fromZero taken.hours blank, not_mem_fromZero taken.minute blank]
  obtain ⟨ws, weekdays, parsed⟩ := parse_translated made noDate noTime
  refine ⟨ws, weekdays, fun calendar => ?_⟩
  rw [translated, parsed]
  constructor
  · intro h
    obtain ⟨dates, times, readDate, readTime, rfl⟩ := h
    obtain ⟨noMon, noDom, month, day⟩ := calendarDate_eq_some.mp readDate
    obtain ⟨hours, minute⟩ := (calendarTime_eq_some (not_mem_fromZero taken.hours colon)
      (not_mem_fromZero taken.minute colon)).mp readTime
    exact ⟨noMon, noDom, month, day, hours, minute, rfl⟩
  · intro h
    obtain ⟨noMon, noDom, month, day, hours, minute, rfl⟩ := h
    exact ⟨(calendar.month, calendar.day), (calendar.hour, calendar.minute),
      calendarDate_eq_some.mpr ⟨noMon, noDom, month, day⟩,
      (calendarTime_eq_some (not_mem_fromZero taken.hours colon)
        (not_mem_fromZero taken.minute colon)).mpr ⟨hours, minute⟩, rfl⟩

theorem parse_cron_fields (taken : Taken expr min hour dom mon dow) {cron : Cron}
    : Cron.parse expr = some cron
      ↔ cronField 0 59 min = some cron.minute ∧ cronField 0 23 hour = some cron.hour
        ∧ cronField 1 31 dom = some cron.day ∧ cronField 1 12 mon = some cron.month
        ∧ cronField 0 7 dow = some cron.weekday
        ∧ cron.dayRestricted = (dom ≠ ['*'] : Bool)
        ∧ cron.weekdayRestricted = (dow ≠ ['*'] : Bool) := by
  unfold Cron.parse
  rw [taken.fields]
  simp only [Option.bind_eq_bind, Option.bind_eq_some_iff, Option.some.injEq]
  constructor
  · intro h
    obtain ⟨_, minute, _, hours, _, day, _, month, _, weekday, rfl⟩ := h
    exact ⟨minute, hours, day, month, weekday, rfl, rfl⟩
  · intro h
    obtain ⟨minute, hours, day, month, weekday, dayRestricted, weekdayRestricted⟩ := h
    refine ⟨_, minute, _, hours, _, day, _, month, _, weekday, ?_⟩
    rw [← dayRestricted, ← weekdayRestricted]

theorem common_of_denotes (taken : Taken expr min hour dom mon dow)
    (made : dayText dow = .ok weekdayText)
    (denotes : Denotes (translated weekdayText min hour dom mon) expr)
    : Common min hour dom mon dow := by
  obtain ⟨cron, calendar, readCron, readCalendar, same⟩ := denotes
  obtain ⟨ws, weekdays, parsed⟩ := parse_translated_fields taken made
  obtain ⟨-, -, month', day', hours', minute', rfl⟩ := (parsed calendar).mp readCalendar
  obtain ⟨minute, hours, day, month, weekday, restricted⟩ := (parse_cron_fields taken).mp readCron
  obtain ⟨sameMinute, goodMinute⟩ := fields_agree minute minute'
  obtain ⟨sameHours, goodHours⟩ := fields_agree hours hours'
  obtain ⟨sameDay, goodDay⟩ := fields_agree day day'
  obtain ⟨sameMonth, goodMonth⟩ := fields_agree month month'
  have noSign := noSign_of_cronField weekday
  have sides : Sides expr (translated weekdayText min hour dom mon) min hour dom mon dow cron
      calendar :=
    ⟨readCron, readCalendar, ⟨minute, sameMinute.symm⟩, ⟨hours, sameHours.symm⟩,
      ⟨day, sameDay.symm⟩, ⟨month, sameMonth.symm⟩, restricted,
      fun w small => (onWeekday_iff weekday rfl taken.numbers small).trans (weekdays w small).symm,
      weekdays⟩
  exact ⟨goodMinute, goodHours, goodDay, goodMonth, noSign,
    (sides.fires_iff taken.numbers noSign goodMinute goodHours goodDay goodMonth).mp same⟩

/-- A good field of dates has no dash. -/
theorem noDash_of_good {hi : Nat} {s : Text} (good : GoodField 1 hi s) : '-' ∉ fromZero s := by
  intro dash
  have inside : '-' ∈ s := (mem_fromZero dash).resolve_right (by decide)
  rcases good with rfl | all
  · simp at inside
  · rw [← (List.intercalate_splitOn ',' : [','].intercalate (s.splitOn ',') = s)] at inside
    rcases mem_intercalate inside with comma | ⟨part, member, dash⟩
    · simp at comma
    · rcases all part member with ⟨a, value⟩ | ⟨zero, -⟩
      · exact (number_chars (number_of_valueIn value).1).2.1 dash
      · cases zero

theorem denotes_of_common (taken : Taken expr min hour dom mon dow)
    (made : dayText dow = .ok weekdayText) (common : Common min hour dom mon dow)
    : Denotes (translated weekdayText min hour dom mon) expr := by
  obtain ⟨minute, readMinute, readMinute', -⟩ := good_field (by decide) common.minute
  obtain ⟨hours, readHours, readHours', -⟩ := good_field (by decide) common.hours
  obtain ⟨day, readDay, readDay', -⟩ := good_field (by decide) common.day
  obtain ⟨month, readMonth, readMonth', -⟩ := good_field (by decide) common.month
  obtain ⟨weekday, readWeekday⟩ : ∃ weekday, cronField 0 7 dow = some weekday := by
    rcases taken.numbers with star | all
    · exact ⟨[⟨0, 7, 1⟩], star ▸ cronField_star 0 7⟩
    · exact (cronField_days all common.noSign).2
  obtain ⟨ws, weekdays, parsed⟩ := parse_translated_fields taken made
  let cron : Cron := ⟨minute, hours, day, month, weekday, dom ≠ ['*'], dow ≠ ['*']⟩
  let calendar : Calendar := ⟨ws, month, day, hours, minute⟩
  have sides : Sides expr (translated weekdayText min hour dom mon) min hour dom mon dow cron
      calendar :=
    ⟨(parse_cron_fields taken).mpr
        ⟨readMinute, readHours, readDay, readMonth, readWeekday, rfl, rfl⟩,
      (parsed calendar).mpr ⟨noDash_of_good common.month, noDash_of_good common.day, readMonth',
        readDay', readHours', readMinute', rfl⟩,
      ⟨readMinute, rfl⟩, ⟨readHours, rfl⟩, ⟨readDay, rfl⟩, ⟨readMonth, rfl⟩, ⟨rfl, rfl⟩,
      fun w small => (onWeekday_iff readWeekday rfl taken.numbers small).trans
        (weekdays w small).symm,
      weekdays⟩
  exact ⟨cron, calendar, sides.readCron, sides.readCalendar,
    (sides.fires_iff taken.numbers common.noSign common.minute common.hours common.day
      common.month).mpr common.oneDay⟩

end Taken

/-- A schedule that the translation takes fires as it is written exactly when it has nothing but
values that are in range, steps from the start of the hour or the day, and one kind of day.
-/
theorem firesAsWritten_iff (expr : Text)
    : FiresAsWritten expr
      ↔ ∀ min hour dom mon dow, Taken expr min hour dom mon dow → Common min hour dom mon dow := by
  constructor
  · intro fires min hour dom mon dow taken
    obtain ⟨weekdayText, made⟩ := dayText_total taken.numbers
    exact common_of_denotes taken made (fires.faithful _ (cronToOnCalendar_eq_ok.mpr
      ⟨min, hour, dom, mon, dow, weekdayText, taken, made, rfl⟩))
  · intro common
    have faithful (text : Text) (found : cronToOnCalendar expr = .ok text) : Denotes text expr := by
      obtain ⟨min, hour, dom, mon, dow, weekdayText, taken, made, rfl⟩ :=
        cronToOnCalendar_eq_ok.mp found
      exact denotes_of_common taken made (common min hour dom mon dow taken)
    refine ⟨faithful, fun none => ?_⟩
    cases result : cronToOnCalendar expr with
    | error e => exact ⟨e, rfl⟩
    | ok text => exact absurd ⟨text, faithful text result⟩ none

/-- Every hour from nine to five: the range comes through as it is, which is no calendar
expression.
-/
theorem hour_range_not_carried
    : cronToOnCalendar "0 9-17 * * *".toList = .ok "*-*-* 9-17:0:00".toList
      ∧ Calendar.parse "*-*-* 9-17:0:00".toList = none
      ∧ ¬ FiresAsWritten "0 9-17 * * *".toList := by
  have made : cronToOnCalendar "0 9-17 * * *".toList = .ok "*-*-* 9-17:0:00".toList := rfl
  have unread : Calendar.parse "*-*-* 9-17:0:00".toList = none := by decide
  refine ⟨made, unread, fun fires => ?_⟩
  obtain ⟨cron, calendar, -, read, -⟩ := fires.faithful _ made
  rw [unread] at read
  cases read

end Delonix.Backup
