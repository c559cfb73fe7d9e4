import Delonix.Library.Words

/-! Backup schedules: how a crontab expression is translated for the timers of the system, and what
the expressions of both languages say.
-/

namespace Delonix.Backup

open Delonix.Library.Text
open Delonix.Library.Words

abbrev Text := List Char

inductive CronError where
  | fieldCount (n : Nat) (expr : Text)
  | notExpressible (v what : Text)
  | notDayNumber (v : Text)
  | dayOutOfRange (v : Text)

/-- `v.replace("*/", "0/")`. -/
def fromZero : Text → Text
  | '*' :: '/' :: rest => '0' :: '/' :: fromZero rest
  | c :: rest => c :: fromZero rest
  | [] => []

def fieldChar (c : Char) : Bool := c.isDigit || c = '*' || c = ',' || c = '-' || c = '/'

def field (v what : Text) : Except CronError Text :=
  if v.all fieldChar then .ok (fromZero v) else .error (.notExpressible v what)

/-- The largest value of the type that day numbers are read as. -/
def usizeMax : Nat := 2 ^ 64 - 1

def days : List Text := ["Sun", "Mon", "Tue", "Wed", "Thu", "Fri", "Sat", "Sun"].map String.toList

attribute [local instance] lawfulBEq

def dayNames : List Text → List Text → Except CronError (List Text)
  | names, [] => .ok names
  | names, part :: parts =>
      match parseUnsigned 10 usizeMax part with
      | none => .error (.notDayNumber part)
      | some n =>
          match days[n]? with
          | none => .error (.dayOutOfRange part)
          | some name => dayNames (if name ∈ names then names else names ++ [name]) parts

def dayText (dow : Text) : Except CronError Text :=
  if dow = ['*'] then .ok []
  else (dayNames [] (dow.splitOn ',')).map fun names => [','].intercalate names ++ [' ']

def cronToOnCalendar (expr : Text) : Except CronError Text :=
  match splitWhitespace expr with
  | [min, hour, dom, mon, dow] => do
      let min ← field min "minute".toList
      let hour ← field hour "hour".toList
      let dom ← field dom "day-of-month".toList
      let mon ← field mon "month".toList
      let dow ← dayText dow
      .ok (dow ++ ('*' :: '-' :: (mon ++ '-' :: dom))
        ++ ' ' :: (hour ++ ':' :: (min ++ ":00".toList)))
  | fields => .error (.fieldCount fields.length expr)

/-- The most days that a month has. -/
def longestMonth (month : Nat) : Nat :=
  [31, 29, 31, 30, 31, 30, 31, 31, 30, 31, 30, 31].getD (month - 1) 0

/-- A minute as both languages tell it from others. Every day of the year falls on every weekday,
in some year.
-/
structure Moment where
  minute : Nat
  hour : Nat
  day : Nat
  month : Nat
  weekday : Nat
  inHour : minute ≤ 59
  inDay : hour ≤ 23
  inMonth : 1 ≤ day ∧ day ≤ longestMonth month
  inYear : 1 ≤ month ∧ month ≤ 12
  inWeek : weekday ≤ 6

/-- Every `step`th value from `first` to `last`. -/
structure Steps where
  first : Nat
  last : Nat
  step : Nat
deriving DecidableEq

def Steps.has (steps : Steps) (v : Nat) : Bool :=
  steps.first ≤ v && v ≤ steps.last && (v - steps.first) % steps.step == 0

def anyHas (items : List Steps) (v : Nat) : Bool := items.any (·.has v)

/-- A number without a sign. -/
def number (s : Text) : Option Nat := if s = [] then none else parseDigits 10 usizeMax 0 s

def valueIn (lo hi : Nat) (s : Text) : Option Nat :=
  (number s).filter fun a => lo ≤ a && a ≤ hi

/-- `*` or `a-b`. -/
def cronSpan (lo hi : Nat) (s : Text) : Option (Nat × Nat) :=
  if s = ['*'] then some (lo, hi)
  else
    match s.splitOn '-' with
    | [first, last] => do
        let a ← valueIn lo hi first
        let b ← valueIn a hi last
        some (a, b)
    | _ => none

/-- A value or a span, the span with a step behind it or not. -/
def cronItem (lo hi : Nat) (s : Text) : Option Steps :=
  match s.splitOn '/' with
  | [base] =>
      ((valueIn lo hi base).map fun a => ⟨a, a, 1⟩).or
        ((cronSpan lo hi base).map fun (a, b) => ⟨a, b, 1⟩)
  | [base, step] => do
      let n ← (number step).filter (1 ≤ ·)
      let (a, b) ← cronSpan lo hi base
      some ⟨a, b, n⟩
  | _ => none

def cronField (lo hi : Nat) (s : Text) : Option (List Steps) :=
  (s.splitOn ',').mapM (cronItem lo hi)

/-- Sunday is 0 and 7. A restricted field is any but `*`. -/
structure Cron where
  minute : List Steps
  hour : List Steps
  day : List Steps
  month : List Steps
  weekday : List Steps
  dayRestricted : Bool
  weekdayRestricted : Bool

def Cron.parse (expr : Text) : Option Cron :=
  match splitWhitespace expr with
  | [min, hour, dom, mon, dow] => do
      let minute ← cronField 0 59 min
      let hours ← cronField 0 23 hour
      let day ← cronField 1 31 dom
      let month ← cronField 1 12 mon
      let weekday ← cronField 0 7 dow
      some ⟨minute, hours, day, month, weekday, dom ≠ ['*'], dow ≠ ['*']⟩
  | _ => none

def Cron.onWeekday (cron : Cron) (w : Nat) : Bool :=
  anyHas cron.weekday w || (w == 0 && anyHas cron.weekday 7)

/-- With both restricted, one of the two days is enough. -/
def Cron.onDay (cron : Cron) (m : Moment) : Bool :=
  if cron.dayRestricted && cron.weekdayRestricted then
    anyHas cron.day m.day || cron.onWeekday m.weekday
  else anyHas cron.day m.day && cron.onWeekday m.weekday

def Cron.fires (cron : Cron) (m : Moment) : Bool :=
  anyHas cron.minute m.minute && anyHas cron.hour m.hour && anyHas cron.month m.month
    && cron.onDay m

/-- A value or `a..b`, and where it ends when a repetition is behind it: a value is then repeated
to the end of the range.
-/
def calendarSpan (lo hi : Nat) (s : Text) : Option (Nat × Nat × Nat) :=
  match cutAt "..".toList s with
  | some (first, last) => do
      let a ← valueIn lo hi first
      let b ← valueIn a hi last
      some (a, b, b)
  | none => (valueIn lo hi s).map fun a => (a, a, hi)

/-- A repetition has to fit into the range at least once. -/
def calendarItem (lo hi : Nat) (s : Text) : Option Steps :=
  match s.splitOn '/' with
  | [base] => (calendarSpan lo hi base).map fun (a, b, _) => ⟨a, b, 1⟩
  | [base, step] => do
      let (a, _, last) ← calendarSpan lo hi base
      let n ← (number step).filter fun n => 1 ≤ n && a + n ≤ last
      some ⟨a, last, n⟩
  | _ => none

def calendarComponent (lo hi : Nat) (s : Text) : Option (List Steps) :=
  if s = ['*'] then some [⟨lo, hi, 1⟩] else (s.splitOn ',').mapM (calendarItem lo hi)

/-- The names in the order of the week, which starts on Monday. -/
def weekdayNames : List Text :=
  ["Mon", "Tue", "Wed", "Thu", "Fri", "Sat", "Sun"].map String.toList

def weekdayNamed (s : Text) : Option Nat :=
  if s ∈ weekdayNames then some (weekdayNames.idxOf s) else none

/-- A weekday or `a..b`, as the numbers of its days with Sunday as 0. -/
def weekdayItem (s : Text) : Option (List Nat) :=
  match cutAt "..".toList s with
  | some (first, last) => do
      let a ← weekdayNamed first
      let b ← (weekdayNamed last).filter (a ≤ ·)
      some ((List.range' a (b + 1 - a)).map fun i => (i + 1) % 7)
  | none => (weekdayNamed s).map fun i => [(i + 1) % 7]

/-- The expressions for any year and the start of minutes. -/
structure Calendar where
  weekdays : List Nat
  month : List Steps
  day : List Steps
  hour : List Steps
  minute : List Steps

def calendarDate (date : Text) : Option (List Steps × List Steps) :=
  match date.splitOn '-' with
  | [['*'], mon, day] => do
      let month ← calendarComponent 1 12 mon
      let days ← calendarComponent 1 31 day
      some (month, days)
  | _ => none

def calendarTime (time : Text) : Option (List Steps × List Steps) :=
  match time.splitOn ':' with
  | [hour, minute, ['0', '0']] => do
      let hours ← calendarComponent 0 23 hour
      let minutes ← calendarComponent 0 59 minute
      some (hours, minutes)
  | _ => none

def calendarDays (s : Text) : Option (List Nat) :=
  ((s.splitOn ',').mapM weekdayItem).map List.flatten

def Calendar.parse (text : Text) : Option Calendar :=
  match text.splitOn ' ' with
  | [date, time] => do
      let (month, day) ← calendarDate date
      let (hour, minute) ← calendarTime time
      some ⟨List.range 7, month, day, hour, minute⟩
  | [names, date, time] => do
      let weekdays ← calendarDays names
      let (month, day) ← calendarDate date
      let (hour, minute) ← calendarTime time
      some ⟨weekdays, month, day, hour, minute⟩
  | _ => none

/-- The weekday and the date are both required. -/
def Calendar.fires (calendar : Calendar) (m : Moment) : Bool :=
  calendar.weekdays.contains m.weekday && anyHas calendar.month m.month
    && anyHas calendar.day m.day && anyHas calendar.hour m.hour
    && anyHas calendar.minute m.minute

end Delonix.Backup
