import Recurrence.Schedule.Fault
/-!
# Rules and schedules

An `IntervalRule` repeats every so many minutes or hours. Unless its pattern is free, its
occurrences lie on a `SlotGrid`: the same times of day on every date. A `CalendarRule` occurs at one
time of day, on the dates that its filter accepts.

A `Schedule` is an interval rule or a calendar rule. It is made by one of the functions below
or read from an expression; either way it has passed the same checks. Times of day are cut down
to whole minutes. Two schedules are equal, `==`, if they have the same canonical text.
-/

namespace Recurrence

/-! ## Interval rules -/

/-- The longest step, 366 days in seconds. -/
def maxStep : Nat := 366 * 86400

/-- Every `length` units, counted as the pattern says. -/
@[ext] structure IntervalRule where
  length : Nat
  unit : TimeUnit
  pattern : Pattern
  length_pos : 0 < length
  step_le : length * unit.seconds ≤ maxStep
  divides : pattern = .synchronized → 86400 % (length * unit.seconds) = 0

/-- Times of day at which a rule may occur: `start`, and every `step` seconds from there up to
the second `stop` of the day. -/
structure SlotGrid where
  start : ClockTime
  stop : Nat
  step : Nat
  step_pos : 0 < step

theorem TimeUnit.seconds_pos (u : TimeUnit) : 0 < u.seconds := by cases u <;> decide

namespace TimeWindow

/-- The window between two times of day. -/
def of (start stop : TimeOfDay) : Except Fault TimeWindow :=
  if ordered : start ≤ stop then .ok ⟨start, stop, ordered⟩
  else .error (.windowReversed start.clockTime stop.clockTime)

end TimeWindow

namespace Pattern

/-- The pattern of a window between two whole minutes. -/
def within (start stop : ClockTime) : Except Fault Pattern :=
  if ordered : start ≤ stop then .ok (.between start stop ordered)
  else .error (.windowReversed start stop)

end Pattern

namespace IntervalRule

/-- The rule of a length, a unit and a pattern. -/
def of (length : Nat) (unit : TimeUnit) (pattern : Pattern) : Except Fault IntervalRule :=
  if zero : length = 0 then .error .zeroLength
  else if step_le : length * unit.seconds ≤ maxStep then
    if divides : pattern = .synchronized → 86400 % (length * unit.seconds) = 0 then
      .ok ⟨length, unit, pattern, Nat.pos_of_ne_zero zero, step_le, divides⟩
    else .error (.stepUneven length unit)
  else .error (.stepTooLong length unit)

/-- The seconds between two occurrences. -/
def step (r : IntervalRule) : Nat := r.length * r.unit.seconds

theorem step_pos (r : IntervalRule) : 0 < r.step := Nat.mul_pos r.length_pos r.unit.seconds_pos

/-- The grid of the rule spans the whole day from midnight on. -/
def IsSynchronized (r : IntervalRule) : Prop := r.pattern = .synchronized

instance (r : IntervalRule) : Decidable r.IsSynchronized := inferInstanceAs (Decidable (_ = _))

/-- The times of day at which the rule may occur, if it is bound to any. -/
def grid? (r : IntervalRule) : Option SlotGrid :=
  match r.pattern with
  | .free => none
  | .synchronized => some ⟨⟨0, by decide⟩, 86399, r.step, r.step_pos⟩
  | .between start stop _ => some ⟨start, stop.second, r.step, r.step_pos⟩

def words (r : IntervalRule) : List (List Char) :=
  Canonical.intervalWords r.length r.unit r.pattern

end IntervalRule

/-! ## Calendar rules -/

/-- At `time` on the dates that pass the filter, of which there are some. -/
@[ext] structure CalendarRule where
  filter : DateFilter
  time : ClockTime
  occurs : filter.Occurs

namespace CalendarRule

/-- The rule of a filter and a time. -/
def of (filter : DateFilter) (time : ClockTime) : Except Fault CalendarRule :=
  if occurs : filter.Occurs then .ok ⟨filter, time, occurs⟩
  else .error (.neverOccurs filter time)

def words (r : CalendarRule) : List (List Char) := Canonical.calendarWords r.filter r.time

end CalendarRule

/-! ## Schedules -/

/-- When something recurs. -/
inductive Schedule where
  | interval (rule : IntervalRule)
  | calendar (rule : CalendarRule)

namespace Schedule

/-! ## Interval schedules -/

/-- Every `length` units, from wherever the search starts. -/
def every (length : Nat) (unit : TimeUnit) : Except Fault Schedule :=
  return interval (← IntervalRule.of length unit .free)

/-- Every `length` units, counted from midnight on each day. -/
def everySynchronized (length : Nat) (unit : TimeUnit) : Except Fault Schedule :=
  return interval (← IntervalRule.of length unit .synchronized)

/-- Every `length` units, counted from `start` up to `stop` on each day. -/
def everyBetween (start stop : TimeOfDay) (length : Nat) (unit : TimeUnit) :
    Except Fault Schedule := do
  let pattern ← Pattern.within start.clockTime stop.clockTime
  return interval (← IntervalRule.of length unit pattern)

/-! ## Calendar schedules -/

/-- On every day. -/
def daily (time : TimeOfDay) : Except Fault Schedule :=
  return calendar (← CalendarRule.of (.everyDay DateFilter.allMonths) time.clockTime)

/-- On every day of some months. -/
def dailyIn (time : TimeOfDay) (months : List Nat) : Except Fault Schedule := do
  let months ← FilterPart.months.select months
  return calendar (← CalendarRule.of (.everyDay months) time.clockTime)

/-- On some weekdays, numbered from Monday = 0. -/
def weekly (time : TimeOfDay) (weekdays : List Nat) : Except Fault Schedule := do
  let weekdays ← FilterPart.weekdays.select weekdays
  return calendar (← CalendarRule.of
    (.weekly DateFilter.allWeeks weekdays DateFilter.allMonths) time.clockTime)

/-- On some weekdays of some months. -/
def weeklyIn (time : TimeOfDay) (weekdays months : List Nat) : Except Fault Schedule := do
  let weekdays ← FilterPart.weekdays.select weekdays
  let months ← FilterPart.months.select months
  return calendar (← CalendarRule.of (.weekly DateFilter.allWeeks weekdays months) time.clockTime)

/-- On some occurrences, such as the first and the third, of some weekdays within some months. -/
def nthWeekday (time : TimeOfDay) (weeks weekdays months : List Nat) : Except Fault Schedule := do
  let weeks ← FilterPart.weeks.select weeks
  let weekdays ← FilterPart.weekdays.select weekdays
  let months ← FilterPart.months.select months
  return calendar (← CalendarRule.of (.weekly weeks weekdays months) time.clockTime)

/-- On some days of some months. -/
def nthDay (time : TimeOfDay) (days months : List Nat) : Except Fault Schedule := do
  let days ← FilterPart.days.select days
  let months ← FilterPart.months.select months
  return calendar (← CalendarRule.of (.monthly days months) time.clockTime)

/-! ## Text and equality -/

/-- The words of the canonical text. -/
def words : Schedule → List (List Char)
  | interval rule => rule.words
  | calendar rule => rule.words

/-- The canonical text, from which the schedule can be read again. -/
def canonical (s : Schedule) : List Char := Canonical.sentence s.words

instance : BEq Schedule := ⟨fun s t => s.canonical == t.canonical⟩

end Schedule

end Recurrence
