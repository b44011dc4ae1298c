import Recurrence.Schedule.DateFilter
import Recurrence.Timeline.Instant
/-!
# The first date that a filter accepts

The search narrows a date down by month, day of the month, weekday and week of the month, one
after the other, and starts over until nothing changes. Each step moves to the nearest date, on
or after the one it is given, at which its own part of the filter may be met, so a date that no
step changes passes the whole filter.

Months beyond the end of the range are taken to start on the last date.
-/

namespace Recurrence

/-- The date `n` days later, if it lies in the range. -/
def Date.advance (d : Date) (n : Nat) : Except RollError Date :=
  if (d.plusDays n).InRange then .ok (d.plusDays n) else .error .dateOutOfRange

namespace DateSearch

/-- The first day of a month, or the last date if the month lies beyond the range. -/
def firstOfMonth (year : Int) (month : Nat) : Date :=
  (Date.ofCivil? ⟨year, month, 1⟩).getD Date.last

def firstOfNextMonth (d : Date) : Date :=
  if d.month = 12 then firstOfMonth (d.year + 1) 1 else firstOfMonth d.year (d.month + 1)

/-- The number of the day before the next month starts. -/
def lastDayOfMonth (d : Date) : Nat := ((firstOfNextMonth d).plusDays (-1)).day

/-! ## One part of the filter at a time -/

/-- The date itself in a selected month, otherwise the first day of the next selected month. -/
def toMonth (months : Selection 1 12) (d : Date) : Date :=
  match months.from? d.month with
  | some month => if month = d.month then d else firstOfMonth d.year month
  | none => firstOfMonth (d.year + 1) months.least

/-- The next selected day of this month, otherwise the first day of the next month. -/
def toDay (days : Selection 1 31) (d : Date) : Except RollError Date :=
  if lastDayOfMonth d < d.day then .error .dayPastMonthEnd
  else
    match days.from? d.day with
    | some day =>
      if day ≤ lastDayOfMonth d then d.advance (day - d.day) else .ok (firstOfNextMonth d)
    | none => .ok (firstOfNextMonth d)

/-- The next date on a selected weekday. -/
def toWeekday (weekdays : Selection 0 6) (d : Date) : Except RollError Date :=
  match weekdays.from? d.weekday with
  | some weekday => d.advance (weekday - d.weekday)
  | none => d.advance (weekdays.least + 7 - d.weekday)

/-- The same weekday in the next selected week of this month, otherwise the first day of the
next month. -/
def toWeek (weeks : Selection 1 5) (d : Date) : Except RollError Date :=
  match weeks.from? d.weekOfMonth with
  | some week => d.advance (7 * (week - d.weekOfMonth))
  | none => .ok (firstOfNextMonth d)

/-! ## The whole filter -/

/-- All parts of the filter that restrict anything, once each. -/
def narrow (f : DateFilter) (d : Date) : Except RollError Date := do
  let d := if f.months.Restricts then toMonth f.months d else d
  let d ← if f.days.Restricts then toDay f.days d else .ok d
  let d ← if f.weekdays.Restricts then toWeekday f.weekdays d else .ok d
  if f.weeks.Restricts then toWeek f.weeks d else .ok d

/-- Narrows a date down until it no longer changes, in at most the given number of rounds. -/
def settle (f : DateFilter) : Nat → Date → Except RollError Date
  | 0, _ => .error .unsettled
  | rounds + 1, d => do
    let narrowed ← narrow f d
    if narrowed = d then .ok d else settle f rounds narrowed

/-- Far more rounds than the rarest filters take, which wait decades for a leap day. -/
def maxRounds : Nat := 4096

/-- The first date on or after `d` that passes the filter. -/
def firstAccepted (f : DateFilter) (d : Date) : Except RollError Date := settle f maxRounds d

end DateSearch

end Recurrence
