import Recurrence.Civil.TimeOfDay
import Recurrence.Schedule.DateFilter
/-!
# Units, patterns and canonical text

An interval rule repeats every so many minutes or hours. Its `Pattern` says where the steps are
counted from: from wherever the search starts, or on a grid that begins anew on each day.

Every rule has one canonical text, made of words with single spaces between them. Members of
sets are listed in ascending order with commas between them, and full sets are left out.
-/

namespace Recurrence

inductive TimeUnit where
  | minutes
  | hours
  deriving DecidableEq

namespace TimeUnit

def seconds : TimeUnit → Nat
  | minutes => 60
  | hours => 3600

def text : TimeUnit → List Char
  | minutes => "minutes".toList
  | hours => "hours".toList

end TimeUnit

/-- A span of wall-clock time on each day, both ends included. -/
@[ext] structure TimeWindow where
  start : TimeOfDay
  stop : TimeOfDay
  ordered : start ≤ stop

namespace TimeWindow

instance : DecidableEq TimeWindow := fun _ _ => decidable_of_iff _ TimeWindow.ext_iff.symm

/-- From midnight to the last nanosecond of the day. -/
def fullDay : TimeWindow := ⟨.midnight, .endOfDay, by decide⟩

def IsFullDay (w : TimeWindow) : Prop := w = fullDay

instance (w : TimeWindow) : Decidable w.IsFullDay := inferInstanceAs (Decidable (_ = _))

end TimeWindow

/-- Where the steps of an interval rule are counted from. -/
inductive Pattern where
  /-- From the instant at which the search starts. -/
  | free
  /-- From midnight on each day, through the whole day. -/
  | synchronized
  /-- From `start` on each day, up to `stop`. -/
  | between (start stop : ClockTime) (ordered : start ≤ stop)
  deriving DecidableEq

namespace Pattern

/-- The part of each day in which occurrences may lie, if there is a limit. -/
def window? : Pattern → Option TimeWindow
  | free => none
  | synchronized => some .fullDay
  | between start stop ordered =>
    some ⟨start.timeOfDay, stop.timeOfDay, by
      have : start.minuteOfDay ≤ stop.minuteOfDay := ordered
      show _ < _ ∨ _ = _ ∧ _ ≤ _
      simp only [ClockTime.timeOfDay, ClockTime.second]
      omega⟩

end Pattern

/-! ## Names of weekdays and months -/

/-- The names of the weekdays; Monday has number 0. -/
def weekdayNames : List (List Char) :=
  ["monday".toList, "tuesday".toList, "wednesday".toList, "thursday".toList, "friday".toList,
   "saturday".toList, "sunday".toList]

/-- The names of the months; January has number 1. -/
def monthNames : List (List Char) :=
  ["january".toList, "february".toList, "march".toList, "april".toList, "may".toList,
   "june".toList, "july".toList, "august".toList, "september".toList, "october".toList,
   "november".toList, "december".toList]

/-- The name of a weekday by its number, and nothing for other numbers. -/
def weekdayName (n : Nat) : List Char := weekdayNames.getD n []

/-- The name of a month by its number, and nothing for other numbers. -/
def monthName : Nat → List Char
  | 0 => []
  | n + 1 => monthNames.getD n []

/-! ## Words and sentences -/

namespace Canonical

/-- Words with single spaces between them. -/
def sentence (words : List (List Char)) : List Char := [' '].intercalate words

/-- Members with commas between them. -/
def enumeration (members : List (List Char)) : List Char := [','].intercalate members

/-- The words `of january,july`, unless all months are meant. -/
def monthWords (months : Selection 1 12) : List (List Char) :=
  if months.Restricts then ["of".toList, enumeration (months.members.map monthName)] else []

/-- The words `1,15`, `every day`, `every monday` or `2,3 monday,friday`. -/
def dayWords (f : DateFilter) : List (List Char) :=
  if f.days.Restricts then [enumeration (f.days.members.map Text.decimal)]
  else if ¬ f.weeks.Restricts ∧ ¬ f.weekdays.Restricts then ["every".toList, "day".toList]
  else
    let weeks :=
      if f.weeks.Restricts then enumeration (f.weeks.members.map Text.decimal)
      else "every".toList
    [weeks, enumeration (f.weekdays.members.map weekdayName)]

/-- The words of a calendar rule, such as `2,3 monday of march 17:00`. -/
def calendarWords (f : DateFilter) (time : ClockTime) : List (List Char) :=
  dayWords f ++ monthWords f.months ++ [time.text]

def patternWords : Pattern → List (List Char)
  | .free => []
  | .synchronized => ["synchronized".toList]
  | .between start stop _ => ["from".toList, start.text, "to".toList, stop.text]

/-- The words of an interval rule, such as `every 5 minutes from 10:00 to 14:00`. -/
def intervalWords (length : Nat) (unit : TimeUnit) (pattern : Pattern) : List (List Char) :=
  ["every".toList, Text.decimal length, unit.text] ++ patternWords pattern

end Canonical

end Recurrence
