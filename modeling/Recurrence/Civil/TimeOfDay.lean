import Recurrence.Text
/-!
# Times of day

`TimeOfDay` is what a clock shows, to the nanosecond and with room for a leap second.
`ClockTime` is a whole minute, the precision that schedules are written in;
`TimeOfDay.clockTime` cuts a time of day down to it.
-/

namespace Recurrence

/-- Seconds since midnight, and nanoseconds on top of them. Nanoseconds from 10⁹ on lie in
the leap second that follows that second. -/
@[ext] structure TimeOfDay where
  second : Nat
  nano : Nat
  second_lt : second < 86400
  nano_lt : nano < 2000000000
  deriving DecidableEq

/-- A time of day without seconds: minutes since midnight. -/
@[ext] structure ClockTime where
  minuteOfDay : Nat
  minuteOfDay_lt : minuteOfDay < 1440
  deriving DecidableEq

namespace TimeOfDay

def hour (t : TimeOfDay) : Nat := t.second / 3600

def minute (t : TimeOfDay) : Nat := t.second / 60 % 60

def secondOfMinute (t : TimeOfDay) : Nat := t.second % 60

/-- The time of day of an hour, minute, second and nanosecond; only second 59 may be followed
by a leap second. -/
def ofClock? (hour minute second nano : Nat) : Option TimeOfDay :=
  if h : hour < 24 ∧ minute < 60 ∧ second < 60 ∧
      (nano < 1000000000 ∨ second = 59 ∧ nano < 2000000000) then
    some ⟨3600 * hour + 60 * minute + second, nano, by omega, by omega⟩
  else none

/-- Earlier second first, then fewer nanoseconds. -/
instance : LE TimeOfDay := ⟨fun a b => a.second < b.second ∨ a.second = b.second ∧ a.nano ≤ b.nano⟩

instance : LT TimeOfDay := ⟨fun a b => a.second < b.second ∨ a.second = b.second ∧ a.nano < b.nano⟩

instance (a b : TimeOfDay) : Decidable (a ≤ b) := inferInstanceAs (Decidable (_ ∨ _ ∧ _))

instance (a b : TimeOfDay) : Decidable (a < b) := inferInstanceAs (Decidable (_ ∨ _ ∧ _))

def midnight : TimeOfDay := ⟨0, 0, by decide, by decide⟩

/-- The last nanosecond of a day without a leap second. -/
def endOfDay : TimeOfDay := ⟨86399, 999999999, by decide, by decide⟩

/-- The minute that a time of day lies in. -/
def clockTime (t : TimeOfDay) : ClockTime := ⟨t.second / 60, by have := t.second_lt; omega⟩

end TimeOfDay

namespace ClockTime

def hour (t : ClockTime) : Nat := t.minuteOfDay / 60

def minute (t : ClockTime) : Nat := t.minuteOfDay % 60

/-- Seconds since midnight. -/
def second (t : ClockTime) : Nat := 60 * t.minuteOfDay

def ofHourMinute? (hour minute : Nat) : Option ClockTime :=
  if h : hour < 24 ∧ minute < 60 then some ⟨60 * hour + minute, by omega⟩ else none

/-- The first instant of the minute. -/
def timeOfDay (t : ClockTime) : TimeOfDay :=
  ⟨t.second, 0, by have := t.minuteOfDay_lt; unfold second; omega, by decide⟩

instance : LE ClockTime := ⟨fun a b => a.minuteOfDay ≤ b.minuteOfDay⟩

instance : LT ClockTime := ⟨fun a b => a.minuteOfDay < b.minuteOfDay⟩

instance (a b : ClockTime) : Decidable (a ≤ b) :=
  inferInstanceAs (Decidable (a.minuteOfDay ≤ b.minuteOfDay))

instance (a b : ClockTime) : Decidable (a < b) :=
  inferInstanceAs (Decidable (a.minuteOfDay < b.minuteOfDay))

/-- The hour and the minute, two digits each. -/
def text (t : ClockTime) : List Char :=
  Text.paddedDecimal 2 t.hour ++ ':' :: Text.paddedDecimal 2 t.minute

@[simp] theorem clockTime_timeOfDay (t : ClockTime) : t.timeOfDay.clockTime = t := by
  ext; simp [timeOfDay, TimeOfDay.clockTime, second]

example : (⟨125, by decide⟩ : ClockTime).text = "02:05".toList := by decide

end ClockTime

end Recurrence
