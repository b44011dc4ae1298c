/-!
# Dates of the proleptic Gregorian calendar

A `Date` is a day number, so order and arithmetic on dates are those of the integers.
Year, month and day are a view of it, `Date.civil`, and `Date.ofCivil` goes back. Both count
years from March: a leap day is then the last day of its year, and the Gregorian cycle of
146097 days (400 years) splits into centuries, four-year cycles and years that differ only in
their last member.

Dates that a schedule may work with are those from `Date.first` to `Date.last`; the type
itself has no bounds, because the local date of an instant can lie a day outside.
-/

namespace Recurrence

/-- A day, counted from 1970-01-01. -/
@[ext] structure Date where
  dayNumber : Int
  deriving DecidableEq

/-- A year, a month from 1 to 12, and a day of that month from 1. -/
@[ext] structure CivilDate where
  year : Int
  month : Nat
  day : Nat
  deriving DecidableEq

/-! ## Months and years -/

/-- A leap year is divisible by 4, and by 400 if it ends a century. -/
def IsLeapYear (year : Int) : Prop :=
  year % 4 = 0 ∧ (year % 100 ≠ 0 ∨ year % 400 = 0)

instance (year : Int) : Decidable (IsLeapYear year) := inferInstanceAs (Decidable (_ ∧ _))

def monthLength (year : Int) (month : Nat) : Nat :=
  if month = 2 then (if IsLeapYear year then 29 else 28)
  else if month = 4 ∨ month = 6 ∨ month = 9 ∨ month = 11 then 30
  else 31

namespace CivilDate

/-- The month exists, and the day exists in it. -/
def Valid (c : CivilDate) : Prop :=
  1 ≤ c.month ∧ c.month ≤ 12 ∧ 1 ≤ c.day ∧ c.day ≤ monthLength c.year c.month

instance (c : CivilDate) : Decidable c.Valid := by unfold Valid; infer_instance

end CivilDate

namespace Date

/-- Days from 0000-03-01 to 1970-01-01. -/
def marchShift : Int := 719468

/-- Days from 0000-03-01 to the first of March of a year. -/
def yearStart (year : Int) : Int := 365 * year + year / 4 - year / 100 + year / 400

/-- The year, counted from March, that holds the day `n` days after 0000-03-01. -/
def yearOfDay (n : Int) : Int :=
  let century := min 3 (n % 146097 / 36524)
  let dayOfCentury := n % 146097 - 36524 * century
  let yearOfCycle := min 3 (dayOfCentury % 1461 / 365)
  400 * (n / 146097) + 100 * century + 4 * (dayOfCentury / 1461) + yearOfCycle

/-- Days from the first of March to the first of the month `m` months later, within a year. -/
def monthStart (m : Int) : Int := (153 * m + 2) / 5

/-- The number of whole months from the first of March to the day `n` days later. -/
def monthOfDay (n : Int) : Int := (5 * n + 2) / 153

/-- Year, month and day of a date. -/
def civil (d : Date) : CivilDate :=
  let n := d.dayNumber + marchShift
  let year := yearOfDay n
  let dayOfYear := n - yearStart year
  let month := monthOfDay dayOfYear
  let day := (dayOfYear - monthStart month + 1).toNat
  if month < 10 then ⟨year, (month + 3).toNat, day⟩ else ⟨year + 1, (month - 9).toNat, day⟩

/-- The date of a year, month and day. A day beyond the end of its month runs on into the
next one. -/
def ofCivil (c : CivilDate) : Date :=
  let start :=
    if c.month ≤ 2 then yearStart (c.year - 1) + monthStart (c.month + 9)
    else yearStart c.year + monthStart (c.month - 3)
  ⟨start + c.day - 1 - marchShift⟩

def year (d : Date) : Int := d.civil.year

def month (d : Date) : Nat := d.civil.month

def day (d : Date) : Nat := d.civil.day

/-- The day of the week, Monday = 0 to Sunday = 6. -/
def weekday (d : Date) : Nat := ((d.dayNumber + 3) % 7).toNat

/-- Which occurrence of its weekday in the month a date is, counted from 1. -/
def weekOfMonth (d : Date) : Nat := (d.day + 6) / 7

/-! ## Order and arithmetic -/

instance : LE Date := ⟨fun a b => a.dayNumber ≤ b.dayNumber⟩

instance : LT Date := ⟨fun a b => a.dayNumber < b.dayNumber⟩

instance (a b : Date) : Decidable (a ≤ b) := inferInstanceAs (Decidable (a.dayNumber ≤ b.dayNumber))

instance (a b : Date) : Decidable (a < b) := inferInstanceAs (Decidable (a.dayNumber < b.dayNumber))

theorem le_def {a b : Date} : a ≤ b ↔ a.dayNumber ≤ b.dayNumber := Iff.rfl

theorem lt_def {a b : Date} : a < b ↔ a.dayNumber < b.dayNumber := Iff.rfl

protected theorem le_refl (a : Date) : a ≤ a := Int.le_refl _

protected theorem le_trans {a b c : Date} (h : a ≤ b) (h' : b ≤ c) : a ≤ c := Int.le_trans h h'

protected theorem le_of_lt {a b : Date} (h : a < b) : a ≤ b := Int.le_of_lt h

protected theorem lt_of_le_of_lt {a b c : Date} (h : a ≤ b) (h' : b < c) : a < c :=
  Int.lt_of_le_of_lt h h'

protected theorem lt_of_lt_of_le {a b c : Date} (h : a < b) (h' : b ≤ c) : a < c :=
  Int.lt_of_lt_of_le h h'

protected theorem le_antisymm {a b : Date} (h : a ≤ b) (h' : b ≤ a) : a = b :=
  Date.ext (Int.le_antisymm h h')

protected theorem not_le {a b : Date} : ¬ a ≤ b ↔ b < a := Int.not_le

protected theorem not_lt {a b : Date} : ¬ a < b ↔ b ≤ a := Int.not_lt

/-- The date `n` days later. -/
def plusDays (d : Date) (n : Int) : Date := ⟨d.dayNumber + n⟩

@[simp] theorem dayNumber_plusDays (d : Date) (n : Int) :
    (d.plusDays n).dayNumber = d.dayNumber + n := rfl

/-! ## The range that schedules work in -/

/-- The first date of the range, -262143-01-01. -/
def first : Date := ⟨-96465292⟩

/-- The last date of the range, 262142-12-31. -/
def last : Date := ⟨95026236⟩

def InRange (d : Date) : Prop := first ≤ d ∧ d ≤ last

instance (d : Date) : Decidable d.InRange := inferInstanceAs (Decidable (_ ∧ _))

/-- The date of a year, month and day, if it exists and lies in the range. -/
def ofCivil? (c : CivilDate) : Option Date :=
  if c.Valid ∧ (ofCivil c).InRange then some (ofCivil c) else none

example : first.civil = ⟨-262143, 1, 1⟩ := by decide

example : last.civil = ⟨262142, 12, 31⟩ := by decide

example : (⟨0⟩ : Date).civil = ⟨1970, 1, 1⟩ ∧ (⟨0⟩ : Date).weekday = 3 := by decide

example : ofCivil? ⟨2000, 2, 29⟩ = some ⟨11016⟩ ∧ ofCivil? ⟨1900, 2, 29⟩ = none := by decide

end Date

end Recurrence
