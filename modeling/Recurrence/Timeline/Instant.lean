import Recurrence.Civil.Date
/-!
# Instants

An `Instant` is a UTC second with nanoseconds on top. A leap second has no number of its own:
it is counted in the second 59 that it follows, with nanoseconds from 10⁹ on. Instants run
over the same days as dates, and an occurrence beyond them has no answer but a `RollError`.
-/

namespace Recurrence

/-- Why an occurrence cannot be given. -/
inductive RollError where
  /-- The search would leave the range of dates. -/
  | dateOutOfRange
  /-- The occurrence would leave the range of instants. -/
  | instantOutOfRange
  /-- The search stands on a day past the end of its month. That happens on the last date
  alone, whose month is cut short by the end of the range. -/
  | dayPastMonthEnd
  /-- The search did not settle on a date. -/
  | unsettled
  deriving DecidableEq

/-- The first second of the range. -/
def firstSecond : Int := 86400 * Date.first.dayNumber

/-- The last second of the range. -/
def lastSecond : Int := 86400 * Date.last.dayNumber + 86399

/-- UTC seconds since 1970-01-01, and nanoseconds on top of them. -/
@[ext] structure Instant where
  second : Int
  nano : Nat
  nano_lt : nano < 2000000000
  leap : 1000000000 ≤ nano → second % 60 = 59
  first_le : firstSecond ≤ second
  le_last : second ≤ lastSecond

namespace Instant

instance : DecidableEq Instant := fun _ _ => decidable_of_iff _ Instant.ext_iff.symm

/-- Earlier second first, then fewer nanoseconds. -/
instance : LE Instant := ⟨fun a b => a.second < b.second ∨ a.second = b.second ∧ a.nano ≤ b.nano⟩

instance : LT Instant := ⟨fun a b => a.second < b.second ∨ a.second = b.second ∧ a.nano < b.nano⟩

instance (a b : Instant) : Decidable (a ≤ b) := inferInstanceAs (Decidable (_ ∨ _ ∧ _))

instance (a b : Instant) : Decidable (a < b) := inferInstanceAs (Decidable (_ ∨ _ ∧ _))

/-- Within a leap second. -/
def IsLeap (t : Instant) : Prop := 1000000000 ≤ t.nano

instance (t : Instant) : Decidable t.IsLeap := inferInstanceAs (Decidable (_ ≤ _))

/-- The instant of a second and its nanoseconds, if there is one in the range. -/
def of? (second : Int) (nano : Nat) : Option Instant :=
  if h : nano < 2000000000 ∧ (1000000000 ≤ nano → second % 60 = 59) ∧
      firstSecond ≤ second ∧ second ≤ lastSecond then
    some ⟨second, nano, h.1, h.2.1, h.2.2.1, h.2.2.2⟩
  else none

/-- The instant of a second and a fraction of it. -/
def ofSecond (second : Int) (nano : Nat) (nano_lt : nano < 1000000000) : Except RollError Instant :=
  if h : firstSecond ≤ second ∧ second ≤ lastSecond then
    .ok ⟨second, nano, by omega, by omega, h.1, h.2⟩
  else .error .instantOutOfRange

/-- The instant `d` seconds later. Moving off a leap second lands on an ordinary one: a leap
second is a second 59 on the way forward, and the second after it on the way back. -/
def plus (t : Instant) (d : Int) : Except RollError Instant :=
  if d = 0 then .ok t
  else
    let start := if t.IsLeap ∧ d < 0 then t.second + 1 else t.second
    Instant.ofSecond (start + d) (t.nano % 1000000000) (by omega)

end Instant

end Recurrence
