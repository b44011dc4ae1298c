import Mathlib
import Recurrence.Stored
/-!
# The language of expressions

Which expressions there are and what they mean, in whatever way they are read. An expression is made
of words with single spaces between them, by one of three productions:

- `every day [of MONTHS] TIME`
- `every NUMBER UNIT [from TIME to TIME | synchronized]`
- `(every | ORDINALS) [WEEKDAYS] [of MONTHS] TIME`

A derivation has the value that the function for its kind of schedule gives for the sets, times and
numbers that the words denote, which may be a fault.
-/

namespace Recurrence.Grammar

/-! ## Words -/

/-- A name in full, or its first three letters. -/
def Name (names : List Word) (word : Word) (i : Nat) : Prop :=
  ∃ name, names[i]? = some name ∧ (word = name ∨ word = name.take 3)

def Weekday (word : Word) (n : Nat) : Prop := Name weekdayNames word n

/-- Months are counted from 1. -/
def Month (word : Word) (n : Nat) : Prop := ∃ i, Name monthNames word i ∧ n = i + 1

def Digits (word : Word) : Prop := ∀ c ∈ word, c.isDigit

/-- A word such as `third`, or one or two digits with any ordinal ending or none. -/
inductive Ordinal : Word → Nat → Prop
  | spelled {word : Word} {i : Nat} (h : Token.ordinalWords[i]? = some word) : Ordinal word (i + 1)
  | counted {digits ending : Word} (hdigits : Digits digits)
    (hlength : digits.length = 1 ∨ digits.length = 2)
    (hending : ending = [] ∨ ending ∈ Token.ordinalEndings) :
    Ordinal (digits ++ ending) (Nat.ofDigitChars 10 digits 0)

/-- Two digits for the hour, a colon, and two digits for the minute. -/
inductive Time : Word → ClockTime → Prop
  | clock {h₁ h₂ m₁ m₂ : Char} {time : ClockTime} (hdigits : Digits [h₁, h₂, m₁, m₂])
    (hhour : Nat.ofDigitChars 10 [h₁, h₂] 0 = time.hour)
    (hminute : Nat.ofDigitChars 10 [m₁, m₂] 0 = time.minute) : Time [h₁, h₂, ':', m₁, m₂] time

/-- The digits of a number that fits into 32 bits. -/
structure Number (word : Word) (n : Nat) : Prop where
  nonempty : word ≠ []
  digits : Digits word
  value : Nat.ofDigitChars 10 word 0 = n
  fits : n < 4294967296

inductive UnitName : Word → TimeUnit → Prop
  | mins : UnitName "mins".toList .minutes
  | minutes : UnitName "minutes".toList .minutes
  | hours : UnitName "hours".toList .hours

/-- Items with single commas between them. -/
def Items (item : Word → Nat → Prop) (word : Word) (numbers : List Nat) : Prop :=
  ∃ items, items ≠ [] ∧ List.Forall₂ item items numbers ∧ word = Canonical.enumeration items

/-- The words `of MONTHS`, or no words for all months. -/
inductive Months : List Word → List Nat → Prop
  | all : Months [] DateFilter.allMonths.members
  | of {word : Word} {months : List Nat} (h : Items Month word months) :
    Months ["of".toList, word] months

/-! ## Productions -/

inductive Production where
  | everyDay
  | interval
  | calendar
  deriving DecidableEq

/-- The words are derived by a production, and have a value. -/
inductive Derives : Production → List Word → Except Fault Schedule → Prop
  /-- Written `every day [of MONTHS] TIME` -/
  | everyDay {ofMonths : List Word} {months : List Nat} {t : Word} {time : ClockTime}
    (hmonths : Months ofMonths months) (htime : Time t time) :
    Derives .everyDay (["every".toList, "day".toList] ++ ofMonths ++ [t])
      (Schedule.dailyIn time.timeOfDay months)
  /-- Written `every NUMBER UNIT` -/
  | every {n u : Word} {length : Nat} {unit : TimeUnit} (hlength : Number n length)
    (hunit : UnitName u unit) :
    Derives .interval ["every".toList, n, u] (Schedule.every length unit)
  /-- Written `every NUMBER UNIT synchronized` -/
  | synchronized {n u : Word} {length : Nat} {unit : TimeUnit} (hlength : Number n length)
    (hunit : UnitName u unit) :
    Derives .interval ["every".toList, n, u, "synchronized".toList]
      (Schedule.everySynchronized length unit)
  /-- Written `every NUMBER UNIT from TIME to TIME` -/
  | between {n u a b : Word} {length : Nat} {unit : TimeUnit} {start stop : ClockTime}
    (hlength : Number n length) (hunit : UnitName u unit) (hstart : Time a start)
    (hstop : Time b stop) :
    Derives .interval ["every".toList, n, u, "from".toList, a, "to".toList, b]
      (Schedule.everyBetween start.timeOfDay stop.timeOfDay length unit)
  /-- Written `every WEEKDAYS [of MONTHS] TIME` -/
  | weekly {w t : Word} {ofMonths : List Word} {weekdays months : List Nat} {time : ClockTime}
    (hweekdays : Items Weekday w weekdays) (hmonths : Months ofMonths months) (htime : Time t time) :
    Derives .calendar (["every".toList, w] ++ ofMonths ++ [t])
      (Schedule.weeklyIn time.timeOfDay weekdays months)
  /-- Written `every [of MONTHS] TIME` -/
  | daily {t : Word} {ofMonths : List Word} {months : List Nat} {time : ClockTime}
    (hmonths : Months ofMonths months) (htime : Time t time) :
    Derives .calendar (["every".toList] ++ ofMonths ++ [t])
      (Schedule.dailyIn time.timeOfDay months)
  /-- Written `ORDINALS WEEKDAYS [of MONTHS] TIME` -/
  | nthWeekday {o w t : Word} {ofMonths : List Word} {weeks weekdays months : List Nat}
    {time : ClockTime} (hweeks : Items Ordinal o weeks) (hweekdays : Items Weekday w weekdays)
    (hmonths : Months ofMonths months) (htime : Time t time) :
    Derives .calendar ([o, w] ++ ofMonths ++ [t])
      (Schedule.nthWeekday time.timeOfDay weeks weekdays months)
  /-- Written `ORDINALS [of MONTHS] TIME` -/
  | nthDay {o t : Word} {ofMonths : List Word} {days months : List Nat} {time : ClockTime}
    (hdays : Items Ordinal o days) (hmonths : Months ofMonths months) (htime : Time t time) :
    Derives .calendar ([o] ++ ofMonths ++ [t]) (Schedule.nthDay time.timeOfDay days months)

/-! ## Expressions -/

/-- The expression is derived by a production, and has a value. -/
def Reads (p : Production) (expression : List Char) (value : Except Fault Schedule) : Prop :=
  ∃ words, expression = Canonical.sentence words ∧ Derives p words value

/-- The text ends, or goes on with a space. -/
def EndsWord (rest : List Char) : Prop := rest = [] ∨ ∃ more, rest = ' ' :: more

/-- The text with `every hour` or `every minute` at its start written out. -/
inductive Expands : List Char → List Char → Prop
  | hour {rest : List Char} (h : EndsWord rest) :
    Expands ("every hour".toList ++ rest) ("every 1 hours".toList ++ rest)
  | minute {rest : List Char} (h : EndsWord rest) :
    Expands ("every minute".toList ++ rest) ("every 1 minutes".toList ++ rest)
  | unchanged {text : List Char}
    (hhour : ∀ rest, EndsWord rest → text ≠ "every hour".toList ++ rest)
    (hminute : ∀ rest, EndsWord rest → text ≠ "every minute".toList ++ rest) : Expands text text

end Recurrence.Grammar
