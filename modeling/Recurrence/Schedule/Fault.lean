import Recurrence.Schedule.Canonical
/-!
# Why a schedule cannot be made

A `Fault` is a cause; `Fault.message` puts it into words.
-/

namespace Recurrence

/-- The parts of a date filter. -/
inductive FilterPart where
  | weeks
  | weekdays
  | days
  | months
  deriving DecidableEq

def FilterPart.label : FilterPart → String
  | weeks => "week index(es)"
  | weekdays => "day-of-week"
  | days => "day(s) of month"
  | months => "month"

/-- Why a schedule cannot be made. -/
inductive Fault where
  /-- The words of an expression do not have the shape of a schedule. -/
  | malformed (expression : List Char)
  | notOrdinal (token : List Char)
  | notWeekday (token : List Char)
  | notMonth (token : List Char)
  | notTime (token : List Char)
  | notNumber (token : List Char)
  | numberTooLarge (token : List Char)
  | notUnit (token : List Char)
  /-- A window starts after it stops. -/
  | windowReversed (start stop : ClockTime)
  | zeroLength
  | stepTooLong (length : Nat) (unit : TimeUnit)
  /-- The steps of a synchronized rule do not fill the day evenly. -/
  | stepUneven (length : Nat) (unit : TimeUnit)
  | noneSelected (part : FilterPart)
  /-- The listed numbers lie outside the domain of the part. -/
  | outsideDomain (part : FilterPart) (numbers : List Nat)
  | neverOccurs (filter : DateFilter) (time : ClockTime)
  deriving DecidableEq

namespace Fault

private def quoted (text : List Char) : String := "\"" ++ String.ofList text ++ "\""

private def number (n : Nat) : String := String.ofList (Text.decimal n)

private def interval (length : Nat) (unit : TimeUnit) : String :=
  "interval(" ++ number length ++ " " ++ String.ofList unit.text ++ ")"

/-- What is wrong, in words. -/
def reason : Fault → String
  | malformed expression => quoted expression ++ " is not a valid schedule expression"
  | notOrdinal token => quoted token ++ " isn't ordinal"
  | notWeekday token => quoted token ++ " isn't a valid day-of-week"
  | notMonth token => quoted token ++ " isn't a valid month"
  | notTime token => quoted token ++ " isn't a valid time expression"
  | notNumber token => quoted token ++ " is not a number"
  | numberTooLarge token => quoted token ++ " is out of range"
  | notUnit token =>
    quoted token ++ " isn't a valid unit (it must be either minutes(mins) or hours)"
  | windowReversed start stop =>
    "start(" ++ String.ofList start.text ++ ") must be <= end(" ++ String.ofList stop.text ++ ")"
  | zeroLength => "length(0) must be > 0"
  | stepTooLong length unit => interval length unit ++ " must not exceed 366 days"
  | stepUneven length unit => interval length unit ++ " doesn't divide 24h evenly"
  | noneSelected part => "at least one " ++ part.label ++ " is required"
  | outsideDomain part numbers =>
    "invalid " ++ part.label ++ " [" ++ ", ".intercalate (numbers.map number) ++ "]"
  | neverOccurs filter time =>
    quoted (Canonical.sentence (Canonical.calendarWords filter time)) ++ " never occurs"

/-- The whole message. -/
def message (f : Fault) : String := "Invalid schedule expression: " ++ f.reason

end Fault

/-- The set of the listed numbers, as a part of a date filter. -/
def FilterPart.select (part : FilterPart) {lo hi : Nat} (numbers : List Nat) :
    Except Fault (Selection lo hi) :=
  match Selection.of? numbers with
  | .ok selection => .ok selection
  | .error .empty => .error (.noneSelected part)
  | .error (.outside numbers) => .error (.outsideDomain part numbers)

end Recurrence
