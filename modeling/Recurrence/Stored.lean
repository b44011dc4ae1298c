import Recurrence.Expression.Clause
import Recurrence.Expression.Token
import Recurrence.Schedule.Basic
import Recurrence.Text
/-!
# Reading and storing schedules

`Schedule.parse` reads an expression such as `every 5 minutes from 10:00 to 14:00` or
`2nd,third mon,wed of march 17:00`. Letters may be upper or lower case. The shape of the
expression comes first, then the words in it are read, and then the schedule is made by the
function that its shape calls for.

A schedule is stored as its canonical text and a unit as its name. A schedule may be loaded
from any expression, a unit from its exact name alone.
-/

namespace Recurrence

namespace Expression

/-- Expressions that stand for longer ones, at the start of a text and up to a space. -/
def shorthands : List (List Char × List Char) :=
  [("every hour".toList, "every 1 hours".toList), ("every minute".toList, "every 1 minutes".toList)]

/-- The text with `short` at its start replaced by `long`, if it starts with that word. -/
def expand? (text short long : List Char) : Option (List Char) :=
  match short.isPrefixOf? text with
  | some [] => some long
  | some (' ' :: rest) => some (long ++ ' ' :: rest)
  | _ => none

/-- The text without shorthands. -/
def expandShorthand (text : List Char) : List Char :=
  (shorthands.findSome? fun shorthand => expand? text shorthand.1 shorthand.2).getD text

/-- The text that is read: lower-cased and without shorthands. -/
def normalize (text : List Char) : List Char := expandShorthand (Text.lowercase text)

end Expression

namespace Clause

/-- The months that are named, or all of them. -/
def monthsOf : Option Word → Except Fault (List Nat)
  | some list => Token.listOf Token.month list
  | none => .ok DateFilter.allMonths.members

/-- The ordinals that are listed, unless the word is `every`. -/
def ordinalsOf (word : Word) : Except Fault (Option (List Nat)) :=
  if word = "every".toList then .ok none else some <$> Token.listOf Token.ordinal word

def patternOf : PatternClause → Except Fault Pattern
  | .free => .ok .free
  | .synchronized => .ok .synchronized
  | .between start stop => do
    let start ← Token.clockTime start
    let stop ← Token.clockTime stop
    Pattern.within start stop

/-- The schedule that a clause stands for. -/
def schedule : Clause → Except Fault Schedule
  | everyDay months time => do
    let months ← monthsOf months
    let time ← Token.clockTime time
    Schedule.dailyIn time.timeOfDay months
  | interval length unit pattern => do
    let pattern ← patternOf pattern
    let length ← Token.length length
    let unit ← Token.unit unit
    return .interval (← IntervalRule.of length unit pattern)
  | calendar ordinals weekdays months time => do
    let ordinals ← ordinalsOf ordinals
    let months ← monthsOf months
    let time ← Token.clockTime time
    match weekdays with
    | some list =>
      let weekdays ← Token.listOf Token.weekday list
      Schedule.nthWeekday time.timeOfDay (ordinals.getD DateFilter.allWeeks.members) weekdays months
    | none =>
      Schedule.nthDay time.timeOfDay (ordinals.getD DateFilter.allDays.members) months

end Clause

/-- The schedule that an expression stands for. -/
def Schedule.parse (text : List Char) : Except Fault Schedule :=
  let expression := Expression.normalize text
  match Clause.ofText? expression with
  | some clause => clause.schedule
  | none => .error (.malformed expression)

/-! ## Stored schedules and units -/

namespace Schedule

def store (s : Schedule) : List Char := s.canonical

def load (text : List Char) : Except Fault Schedule := parse text

end Schedule

/-- A text that is not the name of a unit. -/
structure UnknownUnit where
  text : List Char
  deriving DecidableEq

def UnknownUnit.message (u : UnknownUnit) : String :=
  "unknown variant `" ++ String.ofList u.text ++ "`, expected `minutes` or `hours`"

namespace TimeUnit

def store (u : TimeUnit) : List Char := u.text

def load (text : List Char) : Except UnknownUnit TimeUnit :=
  if text = minutes.text then .ok minutes
  else if text = hours.text then .ok hours
  else .error ⟨text⟩

end TimeUnit

end Recurrence
