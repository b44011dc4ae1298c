import Recurrence.Occurrence.DateSearch
import Recurrence.Schedule.Basic
import Recurrence.Timeline.Stamp
/-!
# The next occurrence

`Schedule.next` gives the first occurrence after an instant, and `Schedule.nextOrSame` the
first one from the instant's own minute on. Both reason in wall-clock time at the instant and
go back to instants at the end:

- without a grid, an interval rule occurs one step later;
- on a grid, it occurs at the next slot of the day, reached by adding to the instant what the
  slot is away on the wall clock, or else at the first slot of the next day;
- a calendar rule occurs at its time of day on the next date that its filter accepts.

A `Cursor` stands on the last occurrence that it gave, at first on the instant that it started
from. There is always a next occurrence unless it lies out of range; a cursor that is asked for
such a one stays where it is.
-/

namespace Recurrence

/-- Whether an occurrence at the start of a search counts. -/
inductive StartBound where
  | included
  | excluded
  deriving DecidableEq

/-- The slot to go to from an instant. -/
def SlotGrid.nextSlot (g : SlotGrid) (z : Zone) (t : Instant) (bound : StartBound) :
    Except RollError Instant := do
  let today ← z.dateInRangeAt t
  let now := z.timeAt t
  if now < g.start.timeOfDay then z.resolve t (.of today g.start)
  else
    let past := (now.second - g.start.second) % g.step
    if g.stop < now.second + (g.step - past) then
      let tomorrow ← today.advance 1
      z.resolve t (.of tomorrow g.start)
    else
      let slot ← t.plus (-past)
      if past = 0 ∧ bound = .included then .ok slot else slot.plus g.step

/-- The next occurrence of an interval rule. -/
def IntervalRule.next (r : IntervalRule) (z : Zone) (t : Instant) (bound : StartBound) :
    Except RollError Instant := do
  match r.grid? with
  | none => t.plus r.step
  | some grid =>
    let slot ← grid.nextSlot z t bound
    z.startOfMinute slot

/-- The next occurrence of a calendar rule. -/
def CalendarRule.next (r : CalendarRule) (z : Zone) (t : Instant) (bound : StartBound) :
    Except RollError Instant := do
  let start ← z.startOfMinute t
  let today ← z.dateInRangeAt start
  let now := z.timeAt start
  let time := r.time.timeOfDay
  let first ← if now < time ∨ now = time ∧ bound = .included then .ok today else today.advance 1
  let date ← DateSearch.firstAccepted r.filter first
  z.resolve start (.of date r.time)

namespace Schedule

/-- The next occurrence from an instant on. -/
def nextFrom (s : Schedule) (z : Zone) (t : Instant) (bound : StartBound) :
    Except RollError Instant :=
  match s with
  | interval rule => rule.next z t bound
  | calendar rule => rule.next z t bound

/-- The first occurrence after an instant. -/
def next (s : Schedule) (z : Zone) (t : Instant) : Except RollError Instant :=
  s.nextFrom z t .excluded

/-- The first occurrence from the minute of an instant on. An interval rule without a grid
always goes one step on. -/
def nextOrSame (s : Schedule) (z : Zone) (t : Instant) : Except RollError Instant :=
  s.nextFrom z t .included

end Schedule

/-! ## Walking through occurrences -/

/-- A place among the occurrences of a schedule. -/
structure Cursor where
  schedule : Schedule
  zone : Zone
  position : Instant

namespace Cursor

/-- Moves to the next occurrence, and says which one it is. -/
def step (c : Cursor) (bound : StartBound) : Except RollError Instant × Cursor :=
  match c.schedule.nextFrom c.zone c.position bound with
  | .ok t => (.ok t, { c with position := t })
  | .error e => (.error e, c)

/-- Moves to the first occurrence after the position. -/
def next (c : Cursor) : Except RollError Instant × Cursor := c.step .excluded

/-- Moves to the first occurrence from the minute of the position on. -/
def nextOrSame (c : Cursor) : Except RollError Instant × Cursor := c.step .included

/-- Several moves, with what each of them gave. A move without an answer does not end the
run. -/
def run (c : Cursor) : List StartBound → List (Except RollError Instant) × Cursor
  | [] => ([], c)
  | bound :: bounds =>
    let (answer, moved) := c.step bound
    let (answers, last) := moved.run bounds
    (answer :: answers, last)

/-- The next `n` occurrences. -/
def take (c : Cursor) (n : Nat) : List (Except RollError Instant) × Cursor :=
  c.run (List.replicate n .excluded)

/-- The next occurrence but `n`. The first move without an answer is the last one. -/
def nth (c : Cursor) : Nat → Except RollError Instant × Cursor
  | 0 => c.next
  | n + 1 =>
    match c.next with
    | (.ok _, moved) => moved.nth n
    | stuck => stuck

end Cursor

end Recurrence
