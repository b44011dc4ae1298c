import Recurrence.Timeline.Zone
/-!
# Wall-clock times and stamps

Schedules are written in wall-clock time, and everything that turns such a time into an
instant goes through `Zone.resolve`:

- a time shown once is that instant;
- a time shown twice keeps the offset of the anchor, the instant that the search started from,
  when the later of the two has it, and is the earlier one otherwise;
- a skipped time is read with the offset in force before the jump, so that it is shifted
  forward by the length of the jump.

`Zone.startOfMinute` cuts an instant down to its local minute.

The way back is a stamp, the local date and time of an instant followed by the offset from UTC, as
in `2026-03-29T03:30:00+02:00`. Fractions of a second are written with three, six or nine digits,
the fewest that are exact, and not at all when they are zero. The seconds of the offset are
written only when they are not zero.
-/

namespace Recurrence

/-- A wall-clock date and time: seconds since 1970-01-01 00:00 on the wall clock, and a
fraction of a second. -/
@[ext] structure WallTime where
  second : Int
  nano : Nat
  nano_lt : nano < 1000000000
  deriving DecidableEq

/-- The wall-clock time at which `time` is shown on `date`. -/
def WallTime.of (date : Date) (time : ClockTime) : WallTime :=
  ⟨86400 * date.dayNumber + time.second, 0, by decide⟩

namespace Zone

/-- The instant at which a skipped wall-clock time would have come had the clock not jumped.
The offset before the jump is the one that was in force a day earlier on the wall clock; if
that time was skipped as well, it is the anchor's. -/
def resolveSkipped (z : Zone) (anchor : Instant) (w : WallTime) : Except RollError Instant :=
  let dayBefore := w.second - 86400
  if dayBefore < firstSecond then .error .dateOutOfRange
  else
    let before :=
      match z.earliest? dayBefore with
      | some u => z.offsetAt u
      | none => z.offsetAt anchor.second
    Instant.ofSecond (w.second - before.seconds) w.nano w.nano_lt

/-- The instant of a wall-clock time, as seen from the anchor. A wall-clock time of which a
reading lies outside the range of instants counts as skipped. -/
def resolve (z : Zone) (anchor : Instant) (w : WallTime) : Except RollError Instant :=
  match z.locate w.second with
  | .skipped => z.resolveSkipped anchor w
  | .once u =>
    match Instant.ofSecond u w.nano w.nano_lt with
    | .ok t => .ok t
    | .error _ => z.resolveSkipped anchor w
  | .repeated earliest latest =>
    match Instant.ofSecond earliest w.nano w.nano_lt, Instant.ofSecond latest w.nano w.nano_lt with
    | .ok a, .ok b => .ok (if z.offsetAt latest = z.offsetAt anchor.second then b else a)
    | _, _ => z.resolveSkipped anchor w

/-- The local date of an instant, if it lies in the range of dates. -/
def dateInRangeAt (z : Zone) (t : Instant) : Except RollError Date :=
  if (z.dateAt t).InRange then .ok (z.dateAt t) else .error .dateOutOfRange

/-- The start of the local minute that an instant lies in, as far as the offset at that
instant tells. -/
def startOfMinute (z : Zone) (t : Instant) : Except RollError Instant :=
  Instant.ofSecond (t.second - z.localSecond t.second % 60) 0 (by decide)

end Zone

/-! ## Instants as text -/

namespace Stamp

open Text

/-- Four digits for the years 0 to 9999; others have a sign as well. -/
def yearText (year : Int) : List Char :=
  if 0 ≤ year ∧ year ≤ 9999 then paddedDecimal 4 year.toNat
  else (if year < 0 then '-' else '+') :: paddedDecimal 4 year.natAbs

def dateText (date : Date) : List Char :=
  yearText date.year ++ '-' :: paddedDecimal 2 date.month ++ '-' :: paddedDecimal 2 date.day

def fractionText (nano : Nat) : List Char :=
  if nano = 0 then []
  else if nano % 1000000 = 0 then '.' :: paddedDecimal 3 (nano / 1000000)
  else if nano % 1000 = 0 then '.' :: paddedDecimal 6 (nano / 1000)
  else '.' :: paddedDecimal 9 nano

/-- Within a leap second the clock shows one second more, such as `23:59:60`. -/
def timeText (time : TimeOfDay) : List Char :=
  let shown :=
    if time.nano < 1000000000 then time.secondOfMinute else time.secondOfMinute + 1
  paddedDecimal 2 time.hour ++ ':' :: paddedDecimal 2 time.minute ++ ':' ::
    paddedDecimal 2 shown ++ fractionText (time.nano % 1000000000)

def offsetText (offset : Offset) : List Char :=
  let n := offset.seconds.natAbs
  (if offset.seconds < 0 then '-' else '+') :: paddedDecimal 2 (n / 3600) ++
    ':' :: paddedDecimal 2 (n / 60 % 60) ++
    (if n % 60 = 0 then [] else ':' :: paddedDecimal 2 (n % 60))

end Stamp

/-- The text of an instant in a zone. -/
def Zone.stamp (z : Zone) (t : Instant) : List Char :=
  Stamp.dateText (z.dateAt t) ++ 'T' :: Stamp.timeText (z.timeAt t) ++
    Stamp.offsetText (z.offsetAt t.second)

end Recurrence
