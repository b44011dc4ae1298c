import Recurrence.Civil.TimeOfDay
import Recurrence.Timeline.Instant
/-!
# Time zones

A `Zone` is a list of offset changes. From UTC to local time it is a function, `Zone.offsetAt`.
The way back is not: where the offset grows, local times are skipped, and where it shrinks they
come twice. `Zone.readings` lists the UTC seconds that a wall clock shows as a given local
second, and `Zone.locate` says whether there is none, one, or more than one.
-/

namespace Recurrence

/-- Seconds that local time is ahead of UTC, less than a day either way. -/
@[ext] structure Offset where
  seconds : Int
  lower : -86400 < seconds
  upper : seconds < 86400
  deriving DecidableEq

/-- From the UTC second `start` on, `offset` is in force. -/
structure Transition where
  start : Int
  offset : Offset
  deriving DecidableEq

/-- The offset before the first transition, and the transitions in order of time. -/
structure Zone where
  base : Offset
  transitions : List Transition
  ascending : transitions.Pairwise (·.start < ·.start)

def Offset.of? (seconds : Int) : Option Offset :=
  if h : -86400 < seconds ∧ seconds < 86400 then some ⟨seconds, h.1, h.2⟩ else none

namespace Zone

/-- The zone of an offset and its changes, if they are in order of time. -/
def of? (base : Offset) (transitions : List Transition) : Option Zone :=
  if h : transitions.Pairwise (·.start < ·.start) then some ⟨base, transitions, h⟩ else none

/-- A zone without transitions. -/
def constant (offset : Offset) : Zone := ⟨offset, [], .nil⟩

/-! ## From UTC to local time -/

/-- The offset in force at a UTC second, when `current` is in force before `transitions`. -/
def offsetAfter (current : Offset) : List Transition → Int → Offset
  | [], _ => current
  | t :: rest, u => if u < t.start then current else offsetAfter t.offset rest u

/-- The offset in force at a UTC second. -/
def offsetAt (z : Zone) (u : Int) : Offset := offsetAfter z.base z.transitions u

/-- The local second that a wall clock shows at a UTC second. -/
def localSecond (z : Zone) (u : Int) : Int := u + (z.offsetAt u).seconds

/-- The local date of an instant, which may lie a day outside the range of dates. -/
def dateAt (z : Zone) (t : Instant) : Date := ⟨z.localSecond t.second / 86400⟩

/-- The local time of day of an instant. -/
def timeAt (z : Zone) (t : Instant) : TimeOfDay :=
  ⟨(z.localSecond t.second % 86400).toNat, t.nano, by omega, t.nano_lt⟩

/-! ## From local time to UTC -/

/-- Every offset that the zone knows. -/
def offsets (z : Zone) : List Offset := z.base :: z.transitions.map (·.offset)

/-- The UTC seconds that a wall clock shows as the local second `l`. -/
def readings (z : Zone) (l : Int) : List Int :=
  (z.offsets.filter fun o => z.offsetAt (l - o.seconds) = o).map fun o => l - o.seconds

/-- How often a wall clock shows a local second, and when. -/
inductive Reading where
  | skipped
  | once (u : Int)
  | repeated (earliest latest : Int)
  deriving DecidableEq

/-- How often a wall clock shows the local second `l`. -/
def locate (z : Zone) (l : Int) : Reading :=
  match z.readings l with
  | [] => .skipped
  | u :: rest =>
    let earliest := rest.foldl min u
    let latest := rest.foldl max u
    if earliest = latest then .once u else .repeated earliest latest

/-- The first UTC second that a wall clock shows as the local second `l`. -/
def earliest? (z : Zone) (l : Int) : Option Int :=
  match z.locate l with
  | .skipped => none
  | .once u => some u
  | .repeated u _ => some u

end Zone

end Recurrence
