import Recurrence.Civil.Date
import Recurrence.Civil.TimeOfDay
import Recurrence.Expression.Clause
import Recurrence.Expression.Token
import Recurrence.Occurrence.Cursor
import Recurrence.Occurrence.DateSearch
import Recurrence.Proofs.DateSearch.Neighbours
import Recurrence.Proofs.DateSearch.Overshoot
import Recurrence.Proofs.DateSearch.Parts
import Recurrence.Proofs.DateSearch.RangeEnd
import Recurrence.Proofs.DateSearch.Round
import Recurrence.Proofs.DateSearch.Settling
import Recurrence.Proofs.Expression.Beginnings
import Recurrence.Proofs.Expression.Complaints
import Recurrence.Proofs.Expression.Grammar
import Recurrence.Proofs.Expression.Reading
import Recurrence.Proofs.Expression.RoundTrip
import Recurrence.Proofs.Expression.Shapes
import Recurrence.Proofs.Expression.Words
import Recurrence.Proofs.Months
import Recurrence.Proofs.Occurrence.Ascent
import Recurrence.Proofs.Occurrence.ConstantOffset
import Recurrence.Proofs.Occurrence.EveryWeek
import Recurrence.Proofs.Occurrence.FirstOccurrence
import Recurrence.Proofs.Occurrence.FirstSlot
import Recurrence.Proofs.Occurrence.GridDrift
import Recurrence.Proofs.Occurrence.Itinerary
import Recurrence.Proofs.Occurrence.Moves
import Recurrence.Proofs.Occurrence.RangeEnd
import Recurrence.Proofs.Occurrence.SameAndNext
import Recurrence.Proofs.Occurrence.ShiftedTime
import Recurrence.Proofs.Occurrence.SingleSlot
import Recurrence.Proofs.Occurrence.Totality
import Recurrence.Proofs.Schedule.Making
import Recurrence.Proofs.Schedule.Refusals
import Recurrence.Proofs.Schedule.Validation
import Recurrence.Proofs.Selections
import Recurrence.Proofs.Timeline.Minutes
import Recurrence.Proofs.Timeline.Offsets
import Recurrence.Proofs.Timeline.Readings
import Recurrence.Proofs.Timeline.Resolution
import Recurrence.Proofs.Timeline.Truncation
import Recurrence.Proofs.YearKinds
import Recurrence.Schedule.Basic
import Recurrence.Schedule.Canonical
import Recurrence.Schedule.DateFilter
import Recurrence.Schedule.Fault
import Recurrence.Stored
import Recurrence.Text
import Recurrence.Timeline.Instant
import Recurrence.Timeline.Stamp
import Recurrence.Timeline.Zone
