import Recurrence.Proofs.DateSearch.Overshoot
import Recurrence.Proofs.Occurrence.Moves
/-!
# When a calendar rule gives the first occurrence

In a zone without transitions, a calendar rule always has a next occurrence, and it is the first
one after the instant unless the date search overshoots (`next_least_iff`). The search overshoots
only from the middle of a week of the month that is not selected, when a selected weekday has
passed in that week and another one is still ahead.
-/

namespace Recurrence

open Date DateSearch

/-- What counts in a search from `t`: later instants, and those from the start of the local minute of
`t` on if the position counts. -/
def StartBound.Admits (z : Zone) (t : Instant) : StartBound → Instant → Prop
  | .excluded, w => t < w
  | .included, w => ∃ m, z.startOfMinute t = .ok m ∧ m ≤ w

namespace CalendarRule

variable {r : CalendarRule} {z : Zone} {t v w : Instant} {d : Date} {bound : StartBound}

/-- The instant is at the time of the rule, on a local date that passes its filter. -/
def OccursAt (r : CalendarRule) (z : Zone) (v : Instant) : Prop :=
  r.filter.Accepts (z.dateAt v) ∧ z.timeAt v = r.time.timeOfDay

theorem occursAt_iff : r.OccursAt z v ↔ v.nano = 0 ∧ ∃ d, r.filter.Accepts d ∧
    z.localSecond v.second = 86400 * d.dayNumber + r.time.second := by
  have hsecond := z.timeAt_second v
  have hT := r.time.second_lt
  constructor
  · rintro ⟨hacc, htime⟩
    rw [TimeOfDay.ext_iff] at htime
    obtain ⟨hs, hn⟩ := htime
    unfold ClockTime.timeOfDay at hs
    refine ⟨hn, z.dateAt v, hacc, ?_⟩
    rw [z.localSecond_eq, hs]
  · rintro ⟨hn, d, hacc, hl⟩
    have hd : z.dateAt v = d := Date.ext (by simp only [Zone.dateAt]; omega)
    refine ⟨by rw [hd]; exact hacc, TimeOfDay.ext ?_ hn⟩
    simp only [ClockTime.timeOfDay]; omega

section Constant

variable {o : Offset} {e : Date} (hz : ∀ u, z.offsetAt u = o)
include hz

theorem second_of_move (h : CalendarMove r z t bound e v) :
    z.localSecond v.second = 86400 * e.dayNumber + r.time.second := by
  rw [h.second]
  apply Zone.localSecond_resolveSecond (v := 86400 * e.dayNumber + r.time.second - o.seconds)
  rw [Zone.localSecond_constant hz]; omega

/-- The instants at the time of the rule that count are those from the first date on. -/
theorem admits_iff_of_room (hlo : firstSecond + 60 ≤ t.second)
    (hw : z.localSecond w.second = 86400 * d.dayNumber + r.time.second) (hn : w.nano = 0) :
    bound.Admits z t w ↔
      r.time.firstDate (z.localSecond t.second - z.localSecond t.second % 60) bound ≤ d := by
  cases bound with
  | excluded =>
    rw [ClockTime.firstDate_excluded_minute, ClockTime.firstDate_excluded_le, ← hw,
      Zone.localSecond_lt_iff hz]
    exact Instant.lt_iff_second hn
  | included =>
    obtain ⟨m, hstart, hs, hmn⟩ := Zone.startOfMinute_ok (z := z) hlo
    have hadmits : StartBound.included.Admits z t w ↔ m ≤ w := by
      simp only [StartBound.Admits, hstart, Except.ok.injEq, exists_eq_left']
    rw [hadmits, ClockTime.firstDate_included_le, ← hw, Instant.le_iff_second hmn, hs,
      Zone.localSecond_constant hz, Zone.localSecond_constant hz]
    omega

theorem admits_iff_firstDate_le (hm : z.Mild t)
    (hw : z.localSecond w.second = 86400 * d.dayNumber + r.time.second) (hn : w.nano = 0) :
    bound.Admits z t w ↔
      r.time.firstDate (z.localSecond t.second - z.localSecond t.second % 60) bound ≤ d :=
  admits_iff_of_room hz (by have := hm.bounds; omega) hw hn

theorem least_iff_isFirst (hm : z.Mild t) (h : CalendarMove r z t bound e v) :
    (∀ w, bound.Admits z t w → r.OccursAt z w → v ≤ w) ↔ IsFirst r.filter.Accepts
      (r.time.firstDate (z.localSecond t.second - z.localSecond t.second % 60) bound) e := by
  have hv := second_of_move hz h
  have hvn := h.nano
  constructor
  · intro hleast
    refine ⟨h.from_first, h.accepts, ?_⟩
    intro c hfc hce hc
    have hlater := ClockTime.le_of_firstDate_le hfc
    have hrange := hm.bounds
    rw [Zone.localSecond_constant hz] at hv hlater
    rw [lt_def] at hce
    obtain ⟨w, -, hws, hwn⟩ := Zone.ofSecond_ok (n := 0) (by decide)
      (u := 86400 * c.dayNumber + r.time.second - o.seconds)
      (by have := v.le_last; omega)
    have hw : z.localSecond w.second = 86400 * c.dayNumber + r.time.second := by
      rw [Zone.localSecond_constant hz, hws]; omega
    have hvw := hleast w ((admits_iff_firstDate_le hz hm hw hwn).2 hfc)
      (occursAt_iff.2 ⟨hwn, c, hc, hw⟩)
    rw [Instant.le_iff_second hvn] at hvw
    omega
  · intro hfirst w htw hocc
    obtain ⟨hwn, c, hc, hw⟩ := occursAt_iff.1 hocc
    have hec := hfirst.le_of_holds ((admits_iff_firstDate_le hz hm hw hwn).1 htw) hc
    rw [le_def] at hec
    rw [Instant.le_iff_second hvn, ← Zone.localSecond_le_iff hz]
    omega

end Constant

/-- The next occurrence is the first one after the instant, unless the date search overshoots. -/
theorem next_least_iff (r : CalendarRule) (o : Offset) (t : Instant) (h : (Zone.constant o).Mild t) :
    ∃ v, (Schedule.calendar r).next (.constant o) t = .ok v ∧ t < v ∧ r.OccursAt (.constant o) v ∧
      ((∀ w, t < w → r.OccursAt (.constant o) w → v ≤ w) ↔
        ¬ Overshoots r.filter (r.time.firstDate ((Zone.constant o).localSecond t.second) .excluded)) := by
  have hz : ∀ u, (Zone.constant o).offsetAt u = o := Zone.offsetAt_constant o
  obtain ⟨e, v, hv, hmove⟩ := r.next_move ((Zone.aligned_constant o).steadyMinute t.second) h .excluded
  have hsecond := second_of_move hz hmove
  obtain ⟨hsearch, -⟩ := hmove.of_excluded
  have hyear := ClockTime.year_firstDate (c := r.time) (d := (Zone.constant o).dateAt t) .excluded rfl
  have hlo := h.1
  have hhi := h.2
  obtain ⟨e', he', -, -, -, hiff⟩ := firstAccepted_isFirst_iff r.occurs
    (d := r.time.firstDate ((Zone.constant o).localSecond t.second) .excluded) (by omega)
  rw [hsearch, Except.ok.injEq] at he'
  subst he'
  have hleast := least_iff_isFirst hz h hmove
  rw [ClockTime.firstDate_excluded_minute] at hleast
  exact ⟨v, hv, (admits_iff_firstDate_le hz h hsecond hmove.nano).2 hmove.from_first,
    occursAt_iff.2 ⟨hmove.nano, e, hmove.accepts, hsecond⟩, hleast.trans hiff⟩

/-- At 09:00 on the second Monday and the second Friday of each month. -/
def secondMondayAndFriday : CalendarRule where
  filter := .weekly ⟨[2], by decide, by decide, by decide⟩ ⟨[0, 4], by decide, by decide, by decide⟩
    DateFilter.allMonths
  time := ⟨540, by decide⟩
  occurs := by decide +kernel

example : Schedule.nthWeekday ⟨32400, 0, by decide, by decide⟩ [2] [0, 4] (List.range' 1 12) =
    .ok (.calendar secondMondayAndFriday) := by rfl

def utc : Zone := .constant ⟨0, by decide, by decide⟩

/-- Wednesday 2026-06-03, 10:00 UTC. -/
def wednesday : Instant := (Instant.of? 1780480800 0).get (by decide)

/-- The Monday of that week has passed and the Friday is still ahead, so the rule goes from there to
Friday 2026-06-12, past Monday 2026-06-08. -/
theorem secondMonday_passed_over : utc.Mild wednesday ∧
    ∃ v, (Schedule.calendar secondMondayAndFriday).next utc wednesday = .ok v ∧
      ¬ ∀ w, wednesday < w → secondMondayAndFriday.OccursAt utc w → v ≤ w := by
  have hmild : utc.Mild wednesday := by decide
  have hcourse : OffCourse secondMondayAndFriday.filter ⟨20608⟩ := {
    month_mem := by decide
    week_not_mem := by decide
    later_week := ⟨2, by decide, by decide⟩
    has_passed := ⟨⟨20605⟩, by decide, by decide, by decide, by decide⟩
    is_ahead := ⟨⟨20609⟩, by decide, by decide, by decide, by decide⟩ }
  have hmonths (e : Date) : e.month ∈ DateFilter.allMonths := by
    have := monthIndex_spec e
    exact Selection.mem_of_not_restricts (Selection.not_restricts_full (by decide)) (by omega)
  obtain ⟨v, hv, -, -, hiff⟩ := next_least_iff secondMondayAndFriday _ wednesday hmild
  exact ⟨hmild, v, hv, fun hleast => hiff.1 hleast ⟨hcourse, fun e _ _ => hmonths e⟩⟩

end CalendarRule

end Recurrence
