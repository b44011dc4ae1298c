import Recurrence.Proofs.Occurrence.FirstOccurrence
import Recurrence.Proofs.Schedule.Making
import Recurrence.Stored
/-!
# Schedules of days and weekdays give the first occurrence

If all weeks of a month count, the date search is never off course, and so it never goes past a
date. In a zone without transitions, such a rule gives the first occurrence that counts, whether the
position does or not (`next_least_of_everyWeek`). All schedules but those of the N-th weekday are of
that kind (`Schedule.DateBased.everyWeek`).
-/

namespace Recurrence

open Date DateSearch

/-- Every week of a month counts. -/
def CalendarRule.EveryWeek (r : CalendarRule) : Prop := ¬ r.filter.weeks.Restricts

namespace CalendarRule

variable {r : CalendarRule} {z : Zone} {v : Instant}

/-- The instant is at the time of the rule, on a local date in its months, on its days of the month
and on its weekdays. -/
def FallsOn (r : CalendarRule) (z : Zone) (v : Instant) : Prop :=
  (z.dateAt v).month ∈ r.filter.months ∧ (z.dateAt v).day ∈ r.filter.days ∧
    (z.dateAt v).weekday ∈ r.filter.weekdays ∧ z.timeAt v = r.time.timeOfDay

theorem EveryWeek.not_offCourse (h : r.EveryWeek) (d : Date) : ¬ OffCourse r.filter d := fun hoff =>
  hoff.week_not_mem (Selection.mem_of_not_restricts h (weekOfMonth_bounds d))

theorem EveryWeek.occursAt_iff (h : r.EveryWeek) : r.OccursAt z v ↔ r.FallsOn z v := by
  have hweek := Selection.mem_of_not_restricts h (weekOfMonth_bounds (z.dateAt v))
  simp only [OccursAt, DateFilter.Accepts, FallsOn, hweek, and_true, and_assoc]

theorem next_least_of_everyWeek (hr : r.EveryWeek) {o : Offset} {t : Instant}
    (h : (Zone.constant o).Mild t) (bound : StartBound) :
    ∃ v, r.next (.constant o) t bound = .ok v ∧ bound.Admits (.constant o) t v ∧
      r.FallsOn (.constant o) v ∧
      ∀ w, bound.Admits (.constant o) t w → r.FallsOn (.constant o) w → v ≤ w := by
  have hz : ∀ u, (Zone.constant o).offsetAt u = o := Zone.offsetAt_constant o
  obtain ⟨e, v, hv, hmove⟩ := r.next_move ((Zone.aligned_constant o).steadyMinute t.second) h bound
  have hsecond := second_of_move hz hmove
  have hyear := ClockTime.year_firstDate (c := r.time) (d := (Zone.constant o).dateAt t) bound
    (l := (Zone.constant o).localSecond t.second - (Zone.constant o).localSecond t.second % 60)
    (by simp only [Zone.dateAt]; omega)
  have hlo := h.1
  have hhi := h.2
  obtain ⟨m, hm, hfirst, -⟩ := firstAccepted_isFirst r.occurs (hr.not_offCourse _)
    (d := r.time.firstDate ((Zone.constant o).localSecond t.second -
      (Zone.constant o).localSecond t.second % 60) bound) (by omega)
  rw [hmove.search, Except.ok.injEq] at hm
  subst hm
  have hleast := (least_iff_isFirst hz h hmove).2 hfirst
  refine ⟨v, hv, (admits_iff_firstDate_le hz h hsecond hmove.nano).2 hmove.from_first,
    hr.occursAt_iff.1 (CalendarRule.occursAt_iff.2 ⟨hmove.nano, e, hmove.accepts, hsecond⟩), ?_⟩
  intro w hw hocc
  exact hleast w hw (hr.occursAt_iff.2 hocc)

end CalendarRule

namespace Schedule

/-- The schedules of every day, of weekdays and of days of the month. An expression gives one of them
if it leaves no week of a month out. -/
inductive DateBased : Schedule → Prop
  | daily {time : TimeOfDay} {s : Schedule} (made : daily time = .ok s) : DateBased s
  | dailyIn {time : TimeOfDay} {months : List Nat} {s : Schedule}
    (made : dailyIn time months = .ok s) : DateBased s
  | weekly {time : TimeOfDay} {weekdays : List Nat} {s : Schedule}
    (made : weekly time weekdays = .ok s) : DateBased s
  | weeklyIn {time : TimeOfDay} {weekdays months : List Nat} {s : Schedule}
    (made : weeklyIn time weekdays months = .ok s) : DateBased s
  | nthDay {time : TimeOfDay} {days months : List Nat} {s : Schedule}
    (made : nthDay time days months = .ok s) : DateBased s
  | parsed {text : List Char} {r : CalendarRule} (read : parse text = .ok (.calendar r))
    (everyWeek : r.EveryWeek) : DateBased (.calendar r)

variable {s : Schedule}

theorem DateBased.everyWeek (h : s.DateBased) : ∃ r, s = .calendar r ∧ r.EveryWeek := by
  have ofDays {time days months} (h : Schedule.nthDay time days months = .ok s) :
      ∃ r, s = .calendar r ∧ r.EveryWeek := by
    obtain ⟨r, d, m, rfl, hf, -⟩ := nthDay_eq_ok h
    exact ⟨r, rfl, by rw [CalendarRule.EveryWeek, hf]; exact Selection.not_restricts_full (by decide)⟩
  have ofWeekdays {time weekdays months} (h : Schedule.weeklyIn time weekdays months = .ok s) :
      ∃ r, s = .calendar r ∧ r.EveryWeek := by
    rw [weeklyIn_eq] at h
    obtain ⟨r, w, d, m, rfl, hw, hf, -⟩ := nthWeekday_eq_ok h
    rw [FilterPart.select_members, Except.ok.injEq] at hw
    exact ⟨r, rfl, by rw [CalendarRule.EveryWeek, hf, ← hw]; exact Selection.not_restricts_full (by decide)⟩
  cases h with
  | daily made => exact ofDays (dailyIn_eq ▸ daily_eq ▸ made)
  | dailyIn made => exact ofDays (dailyIn_eq ▸ made)
  | weekly made => exact ofWeekdays (weekly_eq ▸ made)
  | weeklyIn made => exact ofWeekdays made
  | nthDay made => exact ofDays made
  | parsed _ everyWeek => exact ⟨_, rfl, everyWeek⟩

/-- A schedule of days or weekdays goes to the first instant after the position at which it occurs,
and to the first one from the start of its local minute on if the position counts. -/
theorem dateBased_next_least (hs : s.DateBased) (o : Offset) (t : Instant)
    (h : (Zone.constant o).Mild t) : ∃ r, s = .calendar r ∧
      (∃ v, s.next (.constant o) t = .ok v ∧ t < v ∧ r.FallsOn (.constant o) v ∧
        ∀ w, t < w → r.FallsOn (.constant o) w → v ≤ w) ∧
      ∃ m v, (Zone.constant o).BeginsMinute t m ∧ s.nextOrSame (.constant o) t = .ok v ∧
        m ≤ v ∧ r.FallsOn (.constant o) v ∧ ∀ w, m ≤ w → r.FallsOn (.constant o) w → v ≤ w := by
  obtain ⟨r, rfl, hr⟩ := hs.everyWeek
  obtain ⟨v, hv, hlater, hfalls, hleast⟩ := CalendarRule.next_least_of_everyWeek hr h .excluded
  obtain ⟨v', hv', ⟨m, hm, hfrom⟩, hfalls', hleast'⟩ :=
    CalendarRule.next_least_of_everyWeek hr h .included
  have hbegins := ((Zone.aligned_constant o).steadyMinute t.second).beginsMinute hm
  refine ⟨r, rfl, ⟨v, hv, hlater, hfalls, hleast⟩, m, v', hbegins, hv', hfrom, hfalls', ?_⟩
  intro w hmw hw
  exact hleast' w ⟨m, hm, hmw⟩ hw

/-- Within the leap second at the end of 1896. -/
def endOf1896 : Instant := (Instant.of? (-2303596801) 1500000000).get (by decide)

/-- At noon on the 29th of February, in a zone half a minute ahead of UTC. The next one is seven years
away: 1900 is no leap year. -/
theorem leapDay_next_least : ∃ s, nthDay ⟨43200, 0, by decide, by decide⟩ [29] [2] = .ok s ∧
    s.DateBased ∧ (Zone.constant ⟨30, by decide, by decide⟩).Mild endOf1896 ∧
    ∃ r, s = .calendar r ∧
      (∃ v, s.next (.constant ⟨30, by decide, by decide⟩) endOf1896 = .ok v ∧
        v.second = -2077704030 ∧ endOf1896 < v ∧
        r.FallsOn (.constant ⟨30, by decide, by decide⟩) v ∧
        ∀ w, endOf1896 < w → r.FallsOn (.constant ⟨30, by decide, by decide⟩) w → v ≤ w) ∧
      ∃ m v, (Zone.constant ⟨30, by decide, by decide⟩).BeginsMinute endOf1896 m ∧
        m.second = -2303596830 ∧
        s.nextOrSame (.constant ⟨30, by decide, by decide⟩) endOf1896 = .ok v ∧
        v.second = -2077704030 ∧ m ≤ v ∧
        r.FallsOn (.constant ⟨30, by decide, by decide⟩) v ∧
        ∀ w, m ≤ w → r.FallsOn (.constant ⟨30, by decide, by decide⟩) w → v ≤ w := by
  obtain ⟨s, hs, hnext, hsame⟩ : ∃ s, nthDay ⟨43200, 0, by decide, by decide⟩ [29] [2] = .ok s ∧
      (s.next (.constant ⟨30, by decide, by decide⟩) endOf1896).map (·.second) = .ok (-2077704030) ∧
      (s.nextOrSame (.constant ⟨30, by decide, by decide⟩) endOf1896).map (·.second) =
        .ok (-2077704030) := ⟨_, rfl, by decide +kernel, by decide +kernel⟩
  have hmild : (Zone.constant ⟨30, by decide, by decide⟩).Mild endOf1896 := by decide
  obtain ⟨r, hr, ⟨v, hv, hlater, hfalls, hleast⟩, m, v', hbegins, hv', hfrom, hfalls', hleast'⟩ :=
    dateBased_next_least (.nthDay hs) _ _ hmild
  have hlocal : m.second + 30 = -2303596771 - -2303596771 % 60 := (Zone.beginsMinute_iff.1 hbegins).1
  rw [hv] at hnext
  rw [hv'] at hsame
  exact ⟨s, hs, .nthDay hs, hmild, r, hr, ⟨v, hv, Except.ok.inj hnext, hlater, hfalls, hleast⟩,
    m, v', hbegins, by omega, hv', Except.ok.inj hsame, hfrom, hfalls', hleast'⟩

end Schedule

end Recurrence
