import Recurrence.Proofs.DateSearch.RangeEnd
import Recurrence.Proofs.Occurrence.FirstOccurrence
/-!
# Calendar rules at the end of the range

In UTC, a calendar rule gives an occurrence or fails up to the last date of the range, with one
exception. After its last occurrence, a rule that does not look at days of the month and has the weekday
of the last date among its own gives that date (`CalendarRule.nextFrom_at_range_end`).
-/

namespace Recurrence

open Date DateSearch

variable {r : CalendarRule} {z : Zone} {t u v a : Instant} {d : Date} {bound : StartBound}

/-- A time that is shown once, within the range, resolves to that instant. -/
theorem Zone.resolve_of_shown_once {w : WallTime} {x : Int} (hx : z.localSecond x = w.second)
    (honly : ∀ y, z.localSecond y = w.second → y = x) (hrange : firstSecond ≤ x ∧ x ≤ lastSecond) :
    ∃ v, z.resolve a w = .ok v ∧ v.second = x ∧ v.nano = w.nano := by
  obtain ⟨v, hv, hs, hn⟩ := ofSecond_ok w.nano_lt hrange
  refine ⟨v, ?_, hs, hn⟩
  have hr := locate_spec z w.second
  unfold resolve
  generalize z.locate w.second = reading at hr ⊢
  cases hr with
  | skipped none => exact absurd hx (none x)
  | once y shown only =>
    obtain rfl := honly y shown
    simp only [hv]
  | repeated c e lt first last =>
    have hc := honly c first
    have he := honly e last
    omega

namespace CalendarRule

theorem utc_localSecond (x : Int) : utc.localSecond x = x :=
  (Zone.localSecond_constant (Zone.offsetAt_constant _) x).trans (Int.add_zero x)

theorem utc_dateAt_inRange (t : Instant) : (utc.dateAt t).InRange := by
  have hlo := t.first_le
  have hhi := t.le_last
  simp only [firstSecond, lastSecond] at hlo hhi
  simp only [InRange, le_def, Zone.dateAt, utc_localSecond]
  omega

/-- In UTC, a time of day comes on every date of the range. -/
theorem utc_resolve (hd : d.InRange) (c : ClockTime) :
    ∃ v, utc.resolve a (.of d c) = .ok v ∧ v.second = 86400 * d.dayNumber + c.second ∧ v.nano = 0 := by
  obtain ⟨hlo, hhi⟩ := hd
  have hc := c.second_lt
  refine Zone.resolve_of_shown_once (utc_localSecond _) (fun y hy => ?_) ?_
  · rw [utc_localSecond] at hy
    exact hy
  · simp only [le_def] at hlo hhi
    simp only [firstSecond, lastSecond]
    omega

/-- The first date from which a search in UTC looks for an accepted one. -/
def firstDateUtc (r : CalendarRule) (t : Instant) (bound : StartBound) : Date :=
  r.time.firstDate (t.second - t.second % 60) bound

/-- In UTC, a calendar rule goes to its time on the date that the search gives. -/
theorem next_utc_eq_ok_iff (hlo : firstSecond + 60 ≤ t.second) : r.next utc t bound = .ok v ↔
    (r.firstDateUtc t bound).InRange ∧ ∃ d, firstAccepted r.filter (r.firstDateUtc t bound) = .ok d ∧
      v.second = 86400 * d.dayNumber + r.time.second ∧ v.nano = 0 := by
  obtain ⟨start, hstart, hs, hn⟩ := Zone.startOfMinute_ok (z := utc) hlo
  rw [utc_localSecond] at hs
  rw [next_eq_search hstart hn (utc_dateAt_inRange start), utc_localSecond, hs]
  show (if (r.firstDateUtc t bound).InRange then _ else _) = _ ↔ _
  by_cases hin : (r.firstDateUtc t bound).InRange
  · rw [if_pos hin]
    refine (bind_eq_ok_iff (x := firstAccepted r.filter (r.firstDateUtc t bound))).trans ?_
    rw [and_iff_right hin]
    refine exists_congr fun d => and_congr_right fun hd => ?_
    obtain ⟨⟨-, hdin⟩, -⟩ := settle_inRange hin hd
    obtain ⟨w, hw, hws, hwn⟩ := utc_resolve (a := start) hdin r.time
    rw [hw, Except.ok.injEq]
    constructor
    · rintro rfl
      exact ⟨hws, hwn⟩
    · rintro ⟨hvs, hvn⟩
      exact Instant.ext (hws.trans hvs.symm) (hwn.trans hvn.symm)
  · rw [if_neg hin]
    exact iff_of_false (by rintro ⟨⟩) fun h => hin h.1

theorem utc_dateAt_eq {w : Instant} {c : ClockTime} (hw : w.second = 86400 * d.dayNumber + c.second) :
    utc.dateAt w = d := by
  have hc := c.second_lt
  ext
  simp only [Zone.dateAt, utc_localSecond]
  omega

theorem utc_timeAt_iff {w : Instant} {c : ClockTime} : utc.timeAt w = c.timeOfDay ↔
    w.nano = 0 ∧ w.second = 86400 * (utc.dateAt w).dayNumber + c.second := by
  have hl := utc.localSecond_eq w
  rw [utc_localSecond] at hl
  constructor
  · intro h
    have hn : (utc.timeAt w).nano = 0 := congrArg TimeOfDay.nano h
    rw [h] at hl
    exact ⟨hn, hl⟩
  · rintro ⟨hn, hw⟩
    exact TimeOfDay.ext (by simp only [ClockTime.timeOfDay]; omega) hn

theorem utc_admits_iff {w : Instant} (hlo : firstSecond + 60 ≤ t.second)
    (hw : utc.timeAt w = r.time.timeOfDay) :
    bound.Admits utc t w ↔ r.firstDateUtc t bound ≤ utc.dateAt w := by
  obtain ⟨hn, hs⟩ := utc_timeAt_iff.1 hw
  have hiff : bound.Admits utc t w ↔ _ :=
    admits_iff_of_room (Zone.offsetAt_constant _) hlo ((utc_localSecond _).trans hs) hn
  rwa [utc_localSecond] at hiff

/-- What a search in UTC gives is an occurrence, or the last date if the search stops there. -/
theorem next_utc_admits (hlo : firstSecond + 60 ≤ t.second) (h : r.next utc t bound = .ok v) :
    bound.Admits utc t v ∧ utc.timeAt v = r.time.timeOfDay ∧ (r.filter.Accepts (utc.dateAt v) ∨
      utc.dateAt v = Date.last ∧ StopsAtEnd r.filter) := by
  obtain ⟨hin, d, hd, hs, hn⟩ := (next_utc_eq_ok_iff hlo).1 h
  obtain ⟨⟨hle, -⟩, hacc⟩ := settle_inRange hin hd
  obtain rfl := utc_dateAt_eq hs
  have htime := utc_timeAt_iff.2 ⟨hn, hs⟩
  exact ⟨(utc_admits_iff hlo htime).2 hle, htime, hacc⟩

/-- Without an occurrence left, the search gives the last date if it stops there. -/
theorem next_utc_last (h : 262042 < (utc.dateAt t).year) (hlo : firstSecond + 60 ≤ t.second)
    (hin : (r.firstDateUtc t bound).InRange) (hstops : StopsAtEnd r.filter)
    (hnone : ∀ w, bound.Admits utc t w → ¬ r.OccursAt utc w) :
    ∃ v, r.next utc t bound = .ok v := by
  have hnone' (e : Date) (hle : r.firstDateUtc t bound ≤ e) (hlast : e ≤ Date.last) :
      ¬ r.filter.Accepts e := by
    intro hacc
    obtain ⟨w, -, hs, hn⟩ := utc_resolve (a := t) (inRange_of_le hin hle hlast) r.time
    obtain rfl := utc_dateAt_eq hs
    have htime := utc_timeAt_iff.2 ⟨hn, hs⟩
    exact hnone w ((utc_admits_iff hlo htime).2 hle) ⟨hacc, htime⟩
  have hyear := ClockTime.year_firstDate (c := r.time) (d := utc.dateAt t)
    (l := t.second - t.second % 60) bound (by simp only [Zone.dateAt, utc_localSecond]; omega)
  have hfirst := (monthIndex_spec (r.firstDateUtc t bound)).1
  have hlast := last_monthIndex
  have hsettle : firstAccepted r.filter (r.firstDateUtc t bound) = .ok Date.last :=
    settle_last hin hstops hnone' (by unfold firstDateUtc at hfirst ⊢; simp only [maxRounds]; omega)
  obtain ⟨v, -, hs, hn⟩ := utc_resolve (a := t) (d := Date.last) (by decide) r.time
  exact ⟨v, (next_utc_eq_ok_iff hlo).2 ⟨hin, Date.last, hsettle, hs, hn⟩⟩

/-- At the end of the range, what a rule gives is an occurrence, or else the last date. It gives that
date, instead of failing, if no occurrence is left, provided that the rule does not look at days of the
month and has the weekday of the last date among its own, and that its time of day still comes. -/
theorem nextFrom_at_range_end (r : CalendarRule) (t : Instant) (h : 262042 < (utc.dateAt t).year)
    (bound : StartBound) :
    (∀ v, (Schedule.calendar r).nextFrom utc t bound = .ok v → bound.Admits utc t v ∧
      utc.timeAt v = r.time.timeOfDay ∧ (r.filter.Accepts (utc.dateAt v) ∨
        utc.dateAt v = Date.last ∧ StopsAtEnd r.filter)) ∧
    ((∀ w, bound.Admits utc t w → ¬ r.OccursAt utc w) →
      ((∃ v, (Schedule.calendar r).nextFrom utc t bound = .ok v) ↔
        StopsAtEnd r.filter ∧ ∃ w, bound.Admits utc t w ∧ utc.timeAt w = r.time.timeOfDay)) := by
  have hroom : firstSecond + 60 ≤ t.second := by
    have hdate := (Date.year_bounds_iff (d := utc.dateAt t) (a := 262043) (b := 262142)).1
      ⟨by omega, (inRange_iff.1 (utc_dateAt_inRange t)).2⟩
    have hbegin : first.dayNumber + 1 ≤ monthBegin (12 * 262043) := by decide
    simp only [Zone.dateAt, utc_localSecond] at hdate
    simp only [firstSecond]
    omega
  refine ⟨fun v hv => next_utc_admits hroom hv, fun hnone => ⟨?_, ?_⟩⟩
  · rintro ⟨v, hv⟩
    obtain ⟨hadmits, htime, hacc⟩ := next_utc_admits hroom hv
    obtain ⟨-, hstops⟩ := hacc.resolve_left fun hacc => hnone v hadmits ⟨hacc, htime⟩
    exact ⟨hstops, v, hadmits, htime⟩
  · rintro ⟨hstops, w, hadmits, htime⟩
    have hle := (utc_admits_iff hroom htime).1 hadmits
    have hyear := ClockTime.year_firstDate (c := r.time) (d := utc.dateAt t)
      (l := t.second - t.second % 60) bound (by simp only [Zone.dateAt, utc_localSecond]; omega)
    have hlast := year_mono hle
    have hw := inRange_iff.1 (utc_dateAt_inRange w)
    exact next_utc_last h hroom (inRange_iff.2 ⟨by unfold firstDateUtc; omega, by omega⟩) hstops hnone

/-- 262142-07-01, 00:00 UTC, in the last year of the range. -/
def lastJuly : Instant := (Instant.of? 8210250979200 0).get (by decide)

/-- After the last June of the range, a rule for June gives the last day of December. -/
theorem june_answers_december : ∃ r, Schedule.dailyIn .midnight [6] = .ok (.calendar r) ∧
    262042 < (utc.dateAt lastJuly).year ∧
    ∃ v, (Schedule.calendar r).next utc lastJuly = .ok v ∧ utc.dateAt v = Date.last ∧
      ¬ r.filter.Accepts (utc.dateAt v) := by
  obtain ⟨r, made, hstops, hmonths, htime⟩ : ∃ r,
      Schedule.dailyIn .midnight [6] = .ok (.calendar r) ∧ StopsAtEnd r.filter ∧
      r.filter.months.members = [6] ∧ r.time = TimeOfDay.midnight.clockTime :=
    ⟨_, rfl, by decide, rfl, rfl⟩
  have hyear : 262042 < (utc.dateAt lastJuly).year := by decide
  obtain ⟨hgives, hlast⟩ := nextFrom_at_range_end r lastJuly hyear .excluded
  have hnone (w : Instant) (hlater : lastJuly < w) : ¬ r.filter.Accepts (utc.dateAt w) := by
    intro hacc
    have hjune : (utc.dateAt w).month = 6 := by
      have := hacc.1
      rwa [Selection.mem_def, hmonths, List.mem_singleton] at this
    have hfrom : lastJuly.second ≤ w.second := by
      rcases hlater with hlt | ⟨heq, -⟩
      · exact Int.le_of_lt hlt
      · exact Int.le_of_eq heq
    have hi := monthIndex_mono (d := utc.dateAt lastJuly) (e := utc.dateAt w)
      (by simp only [le_def, Zone.dateAt, utc_localSecond]; omega)
    have hjuly : (utc.dateAt lastJuly).monthIndex = 12 * 262142 + 6 := by decide
    have hend := monthIndex_mono (utc_dateAt_inRange w).2
    have hmonth := (monthIndex_spec (utc.dateAt w)).2.1
    rw [last_monthIndex] at hend
    omega
  obtain ⟨w, -, hws, hwn⟩ := utc_resolve (a := lastJuly) (d := Date.last) (by decide) r.time
  have hdate := utc_dateAt_eq hws
  obtain ⟨v, hv⟩ := (hlast fun w hlater hocc => hnone w hlater hocc.1).2
    ⟨hstops, w, .inl (by rw [hws, htime]; decide), utc_timeAt_iff.2 ⟨hwn, by rw [hdate, hws]⟩⟩
  obtain ⟨hlater, -, hcase⟩ := hgives v hv
  have hout := hnone v hlater
  exact ⟨r, made, hyear, v, hv, (hcase.resolve_left hout).1, hout⟩

end CalendarRule

end Recurrence
