import Recurrence.Proofs.DateSearch.Neighbours
import Recurrence.Proofs.Occurrence.FirstOccurrence
import Recurrence.Proofs.Timeline.Readings
/-!
# The occurrence from an instant on, and the one after it

The two searches differ only if the position itself may count. On a grid that means to stay or to go
on. For a calendar rule, in the minute of its time of day, the search that counts the position begins
on the date and the other one on the day after. The first one then ends no later than the second one,
unless it outruns it (`Schedule.nextOrSame_le_next_iff`).
-/

namespace Recurrence

open Date DateSearch

variable {z : Zone} {t u v : Instant} {bound : StartBound} {d e e₀ e₁ : Date} {l c : Int}

/-! ## Where both searches begin -/

namespace ClockTime

variable {c : ClockTime}

theorem firstDate_bounds_eq (h : l % 86400 ≠ c.second) :
    c.firstDate l .included = c.firstDate l .excluded := by
  simp only [firstDate, h, false_and, or_false]

theorem firstDate_due (h : l % 86400 = c.second) : c.firstDate l .included = ⟨l / 86400⟩ ∧
    c.firstDate l .excluded = (⟨l / 86400⟩ : Date).plusDays 1 := by
  simp only [firstDate, plusDays, h, Int.lt_irrefl, reduceCtorEq, and_false, or_self, and_self,
    or_true, if_true, if_false, Int.add_zero]

end ClockTime

/-- The instant lies in the minute of the time of the rule. -/
def CalendarRule.IsDue (r : CalendarRule) (z : Zone) (t : Instant) : Prop :=
  (z.timeAt t).clockTime = r.time

theorem CalendarRule.isDue_iff {r : CalendarRule} :
    r.IsDue z t ↔ (z.localSecond t.second - z.localSecond t.second % 60) % 86400 = r.time.second := by
  have hsecond := z.timeAt_second t
  simp only [IsDue, ClockTime.ext_iff, TimeOfDay.clockTime, ClockTime.second]
  omega

namespace CalendarMove

variable {r : CalendarRule}

/-- Both searches give the same instant unless they begin on different dates. -/
theorem eq_of_not_due (h₀ : CalendarMove r z t .included e₀ u) (h₁ : CalendarMove r z t .excluded e₁ v)
    (hdue : ¬ r.IsDue z t) : u = v := by
  have hsearch := h₀.search
  rw [ClockTime.firstDate_bounds_eq (mt CalendarRule.isDue_iff.2 hdue), h₁.search,
    Except.ok.injEq] at hsearch
  subst hsearch
  exact Instant.ext (h₀.second.trans h₁.second.symm) (h₀.nano.trans h₁.nano.symm)

theorem searches_of_due (h₀ : CalendarMove r z t .included e₀ u)
    (h₁ : CalendarMove r z t .excluded e₁ v) (hdue : r.IsDue z t) :
    firstAccepted r.filter (z.dateAt t) = .ok e₀ ∧
      firstAccepted r.filter ((z.dateAt t).plusDays 1) = .ok e₁ := by
  have hfirst := ClockTime.firstDate_due (CalendarRule.isDue_iff.1 hdue)
  have hdate : (⟨(z.localSecond t.second - z.localSecond t.second % 60) / 86400⟩ : Date) = z.dateAt t :=
    Date.ext (by simp only [Zone.dateAt]; omega)
  rw [hdate] at hfirst
  exact ⟨hfirst.1 ▸ h₀.search, hfirst.2 ▸ h₁.search⟩

/-- Counting the position, a rule that is due on an accepted date goes to the start of the minute. -/
theorem le_of_eq_dateAt (h : CalendarMove r z t .included e₀ u) (hs : z.Spaced)
    (hsteady : z.SteadyMinute t.second) (hdue : r.IsDue z t) (he : e₀ = z.dateAt t) :
    u.second ≤ t.second := by
  have hlocal := z.localSecond_eq t
  have hdue := CalendarRule.isDue_iff.1 hdue
  have hself := hs.resolveSecond_self (l := 86400 * e₀.dayNumber + r.time.second)
    (a := t.second - z.localSecond t.second % 60) (by
      rw [hsteady.localSecond, he]
      simp only [Zone.dateAt]
      omega)
  rw [h.second, ← Zone.resolveSecond_congr hsteady, hself]
  omega

end CalendarMove

/-! ## Which one ends first -/

/-- The search that counts the position outruns the other one. -/
def Schedule.Overtakes (s : Schedule) (z : Zone) (t : Instant) : Prop :=
  ∃ r, s = .calendar r ∧ r.IsDue z t ∧ Outruns r.filter (z.dateAt t)

/-- Searches begin on different dates, at least one of which is off course. -/
def Schedule.StartsOffCourse (s : Schedule) (z : Zone) (t : Instant) : Prop :=
  ∃ r, s = .calendar r ∧ r.IsDue z t ∧
    (OffCourse r.filter (z.dateAt t) ∨ OffCourse r.filter ((z.dateAt t).plusDays 1))

/-- The time of a rule on two dates resolves in the order of the dates. -/
theorem Zone.Spaced.resolveSecond_dates (hs : z.Spaced) {n : Int} (hn : 0 ≤ n ∧ n ≤ 86400)
    (hj : ∀ T, z.jumpAt T ≤ n) (a : Int) (c : ClockTime) (hle : d ≤ e) :
    z.resolveSecond a (86400 * d.dayNumber + c.second) +
        (86400 - n) * (e.dayNumber - d.dayNumber).toNat ≤
      z.resolveSecond a (86400 * e.dayNumber + c.second) := by
  rw [le_def] at hle
  have hdays := hs.resolveSecond_days hn hj a (86400 * d.dayNumber + c.second)
    (e.dayNumber - d.dayNumber).toNat
  rwa [show 86400 * d.dayNumber + c.second + 86400 * ((e.dayNumber - d.dayNumber).toNat : Int) =
    86400 * e.dayNumber + c.second by omega] at hdays

theorem CalendarRule.nextOrSame_le_next (r : CalendarRule) (hw : z.WholeMinutes) (hs : z.Spaced)
    (ht : z.Mild t) : ∃ u v, r.next z t .included = .ok u ∧ r.next z t .excluded = .ok v ∧
      (¬ (Schedule.calendar r).StartsOffCourse z t → u ≤ v) ∧
      ((∀ T, z.jumpAt T ≤ 86400) → ¬ (Schedule.calendar r).Overtakes z t → u ≤ v) ∧
      ((∀ T, z.jumpAt T < 86400) → (Schedule.calendar r).Overtakes z t → v < u) := by
  have hsteady := hw.aligned.steadyMinute t.second
  obtain ⟨e₀, u, hu, h₀⟩ := r.next_move hsteady ht .included
  obtain ⟨e₁, v, hv, h₁⟩ := r.next_move hsteady ht .excluded
  refine ⟨u, v, hu, hv, ?_⟩
  rw [Instant.le_iff_second h₀.nano, Instant.lt_iff_second h₀.nano]
  by_cases hdue : r.IsDue z t
  · obtain ⟨hfirst₀, hfirst₁⟩ := h₀.searches_of_due h₁ hdue
    have hiff := firstAccepted_le_iff r.occurs ⟨by have := ht.1; omega, ht.2⟩ hfirst₀ hfirst₁
    have hcase := firstAccepted_eq_or_eq r.occurs ⟨by have := ht.1; omega, ht.2⟩ hfirst₀ hfirst₁
    have hlater := hs.lt_resolveSecond h₁.lt_of_excluded
    rw [← h₁.second] at hlater
    refine ⟨fun hcourse => ?_, fun hj hover => ?_, fun hj hover => ?_⟩
    · rcases hcase (fun h => hcourse ⟨r, rfl, hdue, .inl h⟩) (fun h => hcourse ⟨r, rfl, hdue, .inr h⟩)
        with he | rfl
      · have := h₀.le_of_eq_dateAt hs hsteady hdue he
        omega
      · rw [h₀.second, h₁.second]
    · have hle := hiff.2 fun h => hover ⟨r, rfl, hdue, h⟩
      have := hs.resolveSecond_dates (n := 86400) (by decide) hj t.second r.time hle
      rw [h₀.second, h₁.second]
      omega
    · obtain ⟨r', ⟨⟩, -, hout⟩ := hover
      have hlt : ¬ e₀ ≤ e₁ := fun h => hiff.1 h hout
      rw [le_def] at hlt
      have := hs.resolveSecond_dates (n := 86399) (by decide) (fun T => by have := hj T; omega)
        t.second r.time (d := e₁) (e := e₀) (by rw [le_def]; omega)
      rw [h₀.second, h₁.second]
      omega
  · obtain rfl := h₀.eq_of_not_due h₁ hdue
    refine ⟨fun _ => Int.le_refl _, fun _ _ => Int.le_refl _, fun _ hover => ?_⟩
    obtain ⟨r', ⟨⟩, hdue', -⟩ := hover
    exact absurd hdue' hdue

theorem IntervalRule.nextOrSame_le_next (r : IntervalRule) (hw : z.WholeMinutes) (ht : z.Mild t) :
    ∃ u v, r.next z t .included = .ok u ∧ r.next z t .excluded = .ok v ∧ u ≤ v := by
  rcases r.free_or_grid with hfree | ⟨g, hg⟩
  · obtain ⟨u, hu, -⟩ := next_free hfree ht .included
    have hv : r.next z t .excluded = .ok u := by rw [← hu, next_of_free hfree, next_of_free hfree]
    exact ⟨u, u, hu, hv, .inr ⟨rfl, Nat.le_refl _⟩⟩
  · obtain ⟨u, hu, hn, -, h₀⟩ := next_grid hw.aligned hg ht .included
    obtain ⟨v, hv, -, -, h₁⟩ := next_grid hw.aligned hg ht .excluded
    refine ⟨u, v, hu, hv, (Instant.le_iff_second hn).2 ?_⟩
    have hpos := g.ahead_pos (z.localSecond t.second)
    generalize u.second = x at *
    generalize v.second = y at *
    cases h₀ with
    | first done =>
      cases h₁ with
      | first => exact Int.le_refl _
      | along more => exact absurd more done
    | stay more =>
      cases h₁ with
      | first done => exact absurd more done
      | along => omega
    | along more =>
      cases h₁ with
      | first done => exact absurd more done
      | along => exact Int.le_refl _

namespace Schedule

/-- The occurrence from an instant on does not come after the one that follows the instant if both
searches are on course, and in zones that never jump by more than a day unless the first search
outruns the second one. Then it comes after it. -/
theorem nextOrSame_le_next_iff (s : Schedule) (hw : z.WholeMinutes) (hs : z.Spaced) (ht : z.Mild t) :
    ∃ u v, s.nextOrSame z t = .ok u ∧ s.next z t = .ok v ∧
      (¬ s.StartsOffCourse z t → u ≤ v) ∧
      ((∀ T, z.jumpAt T ≤ 86400) → ¬ s.Overtakes z t → u ≤ v) ∧
      ((∀ T, z.jumpAt T < 86400) → s.Overtakes z t → v < u) := by
  cases s with
  | calendar r => exact r.nextOrSame_le_next hw hs ht
  | interval r =>
    obtain ⟨u, v, hu, hv, hle⟩ := r.nextOrSame_le_next hw ht
    refine ⟨u, v, hu, hv, fun _ => hle, fun _ _ => hle, ?_⟩
    rintro - ⟨r', ⟨⟩, -⟩

/-- Sunday 2026-06-07, 09:00 UTC. -/
def sunday : Instant := (Instant.of? 1780822800 0).get (by decide)

/-- The Monday of that week has passed, so the search for second Mondays and Sundays goes on from the
Sunday, to Sunday 2026-06-14. That from the day after stops there, on Monday 2026-06-08. -/
theorem secondSunday_overtakes : ∃ s, Schedule.nthWeekday ((TimeOfDay.ofClock? 9 0 0 0).get (by decide))
      [2] [0, 6] (List.range' 1 12) = .ok s ∧
    CalendarRule.utc.WholeMinutes ∧ CalendarRule.utc.Spaced ∧ CalendarRule.utc.Mild sunday ∧
    ∃ u v, s.nextOrSame CalendarRule.utc sunday = .ok u ∧ s.next CalendarRule.utc sunday = .ok v ∧
      v < u := by
  obtain ⟨r, made, hdays, hweeks, hweekdays, hmonths, htime⟩ : ∃ r, Schedule.nthWeekday
      ((TimeOfDay.ofClock? 9 0 0 0).get (by decide)) [2] [0, 6] (List.range' 1 12) = .ok (.calendar r) ∧
      ¬ r.filter.days.Restricts ∧ r.filter.weeks.members = [2] ∧ r.filter.weekdays.members = [0, 6] ∧
      ¬ r.filter.months.Restricts ∧ r.time.minuteOfDay = 540 :=
    ⟨_, rfl, by decide, rfl, rfl, by decide, rfl⟩
  have hw : CalendarRule.utc.WholeMinutes := by decide
  have hs : CalendarRule.utc.Spaced := by decide
  have hm : CalendarRule.utc.Mild sunday := by decide
  have hj (T : Int) : CalendarRule.utc.jumpAt T < 86400 := by
    have := Zone.jumpAt_le (z := CalendarRule.utc) (n := 0) (by decide) T
    omega
  have hmonth := month_mem_of_not_restricts hmonths
  have hweek (n : Nat) : n ∈ r.filter.weeks ↔ n = 2 := by rw [Selection.mem_def, hweeks, List.mem_singleton]
  have hweekday : 0 ∈ r.filter.weekdays ∧ 6 ∈ r.filter.weekdays := by
    simp only [Selection.mem_def, hweekdays, List.mem_cons, true_or, or_true, and_self]
  have hoff : OffCourse r.filter ⟨20611⟩ := {
    month_mem := hmonth _
    week_not_mem := (hweek _).not.2 (by decide)
    later_week := ⟨2, (hweek 2).2 rfl, by decide⟩
    has_passed := ⟨⟨20605⟩, by decide, by decide, by decide, hweekday.1⟩
    is_ahead := ⟨⟨20611⟩, by decide, rfl, rfl, hweekday.2⟩ }
  have hlast : NoneLeft r.filter ⟨20611⟩ := by
    intro e hlt hi hwk
    have he := weekOfMonth_eq e
    have hd := weekOfMonth_eq ⟨20611⟩
    have hday : (⟨20611⟩ : Date).day = 7 := by decide
    have hbegin := day_eq ⟨20611⟩
    rw [hi] at he
    rw [lt_def] at hlt
    omega
  have hover : (Schedule.calendar r).Overtakes CalendarRule.utc sunday :=
    ⟨r, rfl, ClockTime.ext htime.symm, ⟨hoff, fun e _ _ => hmonth e⟩, hlast⟩
  obtain ⟨u, v, hu, hv, -, -, hlt⟩ := nextOrSame_le_next_iff (.calendar r) hw hs hm
  exact ⟨_, made, hw, hs, hm, u, v, hu, hv, hlt hj hover⟩

end Schedule

end Recurrence
