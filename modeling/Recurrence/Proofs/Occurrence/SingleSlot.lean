import Recurrence.Proofs.Occurrence.Moves
import Recurrence.Proofs.Schedule.Making
/-!
# A window of one slot is a daily schedule

A grid that stops where it starts has one slot on each date, and no further slot ever fits, however
short the step is. So a search goes to the slot of the date on which it is still to come
(`SlotGrid.nextSlot_single`), and so does a search for a time on every day. In a zone of whole minutes,
what one of them cuts down to the minute before the search and the other one after it makes no
difference, and neither does the anchor (`Schedule.everyBetween_self_next`).
-/

namespace Recurrence

open Date DateSearch

variable {z : Zone} {t start v : Instant} {w : WallTime} {bound : StartBound}

/-! ## Whole minutes -/

namespace Zone

/-- Of the anchor, only the offset counts. -/
theorem resolve_congr (h : z.offsetAt t.second = z.offsetAt start.second) (w : WallTime) :
    z.resolve t w = z.resolve start w := by
  unfold resolve resolveSkipped
  rw [h]

section WholeMinutes

variable (hz : z.WholeMinutes)
include hz

theorem localSecond_wholeMinute {u : Int} (hu : u % 60 = 0) : z.localSecond u % 60 = 0 := by
  rw [hz.aligned.localSecond_mod]
  omega

theorem resolveSkipped_wholeMinute (hw : w.second % 60 = 0) (h : z.resolveSkipped t w = .ok v) :
    z.localSecond v.second % 60 = 0 ∧ v.nano = w.nano := by
  have shifted (u : Int) : (w.second - (z.offsetAt u).seconds) % 60 = 0 := by
    have ho := hz.1 _ (offsetAt_mem z u)
    omega
  simp only [resolveSkipped] at h
  split at h
  · cases h
  · obtain ⟨hs, hn⟩ := eq_of_ofSecond h
    refine ⟨localSecond_wholeMinute hz ?_, hn⟩
    rw [hs]
    split
    · exact shifted _
    · exact shifted _

/-- A whole minute of wall-clock time resolves to the start of a local minute, also where a reading lies
outside the range. -/
theorem resolve_wholeMinute (hw : w.second % 60 = 0) (h : z.resolve t w = .ok v) :
    z.localSecond v.second % 60 = 0 ∧ v.nano = w.nano := by
  have reading {u : Int} {x : Instant} (hu : z.localSecond u = w.second)
      (hx : Instant.ofSecond u w.nano w.nano_lt = .ok x) :
      z.localSecond x.second % 60 = 0 ∧ x.nano = w.nano := by
    obtain ⟨hs, hn⟩ := eq_of_ofSecond hx
    rw [hs, hu]
    exact ⟨hw, hn⟩
  have hr := locate_spec z w.second
  unfold resolve at h
  generalize z.locate w.second = r at h hr
  cases hr with
  | skipped none => exact resolveSkipped_wholeMinute hz hw h
  | once u shown only =>
    simp only at h
    split at h
    · next x hx =>
      cases h
      exact reading shown hx
    · exact resolveSkipped_wholeMinute hz hw h
  | repeated a b lt first last between =>
    simp only at h
    split at h
    · next x y hx hy =>
      cases h
      split
      · exact reading last hy
      · exact reading first hx
    · exact resolveSkipped_wholeMinute hz hw h

/-- The local minute of an instant begins within the range, on the same date, with the same offset. -/
theorem startOfMinute_wholeMinute (t : Instant) : ∃ m, z.startOfMinute t = .ok m ∧ m.nano = 0 ∧
    z.localSecond m.second = z.localSecond t.second - z.localSecond t.second % 60 ∧
    z.offsetAt m.second = z.offsetAt t.second := by
  have hfirst : firstSecond % 60 = 0 := by decide
  have hlo := t.first_le
  have hhi := t.le_last
  have hmod := hz.aligned.localSecond_mod t.second
  have hoffset : z.offsetAt (t.second - z.localSecond t.second % 60) = z.offsetAt t.second :=
    hz.aligned.steadyMinute t.second
  have hl := (hz.aligned.steadyMinute t.second).localSecond
  obtain ⟨m, hm, hs, hn⟩ := ofSecond_ok (u := t.second - z.localSecond t.second % 60) (n := 0)
    (by decide) (by omega)
  rw [← hs] at hoffset hl
  exact ⟨m, hm, hn, hl, hoffset⟩

end WholeMinutes

end Zone

/-! ## The search for a single slot -/

theorem SlotGrid.nextSlot_single {g : SlotGrid} (hsingle : g.stop = g.start.second)
    (hin : (z.dateAt t).InRange) : g.nextSlot z t bound =
      if (g.start.firstDate (z.localSecond t.second) .excluded).InRange then
        z.resolve t (.of (g.start.firstDate (z.localSecond t.second) .excluded) g.start)
      else .error .dateOutOfRange := by
  have hnow := z.timeAt_lt t g.start
  have hsecond := z.timeAt_second t
  unfold nextSlot
  simp only [bind, Except.bind, Zone.dateInRangeAt, if_pos hin]
  by_cases hlt : z.timeAt t < g.start.timeOfDay
  · have htoday : g.start.firstDate (z.localSecond t.second) .excluded = z.dateAt t := by
      rw [ClockTime.firstDate, if_pos (.inl (hnow.1 hlt)), Int.add_zero]
      rfl
    rw [if_pos hlt, htoday, if_pos hin]
  · have hpast := Nat.mod_lt ((z.timeAt t).second - g.start.second) g.step_pos
    have hbegun := mt hnow.2 hlt
    have htomorrow : g.start.firstDate (z.localSecond t.second) .excluded = (z.dateAt t).plusDays 1 := by
      rw [ClockTime.firstDate, if_neg (by simpa using hbegun)]
      rfl
    rw [if_neg hlt, if_pos (by omega), htomorrow]
    by_cases hnext : ((z.dateAt t).plusDays 1).InRange
    · simp only [Date.advance, Int.natCast_one, if_pos hnext]
    · simp only [Date.advance, Int.natCast_one, if_neg hnext]

/-- A search for a date stays on any date if all of them count. -/
theorem DateSearch.firstAccepted_everyDay (d : Date) :
    firstAccepted (.everyDay DateFilter.allMonths) d = .ok d := by
  have hnarrow : narrow (.everyDay DateFilter.allMonths) d = .ok d := by
    simp only [narrow, DateFilter.everyDay, DateFilter.monthly, DateFilter.allMonths,
      DateFilter.allDays, DateFilter.allWeekdays, DateFilter.allWeeks, Selection.not_restricts_full,
      if_false]
    rfl
  rw [firstAccepted, maxRounds, settle, hnarrow]
  exact if_pos rfl

/-! ## Two schedules for one time of day -/

namespace Schedule

variable {s d : Schedule} {time : TimeOfDay} {length : Nat} {unit : TimeUnit}

/-- The grid of a window that stops where it starts. -/
theorem everyBetween_self_eq_ok (h : everyBetween time time length unit = .ok s) :
    ∃ r g, s = .interval r ∧ SlotGrid.IsOf g r ∧ g.start = time.clockTime ∧ g.stop = g.start.second := by
  simp only [everyBetween, bind_eq_ok_iff] at h
  obtain ⟨pattern, hwithin, r, hr, ⟨⟩⟩ := h
  have hordered : time.clockTime ≤ time.clockTime := Nat.le_refl _
  obtain rfl : Pattern.between time.clockTime time.clockTime hordered = pattern :=
    Except.ok.inj ((dif_pos hordered).symm.trans hwithin)
  obtain ⟨-, -, hpattern⟩ := IntervalRule.of_eq_ok hr
  exact ⟨r, ⟨time.clockTime, time.clockTime.second, r.step, r.step_pos⟩, rfl,
    ⟨hpattern ▸ .between _ _ hordered, rfl⟩, rfl, rfl⟩

theorem daily_ok (time : TimeOfDay) : ∃ d, daily time = .ok d := by
  have hoccurs : (DateFilter.everyDay DateFilter.allMonths).Occurs := by decide +kernel
  exact ⟨.calendar ⟨_, time.clockTime, hoccurs⟩, by rw [daily, CalendarRule.of, dif_pos hoccurs]; rfl⟩

/-- A window that begins and ends at the same time, with steps of any accepted length, goes from every
instant to where a daily schedule at that time goes, and fails exactly where it fails. -/
theorem everyBetween_self_next (made : everyBetween time time length unit = .ok s) :
    ∃ d, daily time = .ok d ∧ ∀ z t, z.WholeMinutes → s.next z t = d.next z t := by
  obtain ⟨r, g, rfl, hg, hstart, hsingle⟩ := everyBetween_self_eq_ok made
  obtain ⟨d, hd⟩ := daily_ok time
  obtain ⟨rule, rfl, hday, htime⟩ := daily_eq_ok hd
  refine ⟨_, hd, fun z t hz => ?_⟩
  obtain ⟨m, hm, hmn, hml, hoffset⟩ := Zone.startOfMinute_wholeMinute hz t
  have hdate : z.dateAt m = z.dateAt t := Date.ext (by simp only [Zone.dateAt, hml]; omega)
  show r.next z t .excluded = rule.next z t .excluded
  by_cases hin : (z.dateAt t).InRange
  · have hsame : rule.time.firstDate (z.localSecond m.second) .excluded =
        g.start.firstDate (z.localSecond t.second) .excluded := by
      rw [hml, ClockTime.firstDate_excluded_minute, htime, hstart]
    rw [CalendarRule.next_eq_search hm hmn (hdate ▸ hin), hsame, hday]
    rw [IntervalRule.next_of_grid hg, SlotGrid.nextSlot_single hsingle hin, firstAccepted_everyDay]
    by_cases hnext : (g.start.firstDate (z.localSecond t.second) .excluded).InRange
    · simp only [if_pos hnext, Except.bind, htime, ← hstart, Zone.resolve_congr hoffset]
      cases hv : z.resolve t (.of (g.start.firstDate (z.localSecond t.second) .excluded) g.start) with
      | error e => rfl
      | ok v =>
        have hmod := g.start.second_mod
        obtain ⟨hl, hn⟩ := Zone.resolve_wholeMinute hz (by simp only [WallTime.of]; omega) hv
        exact Zone.startOfMinute_self hl hn
    · simp only [if_neg hnext]
      rfl
  · rw [IntervalRule.next_of_grid hg]
    simp only [CalendarRule.next, SlotGrid.nextSlot, hm, bind, Except.bind, Zone.dateInRangeAt, hdate,
      if_neg hin]

/-- Within a leap second before 2026-03-29, 02:00 on the wall clock, when it jumps forward by an hour. -/
def leapBeforeJump : Instant := (Instant.of? 1774745999 1500000000).get (by decide)

/-- Of a window of one slot at 02:30, which is skipped, with steps of seven hours. -/
theorem skippedSlot_same_next : ∃ s, everyBetween ⟨9000, 0, by decide, by decide⟩
      ⟨9000, 0, by decide, by decide⟩ 7 .hours = .ok s ∧ Zone.summerTime.WholeMinutes ∧
    ∃ d, daily ⟨9000, 0, by decide, by decide⟩ = .ok d ∧
      s.next .summerTime leapBeforeJump = d.next .summerTime leapBeforeJump ∧
      ∃ v, s.next .summerTime leapBeforeJump = .ok v ∧ v.second = 1774747800 := by
  obtain ⟨s, hs⟩ : ∃ s, everyBetween ⟨9000, 0, by decide, by decide⟩
      ⟨9000, 0, by decide, by decide⟩ 7 .hours = .ok s := ⟨_, rfl⟩
  have hz : Zone.summerTime.WholeMinutes := by decide
  obtain ⟨d, hd, hsame⟩ := everyBetween_self_next hs
  have hnext : ∃ v, s.next .summerTime leapBeforeJump = .ok v ∧ v.second = 1774747800 := by
    cases hs
    exact ⟨_, rfl, rfl⟩
  exact ⟨s, hs, hz, d, hd, hsame _ _ hz, hnext⟩

end Schedule

end Recurrence
