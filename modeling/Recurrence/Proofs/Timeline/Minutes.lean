import Recurrence.Proofs.DateSearch.Parts
import Recurrence.Proofs.Timeline.Resolution
/-!
# Local dates and minutes of instants

A search works with the local date of an instant, the time of day on it, and the minute that the
instant lies in. Away from the ends of the range, all of these exist, and the wall-clock time of a
date resolves to an instant (`resolve_of_date`). Where local minutes are aligned, the offset does not
change between the start of a local minute and its other seconds (`SteadyMinute`), so that the start is
what the wall clock shows at the beginning of the minute (`BeginsMinute`).
-/

namespace Recurrence

open Date

/-! ## Moving along the line of instants -/

namespace Instant

variable {t w : Instant} {n : Int}

theorem lt_iff_second (hw : w.nano = 0) : t < w ↔ t.second < w.second := by
  show _ ∨ _ ∧ _ ↔ _
  omega

theorem le_iff_second (ht : t.nano = 0) : t ≤ w ↔ t.second ≤ w.second := by
  show _ ∨ _ ∧ _ ↔ _
  omega

theorem plus_zero (t : Instant) : t.plus 0 = .ok t := if_pos rfl

theorem plus_of_pos (hn : 0 < n) (h : t.second + n ≤ lastSecond) :
    ∃ v, t.plus n = .ok v ∧ v.second = t.second + n ∧ v.nano = t.nano % 1000000000 := by
  have := t.first_le
  rw [plus, if_neg (by omega), if_neg (by omega)]
  exact Zone.ofSecond_ok (by omega) (by omega)

/-- Going back, a leap second counts as the second that follows it. -/
theorem plus_of_neg (hn : n < 0) (h : firstSecond ≤ t.second + n) :
    ∃ v, t.plus n = .ok v ∧ v.second = t.second + n + (if t.IsLeap then 1 else 0) ∧
      v.nano = t.nano % 1000000000 := by
  have := t.le_last
  rw [plus, if_neg (by omega)]
  by_cases hl : t.IsLeap
  · obtain ⟨v, hv, hs, hnano⟩ := Zone.ofSecond_ok (n := t.nano % 1000000000) (u := t.second + 1 + n)
      (by omega) (by omega)
    rw [if_pos ⟨hl, hn⟩, if_pos hl]
    exact ⟨v, hv, by omega, hnano⟩
  · obtain ⟨v, hv, hs, hnano⟩ := Zone.ofSecond_ok (n := t.nano % 1000000000) (u := t.second + n)
      (by omega) (by omega)
    rw [if_neg fun h => hl h.1, if_neg hl]
    exact ⟨v, hv, by omega, hnano⟩

end Instant

/-- The time of day is the start of the minute that `other` lies in. -/
def TimeOfDay.StartsMinuteOf (time other : TimeOfDay) : Prop :=
  time.hour = other.hour ∧ time.minute = other.minute ∧ time.secondOfMinute = 0 ∧ time.nano = 0

theorem TimeOfDay.startsMinuteOf_iff {time other : TimeOfDay} :
    time.StartsMinuteOf other ↔ time = other.clockTime.timeOfDay := by
  simp only [StartsMinuteOf, hour, minute, secondOfMinute, TimeOfDay.ext_iff, clockTime,
    ClockTime.timeOfDay, ClockTime.second]
  omega

namespace Zone

variable {z : Zone} {t m : Instant} {u c : Int}

/-- The local date of the instant is mild. -/
def Mild (z : Zone) (t : Instant) : Prop := (z.dateAt t).Mild

instance (z : Zone) (t : Instant) : Decidable (z.Mild t) := inferInstanceAs (Decidable (Date.Mild _))

theorem localSecond_eq (z : Zone) (t : Instant) :
    z.localSecond t.second = 86400 * (z.dateAt t).dayNumber + (z.timeAt t).second := by
  simp only [dateAt, timeAt]; omega

theorem timeAt_second (z : Zone) (t : Instant) :
    ((z.timeAt t).second : Int) = z.localSecond t.second % 86400 := by
  simp only [timeAt]; omega

/-- An instant on a mild date is more than a hundred years away from either end of the range. -/
theorem Mild.bounds (h : z.Mild t) :
    firstSecond + 86400 * 40000 ≤ t.second ∧ t.second + 86400 * 40000 ≤ lastSecond := by
  obtain ⟨hlo, hhi⟩ := Date.year_bounds_iff.1 h
  have hfirst : first.dayNumber + 50000 ≤ monthBegin (12 * -262000) := by decide
  have hlast : monthBegin (12 * (262000 + 1)) + 50000 ≤ last.dayNumber := by decide
  have hn := localSecond_near z t.second
  have hl := localSecond_eq z t
  have := (z.timeAt t).second_lt
  simp only [firstSecond, lastSecond]; omega

theorem Mild.roomy (h : z.Mild t) : DateSearch.Roomy (z.dateAt t) :=
  ⟨by have := h.1; omega, by have := h.2; omega⟩

/-- The local date of the instant is three years away from either end of the range. A search from a
mild date ends on such a date. -/
def Inner (z : Zone) (t : Instant) : Prop :=
  -262140 ≤ (z.dateAt t).year ∧ (z.dateAt t).year ≤ 262138

theorem Mild.inner (h : z.Mild t) : z.Inner t :=
  ⟨by have := h.1; omega, by have := h.2; omega⟩

theorem Inner.bounds (h : z.Inner t) :
    firstSecond + 86400 * 1000 ≤ t.second ∧ t.second + 86400 * 1000 ≤ lastSecond := by
  obtain ⟨hlo, hhi⟩ := Date.year_bounds_iff.1 h
  have hfirst : first.dayNumber + 1010 ≤ monthBegin (12 * -262140) := by decide
  have hlast : monthBegin (12 * (262138 + 1)) + 1010 ≤ last.dayNumber := by decide
  have hn := localSecond_near z t.second
  have hl := localSecond_eq z t
  have := (z.timeAt t).second_lt
  simp only [firstSecond, lastSecond]; omega

theorem Inner.roomy (h : z.Inner t) : DateSearch.Roomy (z.dateAt t) :=
  ⟨by have := h.1; omega, by have := h.2; omega⟩

theorem dateInRangeAt_eq (h : DateSearch.Roomy (z.dateAt t)) : z.dateInRangeAt t = .ok (z.dateAt t) := by
  rw [dateInRangeAt, if_pos]
  exact inRange_iff.2 ⟨h.1, by have := h.2; omega⟩

/-! ## A date and a time of day as an instant -/

theorem resolvable_of_date {d : Date} (h : -262142 ≤ d.year ∧ d.year ≤ 262141) (time : ClockTime) :
    Resolvable (WallTime.of d time).second := by
  obtain ⟨hlo, hhi⟩ := Date.year_bounds_iff.1 h
  have hfirst : first.dayNumber + 300 ≤ monthBegin (12 * -262142) := by decide
  have hlast : monthBegin (12 * (262141 + 1)) + 300 ≤ last.dayNumber := by decide
  have := time.minuteOfDay_lt
  simp only [Resolvable, WallTime.of, ClockTime.second, firstSecond, lastSecond]; omega

/-- A wall-clock time on a date resolves to an instant at the start of a second. -/
theorem resolve_of_date {d : Date} (h : -262142 ≤ d.year ∧ d.year ≤ 262141) (time : ClockTime)
    (anchor : Instant) : ∃ v, z.resolve anchor (.of d time) = .ok v ∧
      v.second = z.resolveSecond anchor.second (86400 * d.dayNumber + time.second) ∧ v.nano = 0 :=
  resolve_ok anchor (resolvable_of_date h time)

/-! ## The start of the local minute -/

theorem startOfMinute_ok (h : firstSecond + 60 ≤ t.second) : ∃ m, z.startOfMinute t = .ok m ∧
    m.second = t.second - z.localSecond t.second % 60 ∧ m.nano = 0 :=
  ofSecond_ok (by decide) (by have := t.le_last; omega)

theorem eq_of_startOfMinute (h : z.startOfMinute t = .ok m) :
    m.second = t.second - z.localSecond t.second % 60 ∧ m.nano = 0 :=
  eq_of_ofSecond h

theorem startOfMinute_le (h : z.startOfMinute t = .ok m) : m ≤ t := by
  have hm := eq_of_startOfMinute h
  exact (Instant.le_iff_second hm.2).2 (by omega)

/-- The offset at the start of the local minute of a UTC second is the one at that second. -/
def SteadyMinute (z : Zone) (u : Int) : Prop := z.offsetAt (u - z.localSecond u % 60) = z.offsetAt u

theorem SteadyMinute.localSecond (h : z.SteadyMinute u) :
    z.localSecond (u - z.localSecond u % 60) = z.localSecond u - z.localSecond u % 60 := by
  conv => lhs; rw [Zone.localSecond, h]
  unfold Zone.localSecond
  omega

/-- The start of the local minute of an instant on a mild date. -/
theorem SteadyMinute.startOfMinute (hu : z.SteadyMinute t.second) (h : z.Mild t) :
    ∃ m, z.startOfMinute t = .ok m ∧ m.second = t.second - z.localSecond t.second % 60 ∧ m.nano = 0 ∧
      z.localSecond m.second = z.localSecond t.second - z.localSecond t.second % 60 ∧
      z.dateAt m = z.dateAt t := by
  obtain ⟨m, hm, hs, hn⟩ := startOfMinute_ok (z := z) (t := t) (by have := h.bounds; omega)
  have hl := hu.localSecond
  rw [← hs] at hl
  refine ⟨m, hm, hs, hn, hl, Date.ext ?_⟩
  simp only [dateAt, hl]; omega

theorem AlignedMinutes.steadyMinute (h : z.AlignedMinutes c) (u : Int) : z.SteadyMinute u := by
  rw [SteadyMinute, h.localSecond_mod u]
  exact h.offsetAt_eq (by omega)

/-- The wall clock shows at `m` the start of the minute that it shows at `t`, on the same date. -/
def BeginsMinute (z : Zone) (t m : Instant) : Prop :=
  z.dateAt m = z.dateAt t ∧ (z.timeAt m).StartsMinuteOf (z.timeAt t)

theorem beginsMinute_iff : z.BeginsMinute t m ↔
    z.localSecond m.second = z.localSecond t.second - z.localSecond t.second % 60 ∧ m.nano = 0 := by
  have hmsecond := z.timeAt_second m
  have htsecond := z.timeAt_second t
  have hnano : (z.timeAt m).nano = m.nano := rfl
  simp only [BeginsMinute, TimeOfDay.startsMinuteOf_iff, TimeOfDay.ext_iff, Date.ext_iff, dateAt,
    TimeOfDay.clockTime, ClockTime.timeOfDay, ClockTime.second]
  omega

theorem SteadyMinute.beginsMinute (h : z.SteadyMinute t.second) (hm : z.startOfMinute t = .ok m) :
    z.BeginsMinute t m := by
  obtain ⟨hs, hn⟩ := eq_of_startOfMinute hm
  rw [beginsMinute_iff, hs]
  exact ⟨h.localSecond, hn⟩

/-- An instant that begins a local minute is its own start. -/
theorem startOfMinute_self (hl : z.localSecond t.second % 60 = 0) (hn : t.nano = 0) :
    z.startOfMinute t = .ok t := by
  rw [startOfMinute, hl, Int.sub_zero, Instant.ofSecond, dif_pos ⟨t.first_le, t.le_last⟩]
  exact congrArg Except.ok (Instant.ext rfl hn.symm)

/-- The wall-clock time of a whole minute resolves to the start of a local minute. -/
theorem AlignedMinutes.resolveSecond_mod (h : z.AlignedMinutes c) {a l : Int} (hl : l % 60 = 0) :
    z.localSecond (z.resolveSecond a l) % 60 = 0 := by
  have skipped (u : Int) : z.localSecond (l - (z.offsetAt u).seconds) % 60 = 0 := by
    have := h.1 _ (offsetAt_mem z u)
    rw [h.localSecond_mod]; omega
  by_cases hshown : ∃ v, z.localSecond v = l
  · obtain ⟨v, hv⟩ := hshown
    rw [localSecond_resolveSecond hv, hl]
  · have hr := locate_spec z l
    unfold resolveSecond
    generalize z.locate l = r at hr ⊢
    cases hr with
    | skipped none =>
      simp only
      split
      · exact skipped _
      · exact skipped _
    | once u shown only => exact absurd ⟨u, shown⟩ hshown
    | repeated c d lt first last between => exact absurd ⟨c, first⟩ hshown

end Zone

end Recurrence
