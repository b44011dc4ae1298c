import Recurrence.Proofs.Occurrence.Ascent
/-!
# A calendar rule visits every accepted date

Once a cursor stands on an occurrence, it goes through the accepted dates one by one, and misses and
repeats none (`CalendarRule.run_visits`). The date search cannot overshoot then, since it begins on
the date after an accepted one: either in the same week of the month, which is selected, or on the
first day of a week, in which no weekday has passed. An occurrence that is shifted past a jump, even
past midnight, is less than a day late, so that the search still begins on that date.
-/

namespace Recurrence

open Date DateSearch

theorem DateSearch.not_offCourse_after {f : DateFilter} {d : Date} (h : f.Accepts d) :
    ¬ OffCourse f (d.plusDays 1) := by
  intro hoff
  obtain ⟨e, he, hi, hw, -⟩ := hoff.has_passed
  have hed : e ≤ d := by rw [lt_def, dayNumber_plusDays] at he; rw [le_def]; omega
  have hle : d ≤ d.plusDays 1 := by rw [le_def, dayNumber_plusDays]; omega
  obtain ⟨-, hweek⟩ := same_week_of_between hed hle hi.symm hw.symm
  apply hoff.week_not_mem
  rw [← hw, ← hweek]
  exact h.2.2.2

namespace CalendarRule

variable {r : CalendarRule} {z : Zone} {d d' : Date} {a v w : Instant}

/-- The instant begins a local minute, at the time of the rule on an accepted date or less than a
day later. -/
structure StandsOn (r : CalendarRule) (z : Zone) (d : Date) (v : Instant) : Prop where
  accepts : r.filter.Accepts d
  from_time : 86400 * d.dayNumber + r.time.second ≤ z.localSecond v.second
  within_day : z.localSecond v.second < 86400 * d.dayNumber + r.time.second + 86400
  minute : z.localSecond v.second % 60 = 0
  nano : v.nano = 0

/-- The answers are the occurrences on the first `n` accepted dates after `d`, each resolved from the one
before it and the first one from `v`. -/
inductive Visits (r : CalendarRule) (z : Zone) :
    Nat → Date → Instant → List (Except RollError Instant) → Prop
  | nil (d : Date) (v : Instant) : Visits r z 0 d v []
  | cons {n : Nat} {d d' : Date} {v w : Instant} {answers : List (Except RollError Instant)}
    (first : IsFirst r.filter.Accepts (d.plusDays 1) d')
    (resolved : z.resolve v (.of d' r.time) = .ok w) (rest : Visits r z n d' w answers) :
    Visits r z (n + 1) d v (.ok w :: answers)

theorem StandsOn.firstDate_eq (h : r.StandsOn z d v) :
    r.time.firstDate (z.localSecond v.second) .excluded = d.plusDays 1 := by
  have hfrom := h.from_time
  have hwithin := h.within_day
  have hlt := ClockTime.lt_firstDate (c := r.time) (l := z.localSecond v.second)
  have hle := ClockTime.firstDate_excluded_le (c := r.time) (l := z.localSecond v.second)
    (d := d.plusDays 1)
  rw [le_def, dayNumber_plusDays] at hle
  exact Date.ext (by rw [dayNumber_plusDays]; omega)

theorem StandsOn.dateAt_eq (h : r.StandsOn z d v) : z.dateAt v = d ∨ z.dateAt v = d.plusDays 1 := by
  have hfrom := h.from_time
  have hwithin := h.within_day
  have hlt := r.time.second_lt
  simp only [Date.ext_iff, Zone.dateAt, dayNumber_plusDays]
  omega

section Zone

variable (hw : z.WholeMinutes) (hs : z.Spaced) (hj : ∀ u, z.jumpAt u < 86400)
include hw hs hj

/-- The time of the rule on an accepted date, resolved from any anchor. -/
theorem resolve_standsOn (hacc : r.filter.Accepts d) (hd : -262142 ≤ d.year ∧ d.year ≤ 262141)
    (a : Instant) : ∃ v, z.resolve a (.of d r.time) = .ok v ∧ r.StandsOn z d v := by
  obtain ⟨v, hv, hsecond, hnano⟩ := Zone.resolve_of_date (z := z) hd r.time a
  have hmod := hw.aligned.resolveSecond_mod (a := a.second)
    (l := 86400 * d.dayNumber + r.time.second) (by have := r.time.second_mod; omega)
  obtain ⟨hfrom, hto⟩ := hs.resolveSecond_within (n := 86399) (by decide)
    (fun u => Int.le_of_lt_add_one (hj u)) a.second (86400 * d.dayNumber + r.time.second)
  rw [← hsecond] at hmod hfrom hto
  exact ⟨v, hv, hacc, hfrom, by omega, hmod, hnano⟩

/-- From an occurrence, the rule goes to the first accepted date after its own. -/
theorem StandsOn.next (h : r.StandsOn z d v) (hd : -262142 ≤ d.year ∧ d.year ≤ 262001) :
    ∃ d' w, IsFirst r.filter.Accepts (d.plusDays 1) d' ∧ z.resolve v (.of d' r.time) = .ok w ∧
      r.next z v .excluded = .ok w ∧ r.StandsOn z d' w ∧ d'.year ≤ d.year + 61 := by
  have hyear := year_plusDays_one d
  obtain ⟨d', hd', hfirst, hy⟩ := firstAccepted_isFirst r.occurs (not_offCourse_after h.accepts)
    (by omega)
  have hle := year_mono hfirst.le
  obtain ⟨w, hw, hstands⟩ := resolve_standsOn hw hs hj hfirst.holds (by omega) v
  refine ⟨d', w, hfirst, hw, ?_, hstands, by omega⟩
  rw [← h.firstDate_eq] at hd'
  rw [← hw]
  apply next_eq (Zone.startOfMinute_self h.minute h.nano) h.nano ?_ hd'
  rcases h.dateAt_eq with hdate | hdate
  · rw [hdate]; exact ⟨by omega, by omega⟩
  · rw [hdate]; exact ⟨by omega, by omega⟩

/-- A run of a cursor that stands on an occurrence. -/
theorem StandsOn.take_visits (h : r.StandsOn z d v) (n : Nat)
    (hm : (⟨.calendar r, z, v⟩ : Cursor).StaysMild (List.replicate n .excluded)) :
    r.Visits z n d v ((⟨.calendar r, z, v⟩ : Cursor).take n).1 := by
  induction n generalizing d v with
  | zero => exact .nil d v
  | succ n ih =>
    obtain ⟨hmild, hrest⟩ := hm
    have hyear := year_plusDays_one d
    have hd : -262001 ≤ d.year ∧ d.year ≤ 262000 := by
      obtain ⟨hlo, hhi⟩ := hmild
      rcases h.dateAt_eq with hdate | hdate
      · rw [hdate] at hlo hhi; omega
      · rw [hdate] at hlo hhi; omega
    obtain ⟨d', w, hfirst, hresolve, hnext, hstands, -⟩ := h.next hw hs hj ⟨by omega, by omega⟩
    have hstep : (⟨.calendar r, z, v⟩ : Cursor).step .excluded = (.ok w, ⟨.calendar r, z, w⟩) := by
      simp only [Cursor.step, Schedule.nextFrom, hnext]
    rw [hstep] at hrest
    have hrun : ((⟨.calendar r, z, v⟩ : Cursor).take (n + 1)).1 =
        .ok w :: ((⟨.calendar r, z, w⟩ : Cursor).take n).1 := by
      simp only [Cursor.take, List.replicate_succ, Cursor.run, hstep]
    rw [hrun]
    exact .cons hfirst hresolve (ih hstands hrest)

/-- From the time of the rule on an accepted date, resolved from any anchor, the rule goes to the
first accepted date after it, and a cursor goes on to visit the accepted dates in order. -/
theorem run_visits (r : CalendarRule) (hd : d.Mild) (hacc : r.filter.Accepts d) (a : Instant) :
    ∃ v, z.resolve a (.of d r.time) = .ok v ∧
      (∃ d' w, IsFirst r.filter.Accepts (d.plusDays 1) d' ∧ z.resolve v (.of d' r.time) = .ok w ∧
        (Schedule.calendar r).next z v = .ok w) ∧
      ∀ n, (⟨.calendar r, z, v⟩ : Cursor).StaysMild (List.replicate n .excluded) →
        r.Visits z n d v ((⟨.calendar r, z, v⟩ : Cursor).take n).1 := by
  obtain ⟨hlo, hhi⟩ := hd
  obtain ⟨v, hv, hstands⟩ := resolve_standsOn hw hs hj hacc (by omega) a
  obtain ⟨d', w, hfirst, hresolve, hnext, -, -⟩ := hstands.next hw hs hj (by omega)
  exact ⟨v, hv, ⟨d', w, hfirst, hresolve, hnext⟩, fun n hm => hstands.take_visits hw hs hj n hm⟩

end Zone

/-- In the night to 2026-03-29, 02:30 is skipped, and resolves to 03:30. The next three nights have it
again. -/
theorem nightly_visits : Zone.summerTime.WholeMinutes ∧ Zone.summerTime.Spaced ∧
    (∀ u, Zone.summerTime.jumpAt u < 86400) ∧ Mild ⟨20541⟩ ∧ nightly.filter.Accepts ⟨20541⟩ ∧
    ∃ v, Zone.summerTime.resolve saturdayNight.position (.of ⟨20541⟩ nightly.time) = .ok v ∧
      v.second = 1774747800 ∧
      (∃ d' w, IsFirst nightly.filter.Accepts (plusDays ⟨20541⟩ 1) d' ∧
        Zone.summerTime.resolve v (.of d' nightly.time) = .ok w ∧
        (Schedule.calendar nightly).next .summerTime v = .ok w) ∧
      (⟨.calendar nightly, .summerTime, v⟩ : Cursor).StaysMild (List.replicate 3 .excluded) ∧
      nightly.Visits .summerTime 3 ⟨20541⟩ v ((⟨.calendar nightly, .summerTime, v⟩ : Cursor).take 3).1 ∧
      ((⟨.calendar nightly, .summerTime, v⟩ : Cursor).take 3).1.map (·.toOption.map (·.second)) =
        [some 1774830600, some 1774917000, some 1775003400] := by
  have hw : Zone.summerTime.WholeMinutes := by decide
  have hs : Zone.summerTime.Spaced := by decide
  have hj (u : Int) : Zone.summerTime.jumpAt u < 86400 := by
    have := Zone.jumpAt_le (z := .summerTime) (n := 3600) (by decide) u
    omega
  have hm : Mild ⟨20541⟩ := by decide
  have hacc : nightly.filter.Accepts ⟨20541⟩ := by decide
  obtain ⟨v, hv, hsecond, hstays, hanswers⟩ :
      ∃ v, Zone.summerTime.resolve saturdayNight.position (.of ⟨20541⟩ nightly.time) = .ok v ∧
      v.second = 1774747800 ∧
      (⟨.calendar nightly, .summerTime, v⟩ : Cursor).StaysMild (List.replicate 3 .excluded) ∧
      ((⟨.calendar nightly, .summerTime, v⟩ : Cursor).take 3).1.map (·.toOption.map (·.second)) =
        [some 1774830600, some 1774917000, some 1775003400] :=
    ⟨_, rfl, rfl, by decide +kernel, by decide +kernel⟩
  obtain ⟨v', hv', hnext, hvisits⟩ := run_visits hw hs hj nightly hm hacc saturdayNight.position
  obtain rfl : v = v' := Except.ok.inj (hv.symm.trans hv')
  exact ⟨hw, hs, hj, hm, hacc, v, hv, hsecond, hnext, hstays, hvisits 3 hstays, hanswers⟩

end CalendarRule

end Recurrence
