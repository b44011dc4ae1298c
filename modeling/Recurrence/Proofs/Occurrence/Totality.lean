import Recurrence.Proofs.Occurrence.Moves
/-!
# Calendar rules always have an occurrence

From a mild date the date search settles within 755 rounds, however rare the filter is, and a calendar
rule has an occurrence after any instant on such a date, in any zone (`CalendarRule.next_total`).
Nothing is asked of the transitions: the start of the local minute may then lie in another offset, but
not more than three days away on the wall clock.
-/

namespace Recurrence

open Date DateSearch

variable {z : Zone} {t m : Instant}

/-- The local date of an instant less than a minute before a mild one is within a year of a mild date. -/
theorem Zone.Mild.year_of_near (h : z.Mild t) (hlo : t.second - 60 < m.second)
    (hhi : m.second ≤ t.second) :
    -262001 ≤ (z.dateAt m).year ∧ (z.dateAt m).year ≤ 262001 := by
  have ht := localSecond_near z t.second
  have hm := localSecond_near z m.second
  have hdt : (z.dateAt t).dayNumber = z.localSecond t.second / 86400 := rfl
  have hdm : (z.dateAt m).dayNumber = z.localSecond m.second / 86400 := rfl
  have hmild := year_bounds_iff.1 (show -262000 ≤ (z.dateAt t).year ∧ _ from h)
  have hfirst : monthBegin (12 * -262001) + 3 ≤ monthBegin (12 * -262000) := by decide
  have hlast : monthBegin (12 * (262000 + 1)) + 3 ≤ monthBegin (12 * (262001 + 1)) := by decide
  exact year_bounds_iff.2 (by omega)

namespace CalendarRule

variable (r : CalendarRule)

theorem next_ok (h : z.Mild t) (bound : StartBound) : ∃ v, r.next z t bound = .ok v := by
  have hrange := h.bounds
  obtain ⟨start, hstart, hs, hn⟩ := Zone.startOfMinute_ok (z := z) (t := t) (by omega)
  have hyear := h.year_of_near (m := start) (by omega) (by omega)
  have hfirst := ClockTime.year_firstDate (c := r.time) (d := z.dateAt start)
    (l := z.localSecond start.second) bound rfl
  obtain ⟨e, he, hle, -, hey⟩ := firstAccepted_accepts r.occurs
    (d := r.time.firstDate (z.localSecond start.second) bound) (by omega)
  have hye := year_mono hle
  obtain ⟨v, hv, -, -⟩ := Zone.resolve_of_date (z := z) (d := e) (by omega) r.time start
  exact ⟨v, (next_eq hstart hn ⟨by omega, by omega⟩ he).trans hv⟩

/-- From a mild date the search settles on an accepted date, and the rule has an occurrence after
every instant on that date, and one from the minute of the instant on. -/
theorem next_total {d : Date} (hd : d.Mild) :
    (∃ e, settle r.filter 755 d = .ok e ∧ firstAccepted r.filter d = .ok e ∧
      narrow r.filter e = .ok e ∧ d ≤ e ∧ r.filter.Accepts e) ∧
    ∀ z t, Zone.dateAt z t = d → (∃ v, (Schedule.calendar r).next z t = .ok v) ∧
      ∃ v, (Schedule.calendar r).nextOrSame z t = .ok v := by
  have hlo := hd.1
  have hhi := hd.2
  obtain ⟨e, he, hle, hacc, -⟩ := settle_accepts (n := 755) (exists_accepts_of_occurs r.occurs)
    (d := d) (by omega) (Nat.le_refl _)
  refine ⟨⟨e, he, settle_mono he (by decide), settle_fixed he, hle, hacc⟩, ?_⟩
  rintro z t rfl
  exact ⟨r.next_ok hd .excluded, r.next_ok hd .included⟩

/-- From 2088-03-01 the next fifth Sunday of a February is forty years away, since 2100 is no leap
year. -/
theorem fifthSunday_total : ∃ r, Schedule.nthWeekday .midnight [5] [6] [2] = .ok (.calendar r) ∧
    Mild ⟨43159⟩ ∧
    (∃ e, settle r.filter 755 ⟨43159⟩ = .ok e ∧ firstAccepted r.filter ⟨43159⟩ = .ok e ∧
      narrow r.filter e = .ok e ∧ (⟨43159⟩ : Date) ≤ e ∧ r.filter.Accepts e) ∧
    ∀ z t, Zone.dateAt z t = ⟨43159⟩ → (∃ v, (Schedule.calendar r).next z t = .ok v) ∧
      ∃ v, (Schedule.calendar r).nextOrSame z t = .ok v := by
  obtain ⟨r, hr⟩ : ∃ r, Schedule.nthWeekday .midnight [5] [6] [2] = .ok (.calendar r) := ⟨_, rfl⟩
  have hd : Mild ⟨43159⟩ := by decide
  exact ⟨r, hr, hd, r.next_total hd⟩

end CalendarRule

end Recurrence
