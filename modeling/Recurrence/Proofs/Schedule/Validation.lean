import Recurrence.Proofs.Schedule.Making
import Recurrence.Proofs.YearKinds
/-!
# What the check of a calendar schedule decides

A calendar rule is made only if its filter accepts some date of the years from 2000 to 2027. All
kinds of years occur among these, so that is the case exactly if the filter accepts a date of any
year (`DateFilter.occurs_iff`). Weeks and weekdays never rule each other out, and days of the month
do so only with months that are too short (`Schedule.made_iff_occurs`).
-/

namespace Recurrence

open Date

/-! ## Sets that are listed -/

/-- The numbers are those of a set: there are some, and all lie in the domain. -/
def ListsSet (lo hi : Nat) (numbers : List Nat) : Prop :=
  numbers ≠ [] ∧ ∀ n ∈ numbers, lo ≤ n ∧ n ≤ hi

instance (lo hi : Nat) (numbers : List Nat) : Decidable (ListsSet lo hi numbers) :=
  inferInstanceAs (Decidable (_ ∧ _))

theorem FilterPart.select_ok (part : FilterPart) {lo hi : Nat} {numbers : List Nat}
    (h : ListsSet lo hi numbers) : ∃ s : Selection lo hi, part.select numbers = .ok s ∧
      ∀ n, n ∈ s ↔ n ∈ numbers := by
  obtain ⟨hne, hwithin⟩ := h
  have hmem (n : Nat) : n ∈ ascendingOf numbers ↔ n ∈ numbers := mem_ascendingOf
  have hne' : ascendingOf numbers ≠ [] := by
    obtain ⟨n, hn⟩ := List.exists_mem_of_ne_nil _ hne
    exact List.ne_nil_of_mem ((hmem n).2 hn)
  have hwithin' : ∀ n ∈ ascendingOf numbers, lo ≤ n ∧ n ≤ hi := fun n hn =>
    hwithin n ((hmem n).1 hn)
  refine ⟨⟨ascendingOf numbers, hne', pairwise_ascendingOf numbers, hwithin'⟩, ?_, hmem⟩
  rw [select, Selection.of?]
  simp only [dif_neg hne', dif_pos hwithin']

/-! ## The sample of years -/

theorem weekOfMonth_congr {d e : Date} (h : e.day = d.day) : e.weekOfMonth = d.weekOfMonth := by
  rw [weekOfMonth, weekOfMonth, h]

theorem inRange_of_sample {d : Date} (h : 2000 ≤ d.year ∧ d.year < 2028) : d.InRange :=
  inRange_iff.2 (by omega)

namespace DateFilter

variable {f : DateFilter} {d : Date}

theorem occurs_of_accepts (h : f.Accepts d) : f.Occurs := by
  obtain ⟨e, hlo, hhi, hmonth, hday, hweekday⟩ := exists_recurrence_sample d
  have hacc : f.Accepts e := by
    simpa only [Accepts, weekOfMonth_congr hday, hmonth, hday, hweekday] using h
  have hvalid := valid_civil e
  have hcivil : (⟨(e.year.toNat : Int), e.month, e.day⟩ : CivilDate) = e.civil := by
    ext
    · show (e.year.toNat : Int) = e.year
      omega
    · rfl
    · rfl
  have hdays := Selection.bounds_of_mem hacc.2.1
  refine ⟨e.year.toNat, ?_, e.month, hacc.1, e.day, ?_, ?_, ?_⟩
  · rw [List.mem_range'_1]; omega
  · rw [List.mem_range'_1]; omega
  · rw [hcivil]; exact hvalid
  · rw [hcivil, ofCivil_civil]; exact hacc

/-- The sample holds an accepted date if any year does. -/
theorem occurs_iff : f.Occurs ↔ ∃ d : Date, d.InRange ∧ f.Accepts d := by
  constructor
  · rintro ⟨y, hy, month, -, day, -, hvalid, hacc⟩
    rw [List.mem_range'_1] at hy
    refine ⟨_, inRange_of_sample ?_, hacc⟩
    have hyear : (Date.ofCivil ⟨y, month, day⟩).year = y := congrArg _ (civil_ofCivil hvalid)
    omega
  · rintro ⟨d, -, hacc⟩
    exact occurs_of_accepts hacc

/-! ## Weeks and weekdays -/

/-- Every month begins on every weekday in some year of the sample, also the February of a leap
year, so that it has a fifth week. -/
private theorem begins_on_every_weekday :
    ∀ m ∈ List.range' 1 12, ∀ w ∈ List.range 7, ∃ y ∈ List.range' 2000 28,
      29 ≤ monthLength y m ∧ (Date.ofCivil ⟨y, m, 1⟩).weekday = w := by
  decide +kernel

theorem weekly_occurs (weeks : Selection 1 5) (weekdays : Selection 0 6) (months : Selection 1 12) :
    (weekly weeks weekdays months).Occurs := by
  have hk := Selection.bounds_of_mem weeks.least_mem
  have hw := Selection.bounds_of_mem weekdays.least_mem
  have hm := Selection.bounds_of_mem months.least_mem
  obtain ⟨y, -, hlen, hbegin⟩ := begins_on_every_weekday months.least
    (List.mem_range'_1.2 (by omega)) weekdays.least (List.mem_range.2 (by omega))
  have hmem := months.least_mem
  generalize months.least = m at *
  have hvalid : CivilDate.Valid ⟨y, m, 7 * (weeks.least - 1) + 1⟩ := by
    simp only [CivilDate.Valid]
    omega
  have hcivil := civil_ofCivil hvalid
  have hnumber := Date.dayNumber_ofCivil (c := ⟨y, m, 7 * (weeks.least - 1) + 1⟩) hm
  have hfirst := Date.dayNumber_ofCivil (c := ⟨y, m, 1⟩) hm
  simp only [CivilDate.monthIndex] at hnumber hfirst
  generalize Date.ofCivil ⟨y, m, 7 * (weeks.least - 1) + 1⟩ = d at hcivil hnumber
  have hmonth : d.month = m := congrArg _ hcivil
  have hday : d.day = 7 * (weeks.least - 1) + 1 := congrArg _ hcivil
  refine occurs_of_accepts (d := d) ⟨?_, ?_, ?_, ?_⟩
  · exact hmonth ▸ hmem
  · exact Selection.mem_of_not_restricts (Selection.not_restricts_full (by decide)) (by omega)
  · have h : d.weekday = weekdays.least := by
      simp only [Date.weekday] at hbegin ⊢
      omega
    exact h ▸ weekdays.least_mem
  · have h : d.weekOfMonth = weeks.least := by
      rw [Date.weekOfMonth]
      omega
    exact h ▸ weeks.least_mem

/-- A filter by day of the month only looks at day and month. -/
theorem accepts_monthly {days : Selection 1 31} {months : Selection 1 12} {d : Date} :
    (monthly days months).Accepts d ↔ d.day ∈ days ∧ d.month ∈ months := by
  have hweekday : d.weekday ∈ allWeekdays :=
    Selection.mem_of_not_restricts (Selection.not_restricts_full (by decide))
      ⟨Nat.zero_le _, d.weekday_le⟩
  have hweek : d.weekOfMonth ∈ allWeeks :=
    Selection.mem_of_not_restricts (Selection.not_restricts_full (by decide)) d.weekOfMonth_bounds
  exact ⟨fun h => ⟨h.2.1, h.1⟩, fun h => ⟨h.2, h.1, hweekday, hweek⟩⟩

end DateFilter

/-! ## Making a schedule -/

/-- The sample of years is large enough for any combination of four sets. -/
theorem Date.sample_iff (months : Selection 1 12) (days : Selection 1 31) (weekdays : Selection 0 6)
    (weeks : Selection 1 5) :
    (∃ d : Date, (2000 ≤ d.year ∧ d.year < 2028) ∧
      d.month ∈ months ∧ d.day ∈ days ∧ d.weekday ∈ weekdays ∧ d.weekOfMonth ∈ weeks) ↔
    ∃ d : Date, d.month ∈ months ∧ d.day ∈ days ∧ d.weekday ∈ weekdays ∧ d.weekOfMonth ∈ weeks := by
  constructor
  · rintro ⟨d, -, hd⟩
    exact ⟨d, hd⟩
  · rintro ⟨d, hmonths, hdays, hweekdays, hweeks⟩
    obtain ⟨e, hlo, hhi, hmonth, hday, hweekday⟩ := exists_recurrence_sample d
    refine ⟨e, ⟨hlo, hhi⟩, ?_⟩
    rw [hmonth, hday, hweekday, weekOfMonth_congr hday]
    exact ⟨hmonths, hdays, hweekdays, hweeks⟩

theorem CalendarRule.of_cases (f : DateFilter) (time : ClockTime) :
    (f.Occurs ∧ ∃ r, CalendarRule.of f time = .ok r) ∨
    (¬ f.Occurs ∧ CalendarRule.of f time = .error (.neverOccurs f time)) := by
  by_cases h : f.Occurs
  · exact .inl ⟨h, ⟨f, time, h⟩, dif_pos h⟩
  · exact .inr ⟨h, dif_neg h⟩

theorem Fault.neverOccurs_message {f : DateFilter} {time : ClockTime} :
    ∃ text, (Fault.neverOccurs f time).message = text ++ " never occurs" :=
  ⟨_, (String.append_assoc ..).symm⟩

namespace Schedule

theorem nthWeekday_ok (time : TimeOfDay) {weeks weekdays months : List Nat}
    (hweeks : ListsSet 1 5 weeks) (hweekdays : ListsSet 0 6 weekdays) (hmonths : ListsSet 1 12 months) :
    ∃ s, nthWeekday time weeks weekdays months = .ok s := by
  obtain ⟨w, hw, -⟩ := FilterPart.weeks.select_ok hweeks
  obtain ⟨d, hd, -⟩ := FilterPart.weekdays.select_ok hweekdays
  obtain ⟨m, hm, -⟩ := FilterPart.months.select_ok hmonths
  obtain ⟨-, r, hr⟩ | ⟨hnever, -⟩ := CalendarRule.of_cases (.weekly w d m) time.clockTime
  · simp only [nthWeekday, bind_eq_ok_iff]
    exact ⟨.calendar r, w, hw, d, hd, m, hm, r, hr, rfl⟩
  · exact absurd (DateFilter.weekly_occurs w d m) hnever

theorem nthDay_cases (time : TimeOfDay) {days months : List Nat} (hdays : ListsSet 1 31 days)
    (hmonths : ListsSet 1 12 months) :
    ((∃ d : Date, d.InRange ∧ d.day ∈ days ∧ d.month ∈ months) ∧
      ∃ s, nthDay time days months = .ok s) ∨
    ((¬ ∃ d : Date, d.InRange ∧ d.day ∈ days ∧ d.month ∈ months) ∧
      ∃ f, nthDay time days months = .error (.neverOccurs f time.clockTime)) := by
  obtain ⟨d, hd, hmemd⟩ := FilterPart.days.select_ok hdays
  obtain ⟨m, hm, hmemm⟩ := FilterPart.months.select_ok hmonths
  have hoccurs : (DateFilter.monthly d m).Occurs ↔
      ∃ e : Date, e.InRange ∧ e.day ∈ days ∧ e.month ∈ months := by
    simp only [DateFilter.occurs_iff, DateFilter.accepts_monthly, hmemd, hmemm]
  have hmade : nthDay time days months =
      (CalendarRule.of (.monthly d m) time.clockTime).map .calendar := by
    rw [nthDay, hd, hm]
    rfl
  rw [← hoccurs, hmade]
  obtain ⟨h, r, hr⟩ | ⟨h, hr⟩ := CalendarRule.of_cases (.monthly d m) time.clockTime
  · exact .inl ⟨h, .calendar r, by rw [hr]; rfl⟩
  · exact .inr ⟨h, _, by rw [hr]; rfl⟩

/-- A choice of weeks, weekdays and months can always be made, and one of days and months unless no
date of the range has such a day and month. This is since the years from 2000 to 2027 hold a date that
a filter accepts if any year at all does. -/
theorem made_iff_occurs (time : TimeOfDay) :
    (∀ weeks weekdays months, ListsSet 1 5 weeks → ListsSet 0 6 weekdays → ListsSet 1 12 months →
      ∃ s, nthWeekday time weeks weekdays months = .ok s) ∧
    (∀ days months, ListsSet 1 31 days → ListsSet 1 12 months →
      ((∃ s, nthDay time days months = .ok s) ↔
        ∃ d : Date, d.InRange ∧ d.day ∈ days ∧ d.month ∈ months) ∧
      ((∃ fault, nthDay time days months = .error fault ∧
          ∃ text, fault.message = text ++ " never occurs") ↔
        ¬ ∃ d : Date, d.InRange ∧ d.day ∈ days ∧ d.month ∈ months)) ∧
    (∀ f : DateFilter, (∃ r, CalendarRule.of f time.clockTime = .ok r) ↔
      ∃ d : Date, d.InRange ∧ f.Accepts d) ∧
    ∀ (months : Selection 1 12) (days : Selection 1 31) (weekdays : Selection 0 6)
      (weeks : Selection 1 5),
      (∃ d : Date, (2000 ≤ d.year ∧ d.year < 2028) ∧
        d.month ∈ months ∧ d.day ∈ days ∧ d.weekday ∈ weekdays ∧ d.weekOfMonth ∈ weeks) ↔
      ∃ d : Date, d.month ∈ months ∧ d.day ∈ days ∧ d.weekday ∈ weekdays ∧ d.weekOfMonth ∈ weeks := by
  refine ⟨fun _ _ _ => nthWeekday_ok time, fun days months hdays hmonths => ?_, fun f => ?_,
    Date.sample_iff⟩
  · obtain ⟨hoccurs, s, hs⟩ | ⟨hnever, f, hf⟩ := nthDay_cases time hdays hmonths
    · rw [hs]
      exact ⟨iff_of_true ⟨s, rfl⟩ hoccurs, iff_of_false (by rintro ⟨_, ⟨⟩, _⟩) (not_not.2 hoccurs)⟩
    · rw [hf]
      exact ⟨iff_of_false (by rintro ⟨_, ⟨⟩⟩) hnever,
        iff_of_true ⟨_, rfl, Fault.neverOccurs_message⟩ hnever⟩
  · rw [← DateFilter.occurs_iff]
    obtain ⟨hoccurs, hr⟩ | ⟨hnever, hr⟩ := CalendarRule.of_cases f time.clockTime
    · exact iff_of_true hr hoccurs
    · exact iff_of_false (by rintro ⟨_, h⟩; exact nomatch hr.symm.trans h) hnever

/-- February has leap days and fifth Sundays, but no 30th. -/
theorem february_made :
    (∃ s, nthWeekday .midnight [5] [6] [2] = .ok s) ∧ (∃ s, nthDay .midnight [29] [2] = .ok s) ∧
      ∃ fault, nthDay .midnight [30, 31] [2] = .error fault ∧
        ∃ text, fault.message = text ++ " never occurs" := by
  obtain ⟨hweeks, hdays, -⟩ := made_iff_occurs .midnight
  refine ⟨hweeks _ _ _ (by decide) (by decide) (by decide), ?_, ?_⟩
  · exact (hdays _ _ (by decide) (by decide)).1.2 ⟨⟨19782⟩, by decide, by decide, by decide⟩
  · refine (hdays _ _ (by decide) (by decide)).2.2 ?_
    rintro ⟨d, -, hday, hmonth⟩
    obtain ⟨-, -, -, hvalid⟩ := valid_civil d
    rw [List.mem_singleton] at hmonth
    have hlen : monthLength d.year 2 ≤ 29 := by
      simp only [monthLength, if_true]
      split <;> omega
    have hle : d.day ≤ monthLength d.year d.month := hvalid
    rw [hmonth] at hle
    simp only [List.mem_cons, List.not_mem_nil, or_false] at hday
    omega

end Schedule

end Recurrence
