import Recurrence.Proofs.DateSearch.Parts
/-!
# What one round of the date search does

A round is its four parts one after the other (`narrow_eq`), and `narrow_spec` puts together what they
do. A round moves forward (`le`), and ends on an accepted date or in a later month
(`accepts_or_later`). It misses no accepted date unless it starts off course (`on_course`): in a week
of a selected month that is not selected itself, with a selected weekday gone by and another one ahead,
and with a selected week later in the month. The jump to that week then leads past the first of the
two weekdays. A round that starts on course ends on course.
-/

namespace Recurrence.DateSearch

open Date

variable {f : DateFilter} {d : Date}

/-! ## The parts put together -/

/-- The date after the search by month. -/
def inMonth (f : DateFilter) (d : Date) : Date :=
  if f.months.Restricts then toMonth f.months d else d

theorem inMonth_spec (h : Roomy d) : IsFirst (·.month ∈ f.months) d (inMonth f d) ∧
    (inMonth f d = d ∨
      ∃ i, inMonth f d = monthFirst i ∧ d.monthIndex < i ∧ i < d.monthIndex + 12) := by
  unfold inMonth
  split
  · exact toMonth_spec h f.months
  · next hr => exact ⟨.of_holds (month_mem_of_not_restricts hr d), .inl rfl⟩

/-- There is room for a whole round. -/
def Spacious (d : Date) : Prop := -262143 ≤ d.year ∧ d.year ≤ 262138

theorem Spacious.inMonth (h : Spacious d) {e : Date} (h₁ : DateSearch.inMonth f d ≤ e)
    (h₂ : e.dayNumber ≤ (DateSearch.inMonth f d).dayNumber + 6) : Roomy e := by
  obtain ⟨hy, hy'⟩ := h
  obtain ⟨hf, hi⟩ := inMonth_spec (f := f) (d := d) ⟨hy, by omega⟩
  have := year_mono h₁
  have := year_mono hf.le
  have hd := (monthIndex_spec d).1
  have he := (monthIndex_spec e).1
  have hlt : e.monthIndex < d.monthIndex + 13 := by
    have hib : (DateSearch.inMonth f d).monthIndex < d.monthIndex + 12 := by
      rcases hi with hi | ⟨i, hi, -, hlt⟩
      · rw [hi]; omega
      · rw [hi, monthIndex_monthFirst]; exact hlt
    have hm := (monthIndex_eq_iff (d := DateSearch.inMonth f d)).1 rfl
    have hem := (monthIndex_eq_iff (d := e)).1 rfl
    have hs := monthBegin_succ ((DateSearch.inMonth f d).monthIndex + 1)
    have hsb := monthDays_bounds ((DateSearch.inMonth f d).monthIndex + 1)
    have : monthBegin e.monthIndex < monthBegin ((DateSearch.inMonth f d).monthIndex + 1 + 1) := by
      omega
    rw [monthBegin_strictMono.lt_iff_lt] at this
    omega
  exact ⟨by omega, by omega⟩

/-- The search by day of the month, as part of a round. -/
def onDay (f : DateFilter) (d : Date) : Except RollError Date :=
  if f.days.Restricts then toDay f.days d else .ok d

/-- The search by weekday, as part of a round. -/
def onWeekday (f : DateFilter) (d : Date) : Except RollError Date :=
  if f.weekdays.Restricts then toWeekday f.weekdays d else .ok d

/-- The search by week of the month, as part of a round. -/
def onWeek (f : DateFilter) (d : Date) : Except RollError Date :=
  if f.weeks.Restricts then toWeek f.weeks d else .ok d

theorem narrow_eq : narrow f d =
    (onDay f (inMonth f d) >>= fun a => onWeekday f a >>= onWeek f : Except RollError Date) := by
  by_cases hr : f.days.Restricts <;> by_cases hw : f.weekdays.Restricts <;>
    simp only [narrow, onDay, onWeekday, hr, hw, if_true, if_false] <;> rfl

theorem narrow_monthly (h : f.days.Restricts) : narrow f d = toDay f.days (inMonth f d) := by
  obtain ⟨hw, hd⟩ := f.apart h
  rw [narrow_eq, onDay, if_pos h]
  cases toDay f.days (inMonth f d) with
  | error e => rfl
  | ok a => simp only [bind, Except.bind, onWeekday, onWeek, if_neg hw, if_neg hd]

theorem narrow_weekly (hs : Spacious d) (h : ¬ f.days.Restricts) :
    ∃ d₁ d₂, IsFirst (·.weekday ∈ f.weekdays) (inMonth f d) d₁ ∧ narrow f d = .ok d₂ ∧
      WeekMove f.weeks d₁ d₂ := by
  have hroom : Roomy (inMonth f d) := hs.inMonth (Date.le_refl _) (by omega)
  have hday : onDay f (inMonth f d) = .ok (inMonth f d) := if_neg h
  obtain ⟨d₁, hd₁, hfirst, hnear⟩ : ∃ d₁, onWeekday f (inMonth f d) = .ok d₁ ∧
      IsFirst (·.weekday ∈ f.weekdays) (inMonth f d) d₁ ∧
      d₁.dayNumber ≤ (inMonth f d).dayNumber + 6 := by
    unfold onWeekday
    split
    · exact toWeekday_spec hroom f.weekdays
    · next hr =>
      exact ⟨_, rfl, .of_holds (weekday_mem_of_not_restricts hr _), by omega⟩
  obtain ⟨d₂, hd₂, hmove⟩ : ∃ d₂, onWeek f d₁ = .ok d₂ ∧ WeekMove f.weeks d₁ d₂ := by
    unfold onWeek
    split
    · exact toWeek_spec (hs.inMonth hfirst.le hnear) f.weeks
    · next hr => exact ⟨_, rfl, .stay (week_mem_of_not_restricts hr _) rfl⟩
  refine ⟨d₁, d₂, hfirst, ?_, hmove⟩
  simp only [narrow_eq, hday, hd₁, bind, Except.bind, hd₂]

/-- A selected weekday has gone by in the week of the month that a date lies in. -/
def HasPassed (f : DateFilter) (d : Date) : Prop :=
  ∃ e, e < d ∧ e.monthIndex = d.monthIndex ∧ e.weekOfMonth = d.weekOfMonth ∧ e.weekday ∈ f.weekdays

/-- A selected weekday is ahead in the week of the month that a date lies in, or on the date. -/
def IsAhead (f : DateFilter) (d : Date) : Prop :=
  ∃ e, d ≤ e ∧ e.monthIndex = d.monthIndex ∧ e.weekOfMonth = d.weekOfMonth ∧ e.weekday ∈ f.weekdays

/-- The search leaves a week between two of its selected weekdays, for a later week of the
month. -/
structure OffCourse (f : DateFilter) (d : Date) : Prop where
  month_mem : d.month ∈ f.months
  week_not_mem : d.weekOfMonth ∉ f.weeks
  later_week : ∃ w ∈ f.weeks, d.weekOfMonth < w
  has_passed : HasPassed f d
  is_ahead : IsAhead f d

/-- What a round of the search does. -/
structure IsRound (f : DateFilter) (d d' : Date) : Prop where
  le : d ≤ d'
  accepts_or_later : f.Accepts d' ∨ d.monthIndex < d'.monthIndex
  on_course : ¬ OffCourse f d → ¬ OffCourse f d' ∧ ∀ e, d ≤ e → e < d' → ¬ f.Accepts e

theorem not_hasPassed_monthFirst (i : Int) : ¬ HasPassed f (monthFirst i) := by
  rintro ⟨e, hlt, hi, -⟩
  have := (monthIndex_eq_iff (d := e)).1 rfl
  rw [monthIndex_monthFirst] at hi
  rw [hi] at this
  rw [lt_def, dayNumber_monthFirst] at hlt
  omega

/-! ### Jumps by whole weeks -/

section Jump

variable {d' : Date} {w : Nat} (hlt : d.weekOfMonth < w) (hw : w ≤ 5)
  (eq : d'.dayNumber = d.dayNumber + 7 * (w - d.weekOfMonth))
include hlt hw eq

/-- A jump lands in the week that it aims at, or in the first week of the next month. -/
theorem jump_lands : d'.monthIndex = d.monthIndex ∧ d'.weekOfMonth = w ∨
    d'.monthIndex = d.monthIndex + 1 ∧ d'.weekOfMonth = 1 ∧ w = 5 := by
  have hd := weekOfMonth_eq d
  have hi := (monthIndex_eq_iff (d := d)).1 rfl
  have hs := monthBegin_succ d.monthIndex
  have hs' := monthBegin_succ (d.monthIndex + 1)
  have hb := monthDays_bounds d.monthIndex
  have hb' := monthDays_bounds (d.monthIndex + 1)
  have hd' := weekOfMonth_eq d'
  by_cases hm : d'.dayNumber < monthBegin (d.monthIndex + 1)
  · have hi' : d'.monthIndex = d.monthIndex := by rw [monthIndex_eq_iff]; omega
    rw [hi'] at hd' ⊢; omega
  · have hi' : d'.monthIndex = d.monthIndex + 1 := by rw [monthIndex_eq_iff]; omega
    rw [hi'] at hd' ⊢; omega

/-- A selected weekday between the start of the week that a jump aims at and the landing has its
counterpart in the week that the jump started from. -/
theorem hasPassed_of_between {e : Date} (he : e < d')
    (hfrom : monthBegin d.monthIndex + 7 * (w - 1) ≤ e.dayNumber) (hmem : e.weekday ∈ f.weekdays) :
    HasPassed f d := by
  have hd := weekOfMonth_eq d
  have hi := (monthIndex_eq_iff (d := d)).1 rfl
  rw [lt_def] at he
  let c := e.plusDays (-(7 * (w - d.weekOfMonth)))
  have hc : c.dayNumber = e.dayNumber - 7 * (w - d.weekOfMonth) := by
    simp only [c, dayNumber_plusDays]; omega
  have hci : c.monthIndex = d.monthIndex := by rw [monthIndex_eq_iff]; omega
  have hcw := weekOfMonth_eq c
  rw [hci] at hcw
  have hday := weekday_eq e
  have hcday := weekday_eq c
  exact ⟨c, by rw [lt_def]; omega, hci, by omega, by rwa [show c.weekday = e.weekday by omega]⟩

/-- A jump past no selected weekday misses no accepted date. -/
theorem jump_misses_none (hp : ¬ HasPassed f d) (hmin : ∀ k ∈ f.weeks, d.weekOfMonth ≤ k → w ≤ k) :
    ∀ e, d ≤ e → e < d' → ¬ f.Accepts e := by
  rintro e hde hed ⟨-, -, hwd, hwk⟩
  -- No week before the one that is aimed at is selected, so `e` lies in that one or later.
  refine hp (hasPassed_of_between hlt hw eq hed ?_ hwd)
  have hei := (monthIndex_eq_iff (d := e)).1 rfl
  have hew := weekOfMonth_eq e
  have hdw := weekOfMonth_eq d
  rw [le_def] at hde
  by_cases hm : e.dayNumber < monthBegin (d.monthIndex + 1)
  · have hi : e.monthIndex = d.monthIndex := by
      have := (monthIndex_eq_iff (d := d)).1 rfl
      rw [monthIndex_eq_iff]; omega
    rw [hi] at hew
    have := hmin _ hwk (by omega)
    omega
  · have hs := monthBegin_succ d.monthIndex
    have hb := monthDays_bounds d.monthIndex
    omega

theorem jump_onCourse (hp : ¬ HasPassed f d) (hmem : w ∈ f.weeks) : ¬ OffCourse f d' := by
  intro hoff
  rcases jump_lands hlt hw eq with ⟨-, h⟩ | ⟨hi, h, h5⟩
  · exact hoff.week_not_mem (h ▸ hmem)
  · obtain ⟨e, hed, hei, -, hmem'⟩ := hoff.has_passed
    refine hp (hasPassed_of_between hlt hw eq hed ?_ hmem')
    have hb := (monthIndex_eq_iff (d := e)).1 rfl
    rw [hei, hi] at hb
    have hs := monthBegin_succ d.monthIndex
    have hl := monthDays_bounds d.monthIndex
    omega

end Jump

/-! ### The round as a whole -/

theorem month_eq_of_monthIndex_eq {e : Date} (h : d.monthIndex = e.monthIndex) : d.month = e.month := by
  have := (monthIndex_spec d).2.1
  have := (monthIndex_spec e).2.1
  omega

/-- What is left of a round after the search by month. -/
theorem IsRound.of_inMonth {d' : Date} (h : Roomy d) (hr : IsRound f (inMonth f d) d') :
    IsRound f d d' := by
  obtain ⟨hm, hi⟩ := inMonth_spec (f := f) h
  have hle := hm.le
  refine ⟨?_, hr.accepts_or_later.imp_right fun hlt => ?_, fun hon => ?_⟩
  · exact Date.le_trans hle hr.le
  · have := monthIndex_mono hle
    omega
  · have hon' : ¬ OffCourse f (inMonth f d) := by
      rcases hi with hi | ⟨i, hi, -⟩
      · rwa [hi]
      · rw [hi]; exact fun hoff => not_hasPassed_monthFirst i hoff.has_passed
    obtain ⟨h₁, h₂⟩ := hr.on_course hon'
    refine ⟨h₁, ?_⟩
    intro e hde hed he
    by_cases hlt : e < inMonth f d
    · exact hm.none_before e hde hlt he.1
    · exact h₂ e (Date.not_lt.1 hlt) hed he

theorem isRound_of_toDay {d' : Date} (h : f.days.Restricts) (hm : d.month ∈ f.months) (hle : d ≤ d')
    (hno : ∀ e, d ≤ e → e < d' → e.day ∉ f.days)
    (hend : d'.monthIndex = d.monthIndex ∧ d'.day ∈ f.days ∨ d' = monthFirst (d.monthIndex + 1)) :
    IsRound f d d' := by
  obtain ⟨hw, hwd⟩ := f.apart h
  have hweek := week_mem_of_not_restricts hw
  refine ⟨hle, ?_, fun _ => ⟨fun hoff => hoff.week_not_mem (hweek d'),
    fun e hde hed he => hno e hde hed he.2.1⟩⟩
  rcases hend with ⟨hi, hday⟩ | hend
  · have hmem := weekday_mem_of_not_restricts hwd d'
    exact .inl ⟨month_eq_of_monthIndex_eq hi ▸ hm, hday, hmem, hweek d'⟩
  · exact .inr (by rw [hend, monthIndex_monthFirst]; omega)

/-- On course, no selected weekday has gone by when the first one comes. -/
theorem not_hasPassed_of_isFirst {d₁ : Date} (hm : d.month ∈ f.months)
    (hfirst : IsFirst (·.weekday ∈ f.weekdays) d d₁) (hon : ¬ OffCourse f d)
    (hw : d₁.weekOfMonth ∉ f.weeks) (hlater : ∃ w ∈ f.weeks, d₁.weekOfMonth < w) :
    ¬ HasPassed f d₁ := by
  rintro ⟨e, hlt, hi, hweek, hmem⟩
  have hle := hfirst.le
  by_cases hde : d ≤ e
  · exact hfirst.none_before e hde hlt hmem
  · have hed := Date.not_le.1 hde
    obtain ⟨hid, hwd⟩ := same_week_of_between (Date.le_of_lt hed) hle hi.symm hweek.symm
    have hwd₁ : d₁.weekOfMonth = d.weekOfMonth := hweek.symm.trans hwd.symm
    have hpassed : HasPassed f d :=
      ⟨e, hed, hid.symm, hwd.symm, hmem⟩
    exact hon ⟨hm, hwd₁ ▸ hw, hwd₁ ▸ hlater, hpassed, d₁, hle, hi.symm.trans hid.symm, hwd₁, hfirst.holds⟩

theorem isRound_of_weekMove {d₁ d₂ : Date} (h : ¬ f.days.Restricts) (hm : d.month ∈ f.months)
    (hfirst : IsFirst (·.weekday ∈ f.weekdays) d d₁) (hmove : WeekMove f.weeks d₁ d₂) :
    IsRound f d d₂ := by
  have hle := hfirst.le
  have hi := monthIndex_mono hle
  have before {e : Date} (hde : d ≤ e) (hlt : e < d₁) : ¬ f.Accepts e := fun he =>
    hfirst.none_before e hde hlt he.2.2.1
  cases hmove with
  | stay hmem heq =>
    subst heq
    refine ⟨hle, ?_, fun _ =>
      ⟨fun hoff => hoff.week_not_mem hmem, fun e hde hed => before hde hed⟩⟩
    rcases Int.lt_or_eq_of_le hi with hlt | hi
    · exact .inr hlt
    · exact .inl ⟨month_eq_of_monthIndex_eq hi ▸ hm, day_mem_of_not_restricts h _, hfirst.holds, hmem⟩
  | jump w hmem hlt hmin heq =>
    have hw := Selection.bounds_of_mem hmem
    have hnew : d₁.weekOfMonth ∉ f.weeks := fun hn => by have := hmin _ hn (Nat.le_refl _); omega
    refine ⟨by simp only [le_def] at *; omega, ?_, fun hon => ?_⟩
    · rcases jump_lands hlt hw.2 heq with ⟨hi', hw'⟩ | ⟨hi', -⟩
      · rcases Int.lt_or_eq_of_le hi with hlt' | hi
        · exact .inr (by omega)
        · have hd₁ := weekday_eq d₁
          have hd₂ := weekday_eq d₂
          have hday : d₂.weekday = d₁.weekday := by omega
          exact .inl ⟨month_eq_of_monthIndex_eq (hi.trans hi'.symm) ▸ hm,
            day_mem_of_not_restricts h _, hday ▸ hfirst.holds, hw' ▸ hmem⟩
      · exact .inr (by omega)
    · have hp := not_hasPassed_of_isFirst hm hfirst hon hnew ⟨w, hmem, hlt⟩
      refine ⟨jump_onCourse hlt hw.2 heq hp hmem, ?_⟩
      intro e hde hed he
      by_cases h₁ : e < d₁
      · exact before hde h₁ he
      · exact jump_misses_none hlt hw.2 heq hp hmin e (Date.not_lt.1 h₁) hed he
  | leave hnone heq =>
    subst heq
    have hd₁ := (monthIndex_eq_iff (d := d₁)).1 rfl
    refine ⟨by simp only [le_def, dayNumber_monthFirst] at *; omega, .inr ?_, fun _ =>
      ⟨fun hoff => not_hasPassed_monthFirst _ hoff.has_passed, fun e hde hed he => ?_⟩⟩
    · rw [monthIndex_monthFirst]; omega
    · by_cases h₁ : e < d₁
      · exact before hde h₁ he
      · rw [lt_def, dayNumber_monthFirst] at hed
        have hei : e.monthIndex = d₁.monthIndex := by
          rw [monthIndex_eq_iff]; simp only [lt_def] at h₁; omega
        have he' := weekOfMonth_eq e
        have hd' := weekOfMonth_eq d₁
        rw [hei] at he'
        have := hnone _ he.2.2.2
        simp only [lt_def] at h₁; omega

theorem narrow_spec (hs : Spacious d) : ∃ d', narrow f d = .ok d' ∧ IsRound f d d' := by
  have hroom : Roomy d := ⟨hs.1, by have := hs.2; omega⟩
  have hm := (inMonth_spec (f := f) hroom).1.holds
  by_cases h : f.days.Restricts
  · obtain ⟨d', hd', hle, hno, hend⟩ :=
      toDay_spec (hs.inMonth (f := f) (Date.le_refl _) (by omega)) f.days
    exact ⟨d', narrow_monthly h ▸ hd', (isRound_of_toDay h hm hle hno hend).of_inMonth hroom⟩
  · obtain ⟨d₁, d₂, hfirst, hd₂, hmove⟩ := narrow_weekly hs h
    exact ⟨d₂, hd₂, (isRound_of_weekMove h hm hfirst hmove).of_inMonth hroom⟩

end Recurrence.DateSearch
