import Recurrence.Occurrence.DateSearch
import Recurrence.Proofs.Months
import Recurrence.Proofs.Selections
/-!
# The parts of a round of the date search

By month and by weekday, the search goes to the first selected date from where it stands
(`toMonth_spec`, `toWeekday_spec`). By day of the month it goes there or to the first day of the
next month (`toDay_spec`). By week of the month it keeps the weekday, or goes to the first day of
the next month (`toWeek_spec`), so that this part alone can miss a selected date.
-/

namespace Recurrence

namespace Date

/-- The first date from `d` on that has a property. -/
structure IsFirst (P : Date → Prop) (d m : Date) : Prop where
  le : d ≤ m
  holds : P m
  none_before : ∀ e, d ≤ e → e < m → ¬ P e

/-- The first day of month `i`. -/
def monthFirst (i : Int) : Date := ⟨monthBegin i⟩

@[simp] theorem dayNumber_monthFirst (i : Int) : (monthFirst i).dayNumber = monthBegin i := rfl

@[simp] theorem monthIndex_monthFirst (i : Int) : (monthFirst i).monthIndex = i := by
  have := monthBegin_succ i
  have := monthDays_bounds i
  rw [monthIndex_eq_iff, dayNumber_monthFirst]
  omega

/-- A date with the property comes first from itself on. -/
theorem IsFirst.of_holds {P : Date → Prop} {d : Date} (hd : P d) : IsFirst P d d :=
  ⟨Date.le_refl _, hd, fun _ hde hed => absurd hde (Date.not_le.2 hed)⟩

theorem IsFirst.eq_of_holds {P : Date → Prop} {d m : Date} (h : IsFirst P d m) (hd : P d) : m = d := by
  have hlt : ¬ d < m := fun hlt => h.none_before d (Date.le_refl _) hlt hd
  exact Date.le_antisymm (Date.not_lt.1 hlt) h.le

end Date

namespace DateSearch

open Date

variable {f : DateFilter} {d : Date}

/-! ## Parts of the filter that restrict nothing -/

theorem month_mem_of_not_restricts (h : ¬ f.months.Restricts) (d : Date) : d.month ∈ f.months := by
  have hm := (monthIndex_spec d).2.1
  exact Selection.mem_of_not_restricts h (by omega)

theorem day_mem_of_not_restricts (h : ¬ f.days.Restricts) (d : Date) : d.day ∈ f.days := by
  obtain ⟨-, -, -, h₁, h₂⟩ := monthIndex_spec d
  have := monthDays_bounds d.monthIndex
  exact Selection.mem_of_not_restricts h (by omega)

theorem weekday_mem_of_not_restricts (h : ¬ f.weekdays.Restricts) (d : Date) : d.weekday ∈ f.weekdays :=
  Selection.mem_of_not_restricts h ⟨Nat.zero_le _, weekday_le d⟩

theorem week_mem_of_not_restricts (h : ¬ f.weeks.Restricts) (d : Date) : d.weekOfMonth ∈ f.weeks :=
  Selection.mem_of_not_restricts h (weekOfMonth_bounds d)

/-! ## Away from the end of the range -/

/-- The date is in the range, and the range does not end within the next year. -/
def Roomy (d : Date) : Prop := -262143 ≤ d.year ∧ d.year ≤ 262140

theorem Roomy.bounds (h : Roomy d) :
    first.dayNumber ≤ d.dayNumber ∧ d.dayNumber + 366 ≤ last.dayNumber := by
  have hf := first_eq
  have hl : monthBegin (12 * 262141) + 366 ≤ last.dayNumber := by decide
  have hy := (monthIndex_spec d).1
  have hi := (monthIndex_eq_iff (d := d)).1 rfl
  have h₁ := monthBegin_le (i := 12 * -262143) (j := d.monthIndex)
  have h₂ := monthBegin_le (i := d.monthIndex + 1) (j := 12 * 262141)
  obtain ⟨_, _⟩ := h
  omega

theorem Roomy.advance (h : Roomy d) {n : Nat} (hn : n ≤ 366) : d.advance n = .ok (d.plusDays n) := by
  have := h.bounds
  rw [Date.advance, if_pos]
  simp only [InRange, le_def, dayNumber_plusDays]
  omega

theorem firstOfMonth_eq {y : Int} {m : Nat} (hm : 1 ≤ m ∧ m ≤ 12) (hy : -262143 ≤ y ∧ y ≤ 262142) :
    firstOfMonth y m = monthFirst (12 * y + m - 1) := by
  have hv : CivilDate.Valid ⟨y, m, 1⟩ := by
    have := monthLength_bounds y m
    simp only [CivilDate.Valid]; omega
  have hr : (ofCivil ⟨y, m, 1⟩).InRange := by
    rw [inRange_iff, year, civil_ofCivil hv]; exact hy
  have he := dayNumber_ofCivil (c := ⟨y, m, 1⟩) hm
  rw [firstOfMonth, ofCivil?, if_pos ⟨hv, hr⟩, Option.getD_some]
  ext
  rw [he, dayNumber_monthFirst]
  simp only [CivilDate.monthIndex]; omega

theorem firstOfNextMonth_eq (h : Roomy d) : firstOfNextMonth d = monthFirst (d.monthIndex + 1) := by
  obtain ⟨hy, hm, -⟩ := monthIndex_spec d
  obtain ⟨_, _⟩ := h
  unfold firstOfNextMonth
  split
  · rw [firstOfMonth_eq (by omega) (by omega)]; congr 1; omega
  · rw [firstOfMonth_eq (by omega) (by omega)]; congr 1; omega

theorem lastDayOfMonth_eq (h : Roomy d) : lastDayOfMonth d = monthDays d.monthIndex := by
  have hs := monthBegin_succ d.monthIndex
  have hb := monthDays_bounds d.monthIndex
  let e := (monthFirst (d.monthIndex + 1)).plusDays (-1)
  have he : e.dayNumber = monthBegin (d.monthIndex + 1) - 1 := rfl
  have hi : e.monthIndex = d.monthIndex := by rw [monthIndex_eq_iff]; omega
  have hd := day_eq e
  rw [hi] at hd
  rw [lastDayOfMonth, firstOfNextMonth_eq h]
  show e.day = _
  omega

/-! ## One part of the filter at a time -/

theorem toMonth_spec (h : Roomy d) (months : Selection 1 12) :
    IsFirst (·.month ∈ months) d (toMonth months d) ∧
      (toMonth months d = d ∨
        ∃ i, toMonth months d = monthFirst i ∧ d.monthIndex < i ∧ i < d.monthIndex + 12) := by
  obtain ⟨hy, hm, -⟩ := monthIndex_spec d
  obtain ⟨_, _⟩ := h
  have later {i : Int} (hi : d.monthIndex < i) (hmem : (monthFirst i).month ∈ months)
      (hno : ∀ e : Date, d.monthIndex ≤ e.monthIndex → e.monthIndex < i → e.month ∉ months) :
      IsFirst (·.month ∈ months) d (monthFirst i) := by
    refine ⟨Date.le_of_lt (lt_of_monthIndex_lt (by rwa [monthIndex_monthFirst])), hmem,
      fun e hde hei => hno e (monthIndex_mono hde) ?_⟩
    have he := (monthIndex_eq_iff (d := e)).1 rfl
    rw [lt_def, dayNumber_monthFirst] at hei
    exact monthBegin_strictMono.lt_iff_lt.1 (by omega)
  unfold toMonth
  cases hf : months.from? d.month with
  | none =>
    rw [Selection.from?_eq_none_iff] at hf
    have hl := Selection.bounds_of_mem months.least_mem
    have hd := hf _ months.least_mem
    simp only
    rw [firstOfMonth_eq hl (by omega)]
    have hi := (monthIndex_spec (monthFirst (12 * (d.year + 1) + months.least - 1))).2.1
    rw [monthIndex_monthFirst] at hi
    refine ⟨later (by omega) ?_ fun e h₁ h₂ he => ?_, .inr ⟨_, rfl, by omega, by omega⟩⟩
    · rw [show (monthFirst (12 * (d.year + 1) + months.least - 1)).month = months.least by omega]
      exact months.least_mem
    · have hem := (monthIndex_spec e).2.1
      have := hf _ he
      have := Selection.least_le he
      omega
  | some m =>
    obtain ⟨hmem, hle, hmin⟩ := Selection.from?_eq_some_iff.1 hf
    have hb := Selection.bounds_of_mem hmem
    simp only
    split
    · next he =>
      exact ⟨.of_holds (he ▸ hmem), .inl rfl⟩
    · next hne =>
      rw [firstOfMonth_eq hb (by omega)]
      have hi := (monthIndex_spec (monthFirst (12 * d.year + m - 1))).2.1
      rw [monthIndex_monthFirst] at hi
      refine ⟨later (by omega) ?_ fun e h₁ h₂ he => ?_, .inr ⟨_, rfl, by omega, by omega⟩⟩
      · rw [show (monthFirst (12 * d.year + m - 1)).month = m by omega]
        exact hmem
      · have hem := (monthIndex_spec e).2.1
        have := hmin _ he (by omega)
        omega

theorem toDay_spec (h : Roomy d) (days : Selection 1 31) :
    ∃ d', toDay days d = .ok d' ∧ d ≤ d' ∧ (∀ e, d ≤ e → e < d' → e.day ∉ days) ∧
      (d'.monthIndex = d.monthIndex ∧ d'.day ∈ days ∨ d' = monthFirst (d.monthIndex + 1)) := by
  obtain ⟨-, -, hd, h₁, h₂⟩ := monthIndex_spec d
  have hs := monthBegin_succ d.monthIndex
  have next (hno : ∀ k ∈ days, d.day ≤ k → monthDays d.monthIndex < k) :
      d ≤ monthFirst (d.monthIndex + 1) ∧
        ∀ e, d ≤ e → e < monthFirst (d.monthIndex + 1) → e.day ∉ days := by
    refine ⟨by rw [le_def, dayNumber_monthFirst]; omega, ?_⟩
    intro e hde hen he
    simp only [le_def, lt_def, dayNumber_monthFirst] at hde hen
    have hi : e.monthIndex = d.monthIndex := by rw [monthIndex_eq_iff]; omega
    have hed := day_eq e
    rw [hi] at hed
    have := hno _ he (by omega)
    omega
  rw [toDay, lastDayOfMonth_eq h, if_neg (by omega)]
  cases hf : days.from? d.day with
  | none =>
    rw [Selection.from?_eq_none_iff] at hf
    simp only
    rw [firstOfNextMonth_eq h]
    obtain ⟨hle, hno⟩ := next fun k hk hdk => by have := hf k hk; omega
    exact ⟨_, rfl, hle, hno, .inr rfl⟩
  | some k =>
    obtain ⟨hmem, hle, hmin⟩ := Selection.from?_eq_some_iff.1 hf
    have hk := Selection.bounds_of_mem hmem
    simp only
    split
    · next hlen =>
      rw [h.advance (by omega)]
      have hn : (d.plusDays (k - d.day : Nat)).dayNumber = d.dayNumber + k - d.day := by
        rw [dayNumber_plusDays]; omega
      have hi : (d.plusDays (k - d.day : Nat)).monthIndex = d.monthIndex := by
        rw [monthIndex_eq_iff]; omega
      have hday := day_eq (d.plusDays (k - d.day : Nat))
      rw [hi] at hday
      refine ⟨_, rfl, by rw [le_def]; omega, fun e hde hen he => ?_, .inl ⟨hi, ?_⟩⟩
      · simp only [le_def, lt_def] at hde hen
        have hei : e.monthIndex = d.monthIndex := by rw [monthIndex_eq_iff]; omega
        have hed := day_eq e
        rw [hei] at hed
        have := hmin _ he (by omega)
        omega
      · rw [show (d.plusDays (k - d.day : Nat)).day = k by omega]; exact hmem
    · next hlen =>
      rw [firstOfNextMonth_eq h]
      obtain ⟨hle, hno⟩ := next fun j hj hdj => by have := hmin j hj hdj; omega
      exact ⟨_, rfl, hle, hno, .inr rfl⟩

/-- The search by weekday goes at most six days on, wherever it starts. -/
theorem toWeekday_eq (weekdays : Selection 0 6) (d : Date) : ∃ n : Nat, n ≤ 6 ∧
    toWeekday weekdays d = d.advance n ∧ IsFirst (·.weekday ∈ weekdays) d (d.plusDays n) := by
  have hd := weekday_eq d
  have ahead {n : Nat} {w : Nat} (hw : w ∈ weekdays) (he : (d.weekday + n) % 7 = w)
      (hno : ∀ k < n, (d.weekday + k) % 7 ∉ weekdays) :
      IsFirst (·.weekday ∈ weekdays) d (d.plusDays n) := by
    have hday := weekday_eq (d.plusDays n)
    rw [dayNumber_plusDays] at hday
    refine ⟨?_, ?_, fun e hde hen hmem => ?_⟩
    · rw [le_def, dayNumber_plusDays]; omega
    · rw [show (d.plusDays n).weekday = w by omega]; exact hw
    · simp only [le_def, lt_def, dayNumber_plusDays] at hde hen
      have hew := weekday_eq e
      apply hno (e.dayNumber - d.dayNumber).toNat (by omega)
      rw [show (d.weekday + (e.dayNumber - d.dayNumber).toNat) % 7 = e.weekday by omega]
      exact hmem
  unfold toWeekday
  cases hf : weekdays.from? d.weekday with
  | none =>
    rw [Selection.from?_eq_none_iff] at hf
    have hl := hf _ weekdays.least_mem
    refine ⟨_, by omega, rfl, ahead weekdays.least_mem (by omega) fun k hk hmem => ?_⟩
    have := hf _ hmem
    have := Selection.least_le hmem
    omega
  | some w =>
    obtain ⟨hmem, hle, hmin⟩ := Selection.from?_eq_some_iff.1 hf
    have hb := Selection.bounds_of_mem hmem
    refine ⟨_, by omega, rfl, ahead hmem (by omega) fun k hk hmem' => ?_⟩
    have := hmin _ hmem' (by omega)
    omega

theorem toWeekday_spec (h : Roomy d) (weekdays : Selection 0 6) :
    ∃ d', toWeekday weekdays d = .ok d' ∧ IsFirst (·.weekday ∈ weekdays) d d' ∧
      d'.dayNumber ≤ d.dayNumber + 6 := by
  obtain ⟨n, hn, heq, hfirst⟩ := toWeekday_eq weekdays d
  refine ⟨_, heq.trans (h.advance (by omega)), hfirst, ?_⟩
  rw [dayNumber_plusDays]
  omega

/-- Where the search by week goes. A jump to a later week keeps the weekday and may overrun the
end of the month. -/
inductive WeekMove (weeks : Selection 1 5) (d d' : Date) : Prop
  | stay (mem : d.weekOfMonth ∈ weeks) (eq : d' = d)
  | jump (w : Nat) (mem : w ∈ weeks) (lt : d.weekOfMonth < w)
      (min : ∀ k ∈ weeks, d.weekOfMonth ≤ k → w ≤ k)
      (eq : d'.dayNumber = d.dayNumber + 7 * (w - d.weekOfMonth))
  | leave (none : ∀ k ∈ weeks, k < d.weekOfMonth) (eq : d' = monthFirst (d.monthIndex + 1))

theorem toWeek_spec (h : Roomy d) (weeks : Selection 1 5) :
    ∃ d', toWeek weeks d = .ok d' ∧ WeekMove weeks d d' := by
  unfold toWeek
  cases hf : weeks.from? d.weekOfMonth with
  | none =>
    rw [Selection.from?_eq_none_iff] at hf
    exact ⟨_, rfl, .leave hf (firstOfNextMonth_eq h)⟩
  | some w =>
    obtain ⟨hmem, hle, hmin⟩ := Selection.from?_eq_some_iff.1 hf
    have hb := Selection.bounds_of_mem hmem
    have hw := weekOfMonth_bounds d
    refine ⟨_, h.advance (by omega), ?_⟩
    rcases Nat.lt_or_eq_of_le hle with hlt | heq
    · exact .jump w hmem hlt hmin (by rw [dayNumber_plusDays]; omega)
    · exact .stay (heq ▸ hmem) (Date.ext (by rw [dayNumber_plusDays]; omega))

end DateSearch

end Recurrence
