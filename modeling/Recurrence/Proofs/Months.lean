import Mathlib
import Recurrence.Civil.Date
/-!
# Months on the line of days

Months are numbered from January of the year 0, and `monthBegin i` is the day on which month `i`
begins. Months follow each other without gaps (`monthBegin_succ`), each has 28 to 31 days, and a
date lies in exactly one of them (`monthIndex_eq_iff`). Year, month and day of a date are read off
the number of its month, so that questions about dates become questions about integers.
-/

namespace Recurrence

/-- The number of the month of a year, month and day, counted from January of the year 0. -/
def CivilDate.monthIndex (c : CivilDate) : Int := 12 * c.year + c.month - 1

namespace Date

/-! ## Years from March to February -/

theorem yearStart_add_one (y : Int) :
    yearStart (y + 1) = yearStart y + if IsLeapYear (y + 1) then 366 else 365 := by
  by_cases h : IsLeapYear (y + 1)
  · rw [if_pos h]; simp only [yearStart, IsLeapYear] at h ⊢; omega
  · rw [if_neg h]; simp only [yearStart, IsLeapYear] at h ⊢; omega

theorem yearStart_parts {e c k r : Int} (hc : 0 ≤ c ∧ c ≤ 3) (hk : 0 ≤ k ∧ k ≤ 24)
    (hr : 0 ≤ r ∧ r ≤ 3) :
    yearStart (400 * e + 100 * c + 4 * k + r) = 146097 * e + 36524 * c + 1461 * k + 365 * r := by
  have h1 : (400 * e + 100 * c + 4 * k + r) / 4 = 100 * e + 25 * c + k := by omega
  have h2 : (400 * e + 100 * c + 4 * k + r) / 100 = 4 * e + c := by omega
  have h3 : (400 * e + 100 * c + 4 * k + r) / 400 = e := by omega
  unfold yearStart
  omega

/-- The cycle, century, four years and year that a day lies in, and the day within that year. -/
theorem yearOfDay_parts (n : Int) : ∃ e c k r d : Int,
    yearOfDay n = 400 * e + 100 * c + 4 * k + r ∧
    n = 146097 * e + 36524 * c + 1461 * k + 365 * r + d ∧
    (0 ≤ c ∧ c ≤ 3) ∧ (0 ≤ k ∧ k ≤ 24) ∧ (0 ≤ r ∧ r ≤ 3) ∧ 0 ≤ d ∧ d ≤ 365 ∧
    (d = 365 → r = 3 ∧ (k = 24 → c = 3)) :=
  ⟨n / 146097, min 3 (n % 146097 / 36524), (n % 146097 - 36524 * min 3 (n % 146097 / 36524)) / 1461,
    min 3 ((n % 146097 - 36524 * min 3 (n % 146097 / 36524)) % 1461 / 365),
    (n % 146097 - 36524 * min 3 (n % 146097 / 36524)) % 1461 -
      365 * min 3 ((n % 146097 - 36524 * min 3 (n % 146097 / 36524)) % 1461 / 365),
    rfl, by omega⟩

theorem yearStart_yearOfDay_le (n : Int) : yearStart (yearOfDay n) ≤ n := by
  obtain ⟨e, c, k, r, d, hy, hn, hc, hk, hr, h⟩ := yearOfDay_parts n
  rw [hy, yearStart_parts hc hk hr]
  omega

theorem lt_yearStart_yearOfDay (n : Int) : n < yearStart (yearOfDay n + 1) := by
  obtain ⟨e, c, k, r, d, hy, hn, hc, hk, hr, h⟩ := yearOfDay_parts n
  rw [yearStart_add_one, hy, yearStart_parts hc hk hr]
  by_cases hl : IsLeapYear (400 * e + 100 * c + 4 * k + r + 1)
  · rw [if_pos hl]; omega
  · rw [if_neg hl]; simp only [IsLeapYear] at hl; omega

/-! ## Months -/

theorem monthLength_bounds (y : Int) (m : Nat) : 28 ≤ monthLength y m ∧ monthLength y m ≤ 31 := by
  unfold monthLength
  split
  · split <;> omega
  · split <;> omega

/-- Where the twelve months of a year that begins with March start and how long they are. -/
theorem monthStart_add_length {y : Int} {m : Int} (h : 0 ≤ m) (h' : m < 11) :
    monthStart (m + 1) = monthStart m +
      monthLength y (if m < 10 then (m + 3).toNat else (m - 9).toNat) := by
  obtain h | h | h | h | h | h | h | h | h | h | h : m = 0 ∨ m = 1 ∨ m = 2 ∨ m = 3 ∨ m = 4 ∨ m = 5 ∨
      m = 6 ∨ m = 7 ∨ m = 8 ∨ m = 9 ∨ m = 10 := by omega
  all_goals subst h; simp [monthStart, monthLength]

/-- The month that a day of the year lies in. -/
theorem monthOfDay_spec {n : Int} (h : 0 ≤ n) (h' : n ≤ 365) :
    0 ≤ monthOfDay n ∧ monthOfDay n ≤ 11 ∧ monthStart (monthOfDay n) ≤ n ∧
      (monthOfDay n < 11 → n < monthStart (monthOfDay n + 1)) := by
  simp only [monthOfDay, monthStart]; omega

theorem valid_civil (d : Date) : d.civil.Valid := by
  have h₁ := yearStart_yearOfDay_le (d.dayNumber + marchShift)
  have h₂ := lt_yearStart_yearOfDay (d.dayNumber + marchShift)
  rw [yearStart_add_one] at h₂
  simp only [civil]
  generalize yearOfDay (d.dayNumber + marchShift) = y at *
  generalize hn : d.dayNumber + marchShift - yearStart y = n at *
  have hn' : n < if IsLeapYear (y + 1) then 366 else 365 := by omega
  obtain ⟨hm, hm', hs, he⟩ := monthOfDay_spec (n := n) (by omega) (by split at hn' <;> omega)
  generalize monthOfDay n = m at *
  by_cases hf : m = 11
  · subst hf
    rw [if_neg (by omega)]
    simp only [CivilDate.Valid, monthLength, monthStart] at hs ⊢
    split at hn' <;> simp_all <;> omega
  · have hl := monthStart_add_length (y := if m < 10 then y else y + 1) hm (by omega)
    have he := he (by omega)
    by_cases hj : m < 10
    · simp only [if_pos hj, CivilDate.Valid] at hl ⊢; omega
    · simp only [if_neg hj, CivilDate.Valid] at hl ⊢; omega

/-- A date is given back by its year, month and day. -/
theorem ofCivil_civil (d : Date) : ofCivil d.civil = d := by
  have h₁ := yearStart_yearOfDay_le (d.dayNumber + marchShift)
  have h₂ := lt_yearStart_yearOfDay (d.dayNumber + marchShift)
  rw [yearStart_add_one] at h₂
  simp only [civil]
  generalize yearOfDay (d.dayNumber + marchShift) = y at *
  generalize hn : d.dayNumber + marchShift - yearStart y = n at *
  obtain ⟨hm, hm', hs, -⟩ := monthOfDay_spec (n := n) (by omega) (by split at h₂ <;> omega)
  generalize monthOfDay n = m at *
  ext
  by_cases hj : m < 10
  · have e : ((m + 3).toNat : Int) - 3 = m := by omega
    simp only [if_pos hj, ofCivil, e, if_neg (show ¬ (m + 3).toNat ≤ 2 by omega)]; omega
  · have e : ((m - 9).toNat : Int) + 9 = m := by omega
    simp only [if_neg hj, ofCivil, e, if_pos (show (m - 9).toNat ≤ 2 by omega), Int.add_sub_cancel]
    omega

/-! ## Months by number -/

/-- The number of the month that a date lies in. -/
def monthIndex (d : Date) : Int := d.civil.monthIndex

/-- The day number of the first day of month `i`. -/
def monthBegin (i : Int) : Int := (ofCivil ⟨i / 12, (i % 12).toNat + 1, 1⟩).dayNumber

/-- The number of days of month `i`. -/
def monthDays (i : Int) : Nat := monthLength (i / 12) ((i % 12).toNat + 1)

theorem monthDays_bounds (i : Int) : 28 ≤ monthDays i ∧ monthDays i ≤ 31 := monthLength_bounds _ _

theorem monthDays_of_ne_february {i : Int} (h : i % 12 ≠ 1) : 30 ≤ monthDays i := by
  simp only [monthDays, monthLength]
  rw [if_neg (by omega)]
  split <;> omega

theorem monthBegin_succ (i : Int) : monthBegin (i + 1) = monthBegin i + monthDays i := by
  have hy := yearStart_add_one (i / 12 - 1)
  rw [Int.sub_add_cancel] at hy
  simp only [monthBegin, monthDays]
  obtain ⟨h, h'⟩ | ⟨h, h'⟩ : i % 12 = 11 ∧ (i + 1) / 12 = i / 12 + 1 ∨
      i % 12 < 11 ∧ (i + 1) / 12 = i / 12 := by omega
  · have e : (i + 1) % 12 = 0 := by omega
    simp [h, h', e, ofCivil, monthStart, monthLength]; omega
  · have e : (i + 1) % 12 = i % 12 + 1 := by omega
    rw [h', e]
    generalize i / 12 = y at *
    by_cases hf : i % 12 = 1
    · simp only [hf, ofCivil, monthStart, monthLength]
      split at hy <;> simp_all <;> omega
    · obtain h | h | h | h | h | h | h | h | h | h : i % 12 = 0 ∨ i % 12 = 2 ∨ i % 12 = 3 ∨
          i % 12 = 4 ∨ i % 12 = 5 ∨ i % 12 = 6 ∨ i % 12 = 7 ∨ i % 12 = 8 ∨ i % 12 = 9 ∨
          i % 12 = 10 := by omega
      all_goals simp [h, ofCivil, monthStart, monthLength]; omega

theorem monthBegin_strictMono : StrictMono monthBegin :=
  strictMono_int_of_lt_succ fun i => by
    have := monthDays_bounds i
    rw [monthBegin_succ]; omega

theorem monthBegin_le {i j : Int} : monthBegin i ≤ monthBegin j ↔ i ≤ j :=
  monthBegin_strictMono.le_iff_le

/-- Where year, month and day of a date are found on the line of days. -/
theorem monthIndex_spec (d : Date) :
    d.year = d.monthIndex / 12 ∧ (d.month : Int) = d.monthIndex % 12 + 1 ∧
      d.dayNumber = monthBegin d.monthIndex + d.day - 1 ∧ 1 ≤ d.day ∧
      d.day ≤ monthDays d.monthIndex := by
  obtain ⟨h₁, h₂, h₃, h₄⟩ := valid_civil d
  have hy : d.monthIndex / 12 = d.year := by simp only [monthIndex, CivilDate.monthIndex, year]; omega
  have hm : d.monthIndex % 12 + 1 = d.month := by simp only [monthIndex, CivilDate.monthIndex, month]; omega
  have hm' : (d.monthIndex % 12).toNat + 1 = d.month := by omega
  refine ⟨hy.symm, hm.symm, ?_, h₃, ?_⟩
  · have h := congrArg dayNumber (ofCivil_civil d)
    simp only [monthBegin, hy, hm']
    simp only [ofCivil, year, month, day] at h ⊢
    omega
  · simp only [monthDays, hy, hm']; exact h₄

/-- A date lies in month `i` if that month has begun and the next one has not. -/
theorem monthIndex_eq_iff {d : Date} {i : Int} :
    d.monthIndex = i ↔ monthBegin i ≤ d.dayNumber ∧ d.dayNumber < monthBegin (i + 1) := by
  obtain ⟨-, -, hd, h, h'⟩ := monthIndex_spec d
  have hs := monthBegin_succ d.monthIndex
  constructor
  · rintro rfl; omega
  · rintro ⟨hb, he⟩
    have h₁ : monthBegin i < monthBegin (d.monthIndex + 1) := by omega
    have h₂ : monthBegin d.monthIndex < monthBegin (i + 1) := by omega
    rw [monthBegin_strictMono.lt_iff_lt] at h₁ h₂
    omega

theorem monthIndex_mono {d e : Date} (h : d ≤ e) : d.monthIndex ≤ e.monthIndex := by
  have hd := (monthIndex_eq_iff (d := d)).1 rfl
  have he := (monthIndex_eq_iff (d := e)).1 rfl
  have hlt : monthBegin d.monthIndex < monthBegin (e.monthIndex + 1) := by
    rw [le_def] at h; omega
  rw [monthBegin_strictMono.lt_iff_lt] at hlt
  omega

theorem lt_of_monthIndex_lt {d e : Date} (h : d.monthIndex < e.monthIndex) : d < e := by
  by_contra hlt
  have := monthIndex_mono (Date.not_lt.1 hlt)
  omega

theorem year_mono {d e : Date} (h : d ≤ e) : d.year ≤ e.year := by
  have := monthIndex_mono h
  have hd := (monthIndex_spec d).1
  have he := (monthIndex_spec e).1
  omega

theorem year_plusDays_one (d : Date) :
    d.year ≤ (d.plusDays 1).year ∧ (d.plusDays 1).year ≤ d.year + 1 := by
  refine ⟨year_mono (by rw [le_def, dayNumber_plusDays]; omega), ?_⟩
  have hd := (monthIndex_eq_iff (d := d)).1 rfl
  have he := (monthIndex_eq_iff (d := d.plusDays 1)).1 rfl
  have hs := monthBegin_succ (d.monthIndex + 1)
  have hb := monthDays_bounds (d.monthIndex + 1)
  rw [dayNumber_plusDays] at he
  have hi := (monthBegin_strictMono.lt_iff_lt
    (a := (d.plusDays 1).monthIndex) (b := d.monthIndex + 1 + 1)).1 (by omega)
  have hy := (monthIndex_spec d).1
  have hy' := (monthIndex_spec (d.plusDays 1)).1
  omega

/-! ## Weeks of a month and days of the week -/

theorem day_eq (d : Date) : (d.day : Int) = d.dayNumber - monthBegin d.monthIndex + 1 := by
  have := monthIndex_spec d
  omega

theorem weekOfMonth_eq (d : Date) :
    (d.weekOfMonth : Int) = (d.dayNumber - monthBegin d.monthIndex) / 7 + 1 := by
  have := day_eq d
  unfold weekOfMonth
  omega

theorem weekOfMonth_bounds (d : Date) : 1 ≤ d.weekOfMonth ∧ d.weekOfMonth ≤ 5 := by
  have := monthIndex_spec d
  have := monthDays_bounds d.monthIndex
  unfold weekOfMonth
  omega

theorem weekday_eq (d : Date) : (d.weekday : Int) = (d.dayNumber + 3) % 7 := by
  unfold weekday
  omega

theorem weekday_le (d : Date) : d.weekday ≤ 6 := by
  have := weekday_eq d
  omega

/-- What lies between two dates of one week of a month lies in that week. -/
theorem same_week_of_between {d c e : Date} (hdc : d ≤ c) (hce : c ≤ e) (hi : e.monthIndex = d.monthIndex)
    (hw : e.weekOfMonth = d.weekOfMonth) :
    c.monthIndex = d.monthIndex ∧ c.weekOfMonth = d.weekOfMonth := by
  have h₁ := monthIndex_mono hdc
  have h₂ := monthIndex_mono hce
  have hci : c.monthIndex = d.monthIndex := by omega
  have hd := weekOfMonth_eq d
  have hc := weekOfMonth_eq c
  have he := weekOfMonth_eq e
  rw [hi] at he
  rw [hci] at hc
  rw [le_def] at hdc hce
  exact ⟨hci, by omega⟩

/-! ## Dates of existing days -/

theorem dayNumber_ofCivil {c : CivilDate} (h : 1 ≤ c.month ∧ c.month ≤ 12) :
    (ofCivil c).dayNumber = monthBegin c.monthIndex + c.day - 1 := by
  have hy : c.monthIndex / 12 = c.year := by simp only [CivilDate.monthIndex]; omega
  have hm : (c.monthIndex % 12).toNat + 1 = c.month := by simp only [CivilDate.monthIndex]; omega
  simp only [monthBegin, hy, hm]
  simp only [ofCivil]; omega

/-- Year, month and day of a date that was made of them. -/
theorem civil_ofCivil {c : CivilDate} (h : c.Valid) : (ofCivil c).civil = c := by
  obtain ⟨h₁, h₂, h₃, h₄⟩ := h
  have hd := dayNumber_ofCivil (c := c) ⟨h₁, h₂⟩
  have hy : c.monthIndex / 12 = c.year := by simp only [CivilDate.monthIndex]; omega
  have hm : (c.monthIndex % 12).toNat + 1 = c.month := by simp only [CivilDate.monthIndex]; omega
  have hi : (ofCivil c).monthIndex = c.monthIndex := by
    rw [monthIndex_eq_iff, monthBegin_succ, monthDays, hy, hm]; omega
  obtain ⟨hy', hm', hd', -⟩ := monthIndex_spec (ofCivil c)
  rw [hi] at hy' hm' hd'
  ext
  · exact hy'.trans hy
  · show (ofCivil c).month = c.month; omega
  · show (ofCivil c).day = c.day; omega

/-! ## The range of dates -/

theorem first_eq : first.dayNumber = monthBegin (12 * -262143) := by decide

theorem last_eq : last.dayNumber + 1 = monthBegin (12 * 262143) := by decide

theorem year_bounds_iff {d : Date} {a b : Int} : a ≤ d.year ∧ d.year ≤ b ↔
    monthBegin (12 * a) ≤ d.dayNumber ∧ d.dayNumber < monthBegin (12 * (b + 1)) := by
  have hy := (monthIndex_spec d).1
  have hi := (monthIndex_eq_iff (d := d)).1 rfl
  have h₁ : monthBegin (12 * a) < monthBegin (d.monthIndex + 1) ↔ 12 * a < d.monthIndex + 1 :=
    monthBegin_strictMono.lt_iff_lt
  have h₂ : monthBegin d.monthIndex < monthBegin (12 * (b + 1)) ↔ d.monthIndex < 12 * (b + 1) :=
    monthBegin_strictMono.lt_iff_lt
  have h₃ := monthBegin_le (i := 12 * a) (j := d.monthIndex)
  have h₄ := monthBegin_le (i := d.monthIndex + 1) (j := 12 * (b + 1))
  omega

theorem inRange_iff {d : Date} : d.InRange ↔ -262143 ≤ d.year ∧ d.year ≤ 262142 := by
  have hf := first_eq
  have hl : last.dayNumber + 1 = monthBegin (12 * (262142 + 1)) := last_eq
  rw [year_bounds_iff]
  simp only [InRange, le_def]
  omega

/-- The year is more than a hundred years away from either end of the range. -/
def Mild (d : Date) : Prop := -262000 ≤ d.year ∧ d.year ≤ 262000

instance (d : Date) : Decidable d.Mild := inferInstanceAs (Decidable (_ ∧ _))

end Date

end Recurrence
