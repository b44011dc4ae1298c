import Recurrence.Proofs.Months
import Recurrence.Schedule.DateFilter
/-!
# Kinds of years

For a date filter, years differ in being leap years and in the weekday that they begin with. Each
of these fourteen kinds comes back within sixty years (`exists_sameKind`), so a filter that accepts
some date at all accepts one within sixty years from any other (`DateFilter.exists_accepts_from`).
From 2000 to 2027 all of them occur (`exists_sameKind_sample`).
-/

namespace Recurrence

namespace Date

/-- Two years have the same months, on the same weekdays. -/
def SameKind (y y' : Int) : Prop :=
  (IsLeapYear y ↔ IsLeapYear y') ∧ yearStart (y - 1) % 7 = yearStart (y' - 1) % 7

/-- Days from the year 0 to year `n`, less full weeks for each year. -/
private def dayShift (n : Nat) : Nat := n + n / 4 + n / 400 - n / 100

private theorem yearStart_eq (q : Int) (n : Nat) :
    yearStart (400 * q + n) = 146097 * q + 364 * n + dayShift n := by
  have h1 : (400 * q + n) / 4 = 100 * q + n / 4 := by omega
  have h2 : (400 * q + n) / 100 = 4 * q + n / 100 := by omega
  have h3 : (400 * q + n) / 400 = q + n / 400 := by omega
  simp only [yearStart, dayShift, h1, h2, h3]
  omega

/-- The weekday that year `n + 1` begins with, up to a shift, and on top of it whether it is a
leap year, in one number from 1 to 14. -/
private def kindCode (n : Nat) : Nat := 2 * (dayShift n % 7) + (dayShift (n + 1) - dayShift n)

private theorem kindCode_eq (q : Int) (n : Nat) :
    (kindCode n : Int) = 2 * (yearStart (400 * q + n) % 7) +
      if IsLeapYear (400 * q + n + 1) then 2 else 1 := by
  have h := yearStart_add_one (400 * q + n)
  have hn := yearStart_eq q n
  have hs := yearStart_eq q (n + 1)
  rw [Int.natCast_add, Int.natCast_one, ← Int.add_assoc] at hs
  unfold kindCode
  by_cases hl : IsLeapYear (400 * q + n + 1)
  · rw [if_pos hl] at h ⊢; omega
  · rw [if_neg hl] at h ⊢; omega

private theorem sameKind_of_kindCode {q p : Int} {n k : Nat} (h : kindCode n = kindCode k) :
    SameKind (400 * q + n + 1) (400 * p + k + 1) := by
  have hn := kindCode_eq q n
  have hk := kindCode_eq p k
  rw [SameKind, Int.add_sub_cancel, Int.add_sub_cancel]
  generalize 400 * p + (k : Int) = z at *
  generalize 400 * q + (n : Int) = x at *
  by_cases hx : IsLeapYear (x + 1) <;> by_cases hz : IsLeapYear (z + 1) <;>
    simp only [hx, hz, if_true, if_false, true_iff, false_iff, not_true, true_and,
      false_and] at hn hk ⊢ <;> omega

private theorem kindCode_bounds (n : Nat) : 1 ≤ kindCode n ∧ kindCode n ≤ 14 := by
  have h := kindCode_eq 0 n
  split at h <;> omega

/-- Any forty years from a multiple of twenty on hold all kinds. -/
private theorem kindCode_covers :
    ∀ j ∈ List.range 20, ∀ c ∈ List.range 14, ∃ k ∈ List.range 40, kindCode (20 * j + k) = c + 1 := by
  decide +kernel

/-- So do the 28 years from 2000 on. -/
private theorem kindCode_covers_sample :
    ∀ c ∈ List.range 14, ∃ k ∈ List.range 28, kindCode (399 + k) = c + 1 := by
  decide +kernel

theorem exists_year_eq (y : Int) : ∃ q : Int, ∃ n : Nat, y = 400 * q + n + 1 :=
  ⟨(y - 1) / 400, ((y - 1) % 400).toNat, by omega⟩

/-- Each kind of year comes back within sixty years. -/
theorem exists_sameKind (y start : Int) : ∃ y', start ≤ y' ∧ y' < start + 60 ∧ SameKind y y' := by
  obtain ⟨q, n, rfl⟩ := exists_year_eq y
  obtain ⟨p, j, hj, hp⟩ : ∃ p : Int, ∃ j : Nat, j < 20 ∧ start - 1 ≤ 400 * p + 20 * j ∧
      400 * p + 20 * j < start + 19 :=
    ⟨(start + 18) / 400, ((start + 18) / 20 % 20).toNat, by omega, by omega⟩
  have hn := kindCode_bounds n
  obtain ⟨k, hk, hc⟩ := kindCode_covers j (List.mem_range.2 hj) (kindCode n - 1)
    (List.mem_range.2 (by omega))
  rw [List.mem_range] at hk
  exact ⟨400 * p + (20 * j + k : Nat) + 1, by omega, by omega, sameKind_of_kindCode (by omega)⟩

/-- Each kind of year occurs from 2000 to 2027. -/
theorem exists_sameKind_sample (y : Int) : ∃ y', 2000 ≤ y' ∧ y' < 2028 ∧ SameKind y y' := by
  obtain ⟨q, n, rfl⟩ := exists_year_eq y
  have hn := kindCode_bounds n
  obtain ⟨k, hk, hc⟩ := kindCode_covers_sample (kindCode n - 1) (List.mem_range.2 (by omega))
  rw [List.mem_range] at hk
  exact ⟨400 * 4 + (399 + k : Nat) + 1, by omega, by omega, sameKind_of_kindCode (by omega)⟩

/-! ## Months of years of one kind -/

theorem monthBegin_year (y : Int) : monthBegin (12 * y) = yearStart (y - 1) + 306 - marchShift := by
  have e : 12 * y % 12 = 0 := by omega
  simp [monthBegin, ofCivil, monthStart, e]

theorem SameKind.monthDays {y y' : Int} (h : SameKind y y') {m : Nat} (hm : m < 12) :
    monthDays (12 * y' + m) = monthDays (12 * y + m) := by
  have e (y : Int) : (12 * y + m) / 12 = y := by omega
  have e' (y : Int) : ((12 * y + m) % 12).toNat = m := by omega
  simp only [Date.monthDays, monthLength, e, e', h.1]

theorem SameKind.monthBegin {y y' : Int} (h : SameKind y y') {m : Nat} (hm : m < 12) :
    monthBegin (12 * y' + m) - monthBegin (12 * y + m) = yearStart (y' - 1) - yearStart (y - 1) := by
  induction m with
  | zero => simp only [Int.natCast_zero, Int.add_zero, monthBegin_year]; omega
  | succ m ih =>
    have ih := ih (by omega)
    have hd := h.monthDays (m := m) (by omega)
    simp only [Int.natCast_add, Int.natCast_one, ← Int.add_assoc, monthBegin_succ]
    omega

/-- The same month and day fall on the same weekday in years of one kind. -/
theorem SameKind.exists_date {d : Date} {y' : Int} (hk : SameKind d.year y') : ∃ e : Date,
    e.year = y' ∧ e.month = d.month ∧ e.day = d.day ∧ e.weekday = d.weekday := by
  obtain ⟨m, hm, hi⟩ : ∃ m : Nat, m < 12 ∧ d.monthIndex = 12 * d.year + m :=
    ⟨(d.monthIndex % 12).toNat, by omega, by have := (monthIndex_spec d).1; omega⟩
  obtain ⟨hy, hmo, hd, h₁, h₂⟩ := monthIndex_spec d
  have hb := hk.monthBegin hm
  have hl := hk.monthDays hm
  rw [hi] at hd h₂ hmo
  let e : Date := ⟨Date.monthBegin (12 * y' + m) + d.day - 1⟩
  have he : e.dayNumber = Date.monthBegin (12 * y' + m) + d.day - 1 := rfl
  have hi' : e.monthIndex = 12 * y' + m := by
    rw [monthIndex_eq_iff, monthBegin_succ]; omega
  obtain ⟨hy', hmo', hd', -⟩ := monthIndex_spec e
  rw [hi'] at hy' hmo' hd'
  have hw := weekday_eq d
  have hw' := weekday_eq e
  have := hk.2
  refine ⟨e, by omega, by omega, by omega, by omega⟩

theorem exists_recurrence (d : Date) (start : Int) : ∃ e : Date, start ≤ e.year ∧ e.year < start + 60 ∧
    e.month = d.month ∧ e.day = d.day ∧ e.weekday = d.weekday := by
  obtain ⟨y', hf, hf', hk⟩ := exists_sameKind d.year start
  obtain ⟨e, rfl, he⟩ := hk.exists_date
  exact ⟨e, hf, hf', he⟩

theorem exists_recurrence_sample (d : Date) : ∃ e : Date, 2000 ≤ e.year ∧ e.year < 2028 ∧
    e.month = d.month ∧ e.day = d.day ∧ e.weekday = d.weekday := by
  obtain ⟨y', hf, hf', hk⟩ := exists_sameKind_sample d.year
  obtain ⟨e, rfl, he⟩ := hk.exists_date
  exact ⟨e, hf, hf', he⟩

end Date

/-- A filter that accepts a date accepts one within sixty years from any date on. -/
theorem DateFilter.exists_accepts_from {f : DateFilter} {d₀ : Date} (h : f.Accepts d₀) (d : Date) :
    ∃ e, d ≤ e ∧ e.year ≤ d.year + 60 ∧ f.Accepts e := by
  obtain ⟨e, h₁, h₂, hm, hd, hw⟩ := Date.exists_recurrence d₀ (d.year + 1)
  refine ⟨e, ?_, by omega, ?_⟩
  · by_contra hlt
    have := Date.year_mono (d := e) (e := d) (by simp only [Date.le_def] at hlt ⊢; omega)
    omega
  · simpa only [Accepts, Date.weekOfMonth, hm, hd, hw] using h

end Recurrence
