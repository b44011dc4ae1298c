import Recurrence.Proofs.DateSearch.Overshoot
/-!
# Searches that start one day apart

Two searches in one week of a month that are both off course jump by as many weeks, so the one that
stands behind stays behind (`Abreast.step`, `settle_le_of_abreast`). The search from a date therefore
ends no later than that from the day after, unless it overshoots and the day after does not, since no
selected weekday is left in its week (`firstAccepted_le_iff`).
-/

namespace Recurrence.DateSearch

open Date

variable {f : DateFilter} {d c₀ c₁ e₀ e₁ : Date} {n : Nat}

/-- What the search settles on is accepted and no earlier than where it started. -/
theorem le_of_settle (hf : ∃ e, f.Accepts e) (hd : -262143 ≤ d.year ∧ d.year ≤ 262063)
    (h : settle f n d = .ok e₀) : d ≤ e₀ ∧ f.Accepts e₀ := by
  obtain ⟨e, he, hle, hacc, -⟩ := settle_accepts (n := n + 755) hf hd (by omega)
  have heq := (settle_mono h (by omega)).symm.trans he
  rw [Except.ok.injEq] at heq
  exact heq ▸ ⟨hle, hacc⟩

theorem isFirst_of_settle (hf : ∃ e, f.Accepts e) (hon : ¬ OffCourse f d)
    (hd : -262143 ≤ d.year ∧ d.year ≤ 262078) (h : settle f n d = .ok e₀) :
    IsFirst f.Accepts d e₀ := by
  obtain ⟨e, he, hfirst, -⟩ := settle_on_course (n := n + 740) hf hon hd (by omega)
  have heq := (settle_mono h (by omega)).symm.trans he
  rw [Except.ok.injEq] at heq
  exact heq ▸ hfirst

/-! ## Side by side -/

/-- Two searches stand in one week of a month, and the one in front has a selected weekday ahead. -/
structure Abreast (f : DateFilter) (c₀ c₁ : Date) : Prop where
  le : c₀ ≤ c₁
  same_month : c₁.monthIndex = c₀.monthIndex
  same_week : c₁.weekOfMonth = c₀.weekOfMonth
  is_ahead : IsAhead f c₁

theorem Abreast.offCourse (ha : Abreast f c₀ c₁) (h : OffCourse f c₀) : OffCourse f c₁ where
  month_mem := month_eq_of_monthIndex_eq ha.same_month ▸ h.month_mem
  week_not_mem := ha.same_week ▸ h.week_not_mem
  later_week := ha.same_week ▸ h.later_week
  has_passed := by
    obtain ⟨e, hlt, hi, hw, hmem⟩ := h.has_passed
    exact ⟨e, Date.lt_of_lt_of_le hlt ha.le, hi.trans ha.same_month.symm,
      hw.trans ha.same_week.symm, hmem⟩
  is_ahead := ha.is_ahead

/-- Off course, both jump to the same week, or beyond the end of the month by as many weeks. -/
theorem Abreast.step (ha : Abreast f c₀ c₁) (hoff : OffCourse f c₀) (hs₀ : Spacious c₀)
    (hs₁ : Spacious c₁) {c₀' c₁' : Date} (h₀ : narrow f c₀ = .ok c₀') (h₁ : narrow f c₁ = .ok c₁') :
    c₀ < c₀' ∧ c₀' ≤ c₁' ∧ c₁'.monthIndex ≤ c₁.monthIndex + 1 ∧
      (c₀'.monthIndex = c₀.monthIndex ∨ Abreast f c₀' c₁') := by
  obtain ⟨d₀, hfirst₀, hi₀, hw₀, hmove₀⟩ := weekMove_of_offCourse hs₀ hoff h₀
  obtain ⟨d₁, hfirst₁, hi₁, hw₁, hmove₁⟩ := weekMove_of_offCourse hs₁ (ha.offCourse hoff) h₁
  have hweek : d₁.weekOfMonth = d₀.weekOfMonth := hw₁.trans (ha.same_week.trans hw₀.symm)
  have hnew : d₀.weekOfMonth ∉ f.weeks := hw₀ ▸ hoff.week_not_mem
  have hlater : ∃ w ∈ f.weeks, d₀.weekOfMonth < w := hw₀ ▸ hoff.later_week
  obtain ⟨w, hmem, hlt, hmin, heq⟩ := hmove₀.jump_of_later hnew hlater
  obtain ⟨w', hmem', hlt', hmin', heq'⟩ := hmove₁.jump_of_later (hweek ▸ hnew) (hweek ▸ hlater)
  obtain rfl : w = w' := by
    have := hmin w' hmem' (by omega)
    have := hmin' w hmem (by omega)
    omega
  have hle₁ := hfirst₁.le
  have hle := hfirst₀.le_of_holds (Date.le_trans ha.le hle₁) hfirst₁.holds
  have hc : c₀' ≤ c₁' := by simp only [le_def] at *; omega
  have hw5 := (Selection.bounds_of_mem hmem).2
  have hi := monthIndex_mono hc
  have hfwd : c₀ < c₀' := Date.lt_of_le_of_lt hfirst₀.le (by rw [lt_def]; omega)
  have hsame := ha.same_month
  have hlands₁ := jump_lands hlt' hw5 heq'
  refine ⟨hfwd, hc, by omega, ?_⟩
  rcases jump_lands hlt hw5 heq with ⟨hi', -⟩ | ⟨hi', hw', -⟩
  · exact .inl (by omega)
  · have hahead : IsAhead f c₁' :=
      ⟨c₁', Date.le_refl _, rfl, rfl, by rw [weekday_eq_of_jump heq']; exact hfirst₁.holds⟩
    exact .inr ⟨hc, by omega, by omega, hahead⟩

/-- The search that stands behind does not get past the other one. -/
theorem settle_le_of_abreast (hf : ∃ e, f.Accepts e) (ha : Abreast f c₀ c₁) (hlo : -262143 ≤ c₀.year)
    (hhi : c₁.monthIndex + n < 12 * 262064) (h₀ : settle f n c₀ = .ok e₀)
    (h₁ : settle f n c₁ = .ok e₁) : e₀ ≤ e₁ := by
  induction n generalizing c₀ c₁ with
  | zero => cases h₀
  | succ n ih =>
    have hy₀ := (monthIndex_spec c₀).1
    have hy₁ := (monthIndex_spec c₁).1
    have hsame := ha.same_month
    have hle := ha.le
    by_cases hoff : OffCourse f c₀
    · have hs₀ : Spacious c₀ := ⟨hlo, by omega⟩
      have hs₁ : Spacious c₁ := ⟨by omega, by omega⟩
      obtain ⟨c₀', hc₀, hr₀⟩ := narrow_spec (f := f) hs₀
      obtain ⟨c₁', hc₁, hr₁⟩ := narrow_spec (f := f) hs₁
      obtain ⟨hlt, hc, hi, hnext⟩ := ha.step hoff hs₀ hs₁ hc₀ hc₁
      have hne₀ : c₀' ≠ c₀ := by rintro rfl; rw [lt_def] at hlt; omega
      have hne₁ : c₁' ≠ c₁ := by
        rintro rfl
        exact absurd (hr₁.accepts_or_later.resolve_right (Int.lt_irrefl _))
          fun hacc => not_offCourse_of_accepts hacc (ha.offCourse hoff)
      simp only [settle, hc₀, hc₁, bind, Except.bind, if_neg hne₀, if_neg hne₁] at h₀ h₁
      have hy₀' := (monthIndex_spec c₀').1
      have hy₁' := (monthIndex_spec c₁').1
      have hi₀ := monthIndex_mono hc
      have hi₀' := monthIndex_mono hr₀.le
      rcases hnext with hin | ha'
      · have hacc := hr₀.accepts_or_later.resolve_right (by omega)
        have hset := (settle_mono h₀ (Nat.le_succ n)).symm.trans (settle_accepted ⟨by omega, by omega⟩ hacc)
        rw [Except.ok.injEq] at hset
        have hle₁ := (le_of_settle hf ⟨by omega, by omega⟩ h₁).1
        subst hset
        exact Date.le_trans hc hle₁
      · exact ih ha' (by omega) (by omega) h₀ h₁
    · have hfirst := isFirst_of_settle hf hoff ⟨hlo, by omega⟩ h₀
      obtain ⟨hle₁, hacc₁⟩ := le_of_settle hf ⟨by omega, by omega⟩ h₁
      exact hfirst.le_of_holds (Date.le_trans hle hle₁) hacc₁

/-! ## A date and the day after -/

/-- No selected weekday is left after the date in its week of the month. -/
def NoneLeft (f : DateFilter) (d : Date) : Prop :=
  ∀ e, d < e → e.monthIndex = d.monthIndex → e.weekOfMonth = d.weekOfMonth → e.weekday ∉ f.weekdays

/-- The search from the date goes past the first accepted date, but that from the day after does not,
since it begins behind the last selected weekday of the week. -/
structure Outruns (f : DateFilter) (d : Date) : Prop where
  overshoots : Overshoots f d
  none_left : NoneLeft f d

theorem lt_iff_plusDays_le {e : Date} : d < e ↔ d.plusDays 1 ≤ e := by
  rw [lt_def, le_def, dayNumber_plusDays]
  omega

/-- With a selected weekday left in the week, a date and the day after it are side by side. -/
theorem abreast_plusDays_one (h : ¬ NoneLeft f d) : Abreast f d (d.plusDays 1) := by
  obtain ⟨e, hlt, hi, hw, hmem⟩ : ∃ e, d < e ∧ e.monthIndex = d.monthIndex ∧
      e.weekOfMonth = d.weekOfMonth ∧ e.weekday ∈ f.weekdays := by
    by_contra hnone
    exact h fun e hlt hi hw hmem => hnone ⟨e, hlt, hi, hw, hmem⟩
  have hle : d ≤ d.plusDays 1 := by rw [le_def, dayNumber_plusDays]; omega
  have hle' := lt_iff_plusDays_le.1 hlt
  obtain ⟨hi', hw'⟩ := same_week_of_between hle hle' hi hw
  exact ⟨hle, hi', hw', e, hle', hi.trans hi'.symm, hw.trans hw'.symm, hmem⟩

/-- Behind the last selected weekday of a week, the search is on course. -/
theorem NoneLeft.not_offCourse (h : NoneLeft f d) : ¬ OffCourse f (d.plusDays 1) := by
  intro hoff
  obtain ⟨a, had, hai, haw, -⟩ := hoff.has_passed
  obtain ⟨e, hde, hei, hew, hmem⟩ := hoff.is_ahead
  have hle : d ≤ d.plusDays 1 := by rw [le_def, dayNumber_plusDays]; omega
  have ha : a ≤ d := Date.not_lt.1 fun hlt => Date.not_le.2 had (lt_iff_plusDays_le.1 hlt)
  obtain ⟨hi, hw⟩ := same_week_of_between ha hle hai.symm haw.symm
  exact h e (lt_iff_plusDays_le.2 hde) (hei.trans (hai.symm.trans hi.symm))
    (hew.trans (haw.symm.trans hw.symm)) hmem

section Neighbours

variable (hf : f.Occurs) (hd : -262143 ≤ d.year ∧ d.year ≤ 262000)
  (h₀ : firstAccepted f d = .ok e₀) (h₁ : firstAccepted f (d.plusDays 1) = .ok e₁)
include hf hd h₀ h₁

theorem firstAccepted_le_of_abreast (ha : Abreast f d (d.plusDays 1)) : e₀ ≤ e₁ := by
  have hf' := exists_accepts_of_occurs hf
  have hy := (monthIndex_spec d).1
  have hy' := (monthIndex_spec (d.plusDays 1)).1
  have hsame := ha.same_month
  obtain ⟨c₀, hc₀, -⟩ := settle_accepts (n := 755) hf' (d := d) (by omega) (by omega)
  obtain ⟨c₁, hc₁, -⟩ := settle_accepts (n := 755) hf' (d := d.plusDays 1) (by omega) (by omega)
  obtain rfl : c₀ = e₀ := Except.ok.inj ((settle_mono hc₀ (by decide)).symm.trans h₀)
  obtain rfl : c₁ = e₁ := Except.ok.inj ((settle_mono hc₁ (by decide)).symm.trans h₁)
  exact settle_le_of_abreast hf' ha hd.1 (by omega) hc₀ hc₁

/-- From behind the last selected weekday the search gives the first accepted date, so that one from
the weekday itself that ends no later gives it as well. -/
theorem isFirst_of_le (hnone : NoneLeft f d) (hrej : ¬ f.Accepts d) (hle : e₀ ≤ e₁) :
    IsFirst f.Accepts d e₀ := by
  have hf' := exists_accepts_of_occurs hf
  have hd' := year_plusDays_one d
  obtain ⟨hle₀, hacc₀⟩ := le_of_settle hf' (by omega) h₀
  have hfirst₁ := isFirst_of_settle hf' hnone.not_offCourse (by omega) h₁
  refine ⟨hle₀, hacc₀, fun e hde hlt hacc => ?_⟩
  have hlt' : d < e := by
    by_contra hle'
    obtain rfl := Date.le_antisymm hde (Date.not_lt.1 hle')
    exact hrej hacc
  exact hfirst₁.none_before e (lt_iff_plusDays_le.1 hlt') (Date.lt_of_lt_of_le hlt hle) hacc

/-- The search from a date ends no later than that from the day after, unless it outruns it. -/
theorem firstAccepted_le_iff : e₀ ≤ e₁ ↔ ¬ Outruns f d := by
  have hf' := exists_accepts_of_occurs hf
  have hd' := year_plusDays_one d
  obtain ⟨e, he, -, -, -, hfirst⟩ := firstAccepted_isFirst_iff hf (d := d) (by omega)
  rw [h₀, Except.ok.injEq] at he
  subst he
  by_cases hover : Overshoots f d
  · by_cases hnone : NoneLeft f d
    · have hrej : ¬ f.Accepts d := fun hacc => not_offCourse_of_accepts hacc hover.off_course
      exact iff_of_false (fun hle => hfirst.1 (isFirst_of_le hf hd h₀ h₁ hnone hrej hle) hover)
        (not_not.2 ⟨hover, hnone⟩)
    · exact iff_of_true (firstAccepted_le_of_abreast hf hd h₀ h₁ (abreast_plusDays_one hnone))
        fun hout => hnone hout.none_left
  · obtain ⟨hle₁, hacc₁⟩ := le_of_settle hf' (by omega) h₁
    exact iff_of_true
      ((hfirst.2 hover).le_of_holds (Date.le_of_lt (lt_iff_plusDays_le.2 hle₁)) hacc₁)
      fun hout => hover hout.overshoots

/-- On course, both searches end on the same date, unless the first one accepts where it starts. -/
theorem firstAccepted_eq_or_eq (hon : ¬ OffCourse f d) (hon' : ¬ OffCourse f (d.plusDays 1)) :
    e₀ = d ∨ e₀ = e₁ := by
  have hf' := exists_accepts_of_occurs hf
  have hd' := year_plusDays_one d
  have hfirst₀ := isFirst_of_settle hf' hon (by omega) h₀
  have hfirst₁ := isFirst_of_settle hf' hon' (by omega) h₁
  by_cases hlt : d < e₀
  · have hle := Date.le_of_lt (lt_iff_plusDays_le.2 hfirst₁.le)
    exact .inr (Date.le_antisymm (hfirst₀.le_of_holds hle hfirst₁.holds)
      (hfirst₁.le_of_holds (lt_iff_plusDays_le.1 hlt) hfirst₀.holds))
  · exact .inl (Date.le_antisymm (Date.not_lt.1 hlt) hfirst₀.le)

end Neighbours

end Recurrence.DateSearch
