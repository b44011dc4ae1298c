import Recurrence.Proofs.DateSearch.Settling
/-!
# When the date search goes past a date

A search that starts off course jumps from one of the weekdays ahead, while an earlier weekday of
the same week would have led to an earlier date. It makes up for that only by coming to the end of
the selected months before any date is accepted, since a new run of months is entered on its first
day. So the search goes past the first accepted date exactly if it starts off course and all months
up to that date are selected (`firstAccepted_isFirst_iff`).
-/

namespace Recurrence.DateSearch

open Date

variable {f : DateFilter} {d m : Date} {n : Nat}

/-- The search from `d` goes past the first accepted date: it starts off course, and no month on
the way to that date brings it back. -/
structure Overshoots (f : DateFilter) (d : Date) : Prop where
  off_course : OffCourse f d
  months_selected : ∀ e, d ≤ e → (∀ c, d ≤ c → c ≤ e → ¬ f.Accepts c) → e.month ∈ f.months

theorem OffCourse.not_restricts (h : OffCourse f d) : ¬ f.days.Restricts := fun hd =>
  h.week_not_mem (week_mem_of_not_restricts (f.apart hd).1 d)

/-- A month that is not selected brings the search back on course. -/
theorem settle_of_unselected {u : Date} (hm : IsFirst f.Accepts d m) (hdu : d ≤ u) (hum : u < m)
    (hu : u.month ∉ f.months) (hlo : -262143 ≤ d.year) (hhi : m.year ≤ 262138)
    (hn : m.monthIndex - d.monthIndex + 2 ≤ n) : settle f n d = .ok m := by
  induction n generalizing d u with
  | zero => have := monthIndex_mono hm.le; omega
  | succ n ih =>
    by_cases hoff : OffCourse f d
    · have hi := monthIndex_mono hm.le
      have hs : Spacious d := ⟨hlo, by have := year_mono hm.le; omega⟩
      obtain ⟨d', hr, hd', hset⟩ := settle_succ (f := f) (n := n) hs (by omega)
      obtain ⟨d₁, -, hi₁, -, w, hw, hlt, heq⟩ := jump_of_offCourse hs hoff hd'
      have later {e : Date} (he : e.month ∉ f.months) : e.monthIndex ≠ d.monthIndex := fun hei =>
        he (month_eq_of_monthIndex_eq hei ▸ hoff.month_mem)
      have hui := later hu
      have hdui := monthIndex_mono hdu
      rw [hset]
      rcases jump_lands hlt (Selection.bounds_of_mem hw).2 heq with ⟨hi', -⟩ | ⟨hi', -⟩
      · have hacc := hr.accepts_or_later.resolve_right (by omega)
        have hlt' := lt_of_monthIndex_lt (d := d') (e := u) (by omega)
        exact absurd hacc (hm.none_before d' hr.le (Date.lt_of_lt_of_le hlt' (Date.le_of_lt hum)))
      · have hmi := monthIndex_mono (Date.le_of_lt hum)
        have hyear : -262143 ≤ d'.year := by have := year_mono hr.le; omega
        by_cases hm' : d'.month ∈ f.months
        · have hui' : u.monthIndex ≠ d'.monthIndex := fun hei =>
            hu (month_eq_of_monthIndex_eq hei ▸ hm')
          have hd'u := lt_of_monthIndex_lt (d := d') (e := u) (by omega)
          have hd'm : d' ≤ m := Date.le_of_lt (Date.lt_of_lt_of_le hd'u (Date.le_of_lt hum))
          exact ih (hm.of_le hr.le hd'm) (Date.le_of_lt hd'u) hum hu hyear (by omega)
        · have hmi' : m.monthIndex ≠ d'.monthIndex := fun hei =>
            hm' (month_eq_of_monthIndex_eq hei ▸ hm.holds.1)
          have hd'm := lt_of_monthIndex_lt (d := d') (e := m) (by omega)
          exact ih (hm.of_le hr.le (Date.le_of_lt hd'm)) (Date.le_refl _) hd'm hm' hyear (by omega)
    · exact settle_isFirst hoff hm hlo hhi hn

/-! ## Behind an earlier weekday -/

/-- The search that began on `start` stands on `c`, behind a selected weekday of the same week
that leads to an earlier date. -/
structure Trails (f : DateFilter) (start c : Date) : Prop where
  le : start ≤ c
  leader : ∃ a, a < c ∧ a.monthIndex = c.monthIndex ∧ a.weekOfMonth = c.weekOfMonth ∧
    a.weekday ∈ f.weekdays ∧ (c.weekOfMonth ∈ f.weeks → start ≤ a)
  is_ahead : IsAhead f c
  later_week : c.weekOfMonth ∉ f.weeks → ∃ w ∈ f.weeks, c.weekOfMonth < w

theorem OffCourse.trails (h : OffCourse f d) : Trails f d d where
  le := Date.le_refl _
  leader := by
    obtain ⟨a, had, hi, hw, hmem⟩ := h.has_passed
    exact ⟨a, had, hi, hw, hmem, fun hn => absurd hn h.week_not_mem⟩
  is_ahead := h.is_ahead
  later_week := fun _ => h.later_week

/-- `m` is the first accepted date from `start` on, and all months up to it are selected. -/
structure IsFirstInRun (f : DateFilter) (start m : Date) : Prop where
  first : IsFirst f.Accepts start m
  months : ∀ e, start ≤ e → e ≤ m → e.month ∈ f.months
  days : ¬ f.days.Restricts

section Trails

variable {start c : Date} (hm : IsFirstInRun f start m) (ht : Trails f start c) (hcm : c ≤ m)
include hm ht hcm

theorem Trails.offCourse : OffCourse f c := by
  have hmonth := hm.months c ht.le hcm
  obtain ⟨a, hac, hai, haw, hmem, hsa⟩ := ht.leader
  have hcw : c.weekOfMonth ∉ f.weeks := by
    intro hcw
    have hacc : f.Accepts a := ⟨month_eq_of_monthIndex_eq hai ▸ hmonth,
      day_mem_of_not_restricts hm.days a, hmem, haw ▸ hcw⟩
    exact hm.first.none_before a (hsa hcw) (Date.lt_of_lt_of_le hac hcm) hacc
  exact ⟨hmonth, hcw, ht.later_week hcw, ⟨a, hac, hai, haw, hmem⟩, ht.is_ahead⟩

/-- The leading weekday jumps along with the search. -/
theorem Trails.step {c' : Date} (hs : Spacious c) (hc' : narrow f c = .ok c') (hc'm : c' ≤ m) :
    Trails f start c' := by
  have hoff := ht.offCourse hm hcm
  have hsc := ht.le
  obtain ⟨a, hac, hai, haw, hmem, -⟩ := ht.leader
  obtain ⟨c₁, hfirst, hi₁, hw₁, w, hw, hlt, heq⟩ := jump_of_offCourse hs hoff hc'
  have hw5 := (Selection.bounds_of_mem hw).2
  have hcc₁ := hfirst.le
  have hle : start ≤ c' := Date.le_trans hsc (by simp only [le_def] at *; omega)
  have hahead : IsAhead f c' :=
    ⟨c', Date.le_refl _, rfl, rfl, by rw [weekday_eq_of_jump heq]; exact hfirst.holds⟩
  let b := a.plusDays (7 * (w - c₁.weekOfMonth))
  have hb : b.dayNumber = a.dayNumber + 7 * (w - c₁.weekOfMonth) := rfl
  have hbmem : b.weekday ∈ f.weekdays := by rwa [weekday_eq_of_jump hb]
  have hbc' : b < c' := by simp only [le_def, lt_def] at *; omega
  have hcb : c < b := by
    have ha := weekOfMonth_eq a
    have hc := weekOfMonth_eq c
    rw [hai] at ha
    rw [lt_def]; omega
  have hsb : start ≤ b := Date.le_trans hsc (Date.le_of_lt hcb)
  have hbweek (hbi : b.monthIndex = c.monthIndex) : b.weekOfMonth = w := by
    have ha := weekOfMonth_eq a
    have hbw := weekOfMonth_eq b
    rw [hbi] at hbw
    rw [hai] at ha
    omega
  have hbi := monthIndex_mono (Date.le_of_lt hcb)
  have hbi' := monthIndex_mono (Date.le_of_lt hbc')
  rcases jump_lands hlt hw5 heq with ⟨hi', hw'⟩ | ⟨hi', hw', rfl⟩
  · exact ⟨hle, ⟨b, hbc', by omega, by rw [hw', hbweek (by omega)], hbmem, fun _ => hsb⟩, hahead,
      fun hn => absurd (hw' ▸ hw) hn⟩
  · have hbnext : b.monthIndex = c'.monthIndex := by
      by_contra hne
      have hbi : b.monthIndex = c.monthIndex := by omega
      have hacc : f.Accepts b := ⟨month_eq_of_monthIndex_eq hbi ▸ hoff.month_mem,
        day_mem_of_not_restricts hm.days b, hbmem, by rw [hbweek hbi]; exact hw⟩
      exact hm.first.none_before b hsb (Date.lt_of_lt_of_le hbc' hc'm) hacc
    have hbw : b.weekOfMonth = c'.weekOfMonth := by
      have h₁ := weekOfMonth_eq b
      have h₂ := weekOfMonth_eq c'
      have h₃ := (monthIndex_eq_iff (d := b)).1 rfl
      rw [hbnext] at h₁ h₃
      rw [lt_def] at hbc'
      omega
    refine ⟨hle, ⟨b, hbc', hbnext, hbw, hbmem, fun _ => hsb⟩, hahead, ?_⟩
    intro hn
    have hl := Selection.bounds_of_mem f.weeks.least_mem
    have hne : f.weeks.least ≠ c'.weekOfMonth := fun he => hn (he ▸ f.weeks.least_mem)
    exact ⟨_, f.weeks.least_mem, by omega⟩

/-- A search that trails never gets to the first accepted date. -/
theorem Trails.settle_ne (hlo : -262143 ≤ start.year) (hhi : m.year ≤ 262062)
    (hn : m.monthIndex - c.monthIndex + 756 ≤ n) : settle f n c ≠ .ok m := by
  induction n generalizing c with
  | zero => have := monthIndex_mono hcm; omega
  | succ n ih =>
    have hsy := year_mono ht.le
    have hcy := year_mono hcm
    have hci := monthIndex_mono hcm
    have hs : Spacious c := ⟨by omega, by omega⟩
    obtain ⟨c', hr, hc', hset⟩ := settle_succ (f := f) (n := n) hs (by omega)
    intro hend
    rw [hset] at hend
    have hc'y : c'.year ≤ c.year + 1 := by
      obtain ⟨c₁, -, hi₁, -, w, hw, hlt, heq⟩ := jump_of_offCourse hs (ht.offCourse hm hcm) hc'
      have := jump_lands hlt (Selection.bounds_of_mem hw).2 heq
      have := (monthIndex_spec c).1
      have := (monthIndex_spec c').1
      omega
    have hsy' := year_mono hr.le
    obtain ⟨e, he, hle, -⟩ := settle_accepts (n := n) ⟨m, hm.first.holds⟩ (d := c')
      (by omega) (by omega)
    rw [hend, Except.ok.injEq] at he
    subst he
    have ht' := ht.step hm hcm hs hc' hle
    have hlater := hr.accepts_or_later.resolve_left fun hacc =>
      (ht'.offCourse hm hle).week_not_mem hacc.2.2.2
    exact ih ht' hle (by omega) hend

end Trails

/-! ## The search of a rule -/

theorem isFirstInRun_of_overshoots (h : Overshoots f d) (hm : IsFirst f.Accepts d m) :
    IsFirstInRun f d m where
  first := hm
  months e hde hem := by
    by_cases he : f.Accepts e
    · exact he.1
    · refine h.months_selected e hde fun c hdc hce hc => ?_
      have hmc := hm.le_of_holds hdc hc
      obtain rfl := Date.le_antisymm hem (Date.le_trans hmc hce)
      exact he hm.holds
  days := h.off_course.not_restricts

/-- The search gives the first accepted date unless it overshoots. -/
theorem firstAccepted_isFirst_iff (hf : f.Occurs) (hd : -262143 ≤ d.year ∧ d.year ≤ 262002) :
    ∃ e, firstAccepted f d = .ok e ∧ d ≤ e ∧ f.Accepts e ∧ e.year ≤ d.year + 75 ∧
      (IsFirst f.Accepts d e ↔ ¬ Overshoots f d) := by
  obtain ⟨e₀, he₀⟩ := exists_accepts_of_occurs hf
  obtain ⟨e₁, hde₁, hy₁, hacc₁⟩ := DateFilter.exists_accepts_from he₀ d
  obtain ⟨m, hm, hme₁⟩ := IsFirst.exists_of hde₁ hacc₁
  have hmy := year_mono hme₁
  have hmi := (monthIndex_spec m).1
  have hdi := (monthIndex_spec d).1
  obtain ⟨e, he, hle, hacc, hy⟩ := firstAccepted_accepts hf (d := d) (by omega)
  have hiff : IsFirst f.Accepts d e ↔ firstAccepted f d = .ok m := by
    rw [he, Except.ok.injEq]
    exact ⟨fun h => Date.le_antisymm (h.le_of_holds hm.le hm.holds) (hm.le_of_holds hle hacc),
      fun h => h ▸ hm⟩
  refine ⟨e, he, hle, hacc, hy, hiff.trans ⟨fun hend hover => ?_, fun hno => ?_⟩⟩
  · have hrun := isFirstInRun_of_overshoots hover hm
    exact hover.off_course.trails.settle_ne hrun hm.le hd.1 (by omega)
      (by simp only [maxRounds]; omega) hend
  · by_cases hoff : OffCourse f d
    · obtain ⟨u, hdu, hnone, hu⟩ : ∃ u, d ≤ u ∧ (∀ c, d ≤ c → c ≤ u → ¬ f.Accepts c) ∧
          u.month ∉ f.months := by
        by_contra hall
        refine hno ⟨hoff, ?_⟩
        intro e hde hnone
        by_contra hem
        exact hall ⟨e, hde, hnone, hem⟩
      have hum : u < m := by
        by_contra hlt
        exact hnone m hm.le (Date.not_lt.1 hlt) hm.holds
      exact settle_of_unselected hm hdu hum hu hd.1 (by omega) (by simp only [maxRounds]; omega)
    · exact settle_isFirst hoff hm hd.1 (by omega) (by simp only [maxRounds]; omega)

end Recurrence.DateSearch
