import Recurrence.Proofs.DateSearch.Round
import Recurrence.Proofs.YearKinds
/-!
# Where the date search ends

A search that starts on course settles on the first accepted date (`firstAccepted_isFirst`). Off
course it settles on some accepted date as well (`firstAccepted_accepts`): every jump that overruns
a month lands earlier within the week (`drift`), so after a dozen such jumps the search has settled
or is on course again.
-/

namespace Recurrence

namespace Date

theorem IsFirst.exists_of {P : Date → Prop} {d e : Date} (hle : d ≤ e) (he : P e) :
    ∃ m, IsFirst P d m ∧ m ≤ e := by
  classical
  have h : ∃ n : Nat, P (d.plusDays n) := by
    refine ⟨(e.dayNumber - d.dayNumber).toNat, ?_⟩
    rw [le_def] at hle
    rwa [show d.plusDays (e.dayNumber - d.dayNumber).toNat = e from
      Date.ext (by rw [dayNumber_plusDays]; omega)]
  have hmin : ∀ c : Date, d ≤ c → c < d.plusDays (Nat.find h) → ¬ P c := by
    intro c hdc hcm hc
    simp only [le_def, lt_def, dayNumber_plusDays] at hdc hcm
    refine Nat.find_min h (m := (c.dayNumber - d.dayNumber).toNat) (by omega) ?_
    rwa [show d.plusDays (c.dayNumber - d.dayNumber).toNat = c from
      Date.ext (by rw [dayNumber_plusDays]; omega)]
  refine ⟨d.plusDays (Nat.find h), ⟨by rw [le_def, dayNumber_plusDays]; omega, Nat.find_spec h, hmin⟩, ?_⟩
  by_contra hlt
  exact hmin e hle (Date.not_le.1 hlt) he

/-- What comes first from `d` on comes first from any date in between. -/
theorem IsFirst.of_le {P : Date → Prop} {d c m : Date} (h : IsFirst P d m) (hdc : d ≤ c) (hcm : c ≤ m) :
    IsFirst P c m :=
  ⟨hcm, h.holds, fun _ hce hem => h.none_before _ (Date.le_trans hdc hce) hem⟩

/-- If nothing has the property before `c`, what comes first from `d` on lies from `c` on. -/
theorem IsFirst.le_of_none {P : Date → Prop} {d c m : Date} (h : IsFirst P d m)
    (hno : ∀ e, d ≤ e → e < c → ¬ P e) : c ≤ m := by
  by_contra hlt
  exact hno m h.le (Date.not_le.1 hlt) h.holds

theorem IsFirst.le_of_holds {P : Date → Prop} {d e m : Date} (h : IsFirst P d m) (hde : d ≤ e)
    (he : P e) : m ≤ e := by
  by_contra hlt
  exact h.none_before e hde (Date.not_le.1 hlt) he

end Date

namespace DateSearch

open Date

variable {f : DateFilter} {d m : Date} {n : Nat}

/-! ## Rounds until nothing changes -/

/-- What the search settles on, a further round leaves alone. -/
theorem settle_fixed {e : Date} (h : settle f n d = .ok e) : narrow f e = .ok e := by
  induction n generalizing d with
  | zero => cases h
  | succ n ih =>
    simp only [settle, bind, Except.bind] at h
    cases hd : narrow f d with
    | error err => rw [hd] at h; cases h
    | ok d' =>
      rw [hd] at h
      simp only at h
      split at h
      · next he =>
        cases h
        rw [hd, he]
      · exact ih h

/-- More rounds than enough change nothing. -/
theorem settle_mono {k : Nat} {e : Date} (h : settle f n d = .ok e) (hnk : n ≤ k) :
    settle f k d = .ok e := by
  induction n generalizing d k with
  | zero => cases h
  | succ n ih =>
    obtain ⟨k, rfl⟩ : ∃ k', k = k' + 1 := ⟨k - 1, by omega⟩
    simp only [settle, bind, Except.bind] at h ⊢
    cases hd : narrow f d with
    | error err => rw [hd] at h; cases h
    | ok d' =>
      rw [hd] at h
      simp only at h ⊢
      split at h
      · next he => rw [if_pos he]; exact h
      · next hne => rw [if_neg hne]; exact ih h (by omega)

theorem not_offCourse_of_accepts (h : f.Accepts d) : ¬ OffCourse f d := fun hoff =>
  hoff.week_not_mem h.2.2.2

/-- A round leaves an accepted date alone. -/
theorem IsRound.eq_of_accepts {d' : Date} (hr : IsRound f d d') (h : f.Accepts d) : d' = d := by
  have hno := (hr.on_course (not_offCourse_of_accepts h)).2 d (Date.le_refl _)
  have hlt : ¬ d < d' := fun hlt => hno hlt h
  exact Date.le_antisymm (Date.not_lt.1 hlt) hr.le

theorem settle_accepted (hs : Spacious d) (h : f.Accepts d) : settle f (n + 1) d = .ok d := by
  obtain ⟨d', hd', hr⟩ := narrow_spec (f := f) hs
  have he := hr.eq_of_accepts h
  subst he
  simp only [settle, hd', bind, Except.bind, if_true]

/-- The search goes on from where a round ends. -/
theorem settle_succ (hs : Spacious d) (hn : 0 < n) :
    ∃ d', IsRound f d d' ∧ narrow f d = .ok d' ∧ settle f (n + 1) d = settle f n d' := by
  obtain ⟨d', hd', hr⟩ := narrow_spec (f := f) hs
  refine ⟨d', hr, hd', ?_⟩
  simp only [settle, hd', bind, Except.bind]
  split
  · next he =>
    subst he
    obtain ⟨k, rfl⟩ : ∃ k, n = k + 1 := ⟨n - 1, by omega⟩
    exact (settle_accepted hs (hr.accepts_or_later.resolve_right (Int.lt_irrefl _))).symm
  · rfl

/-! ## On course -/

theorem settle_isFirst (hon : ¬ OffCourse f d) (hm : IsFirst f.Accepts d m)
    (hlo : -262143 ≤ d.year) (hhi : m.year ≤ 262138)
    (hn : m.monthIndex - d.monthIndex + 2 ≤ n) : settle f n d = .ok m := by
  induction n generalizing d with
  | zero => have := monthIndex_mono hm.le; omega
  | succ n ih =>
    have hi := monthIndex_mono hm.le
    have hs : Spacious d := ⟨hlo, by have := year_mono hm.le; omega⟩
    obtain ⟨d', hr, -, he⟩ := settle_succ (f := f) (n := n) hs (by omega)
    -- A round on course passes no accepted date, and comes to one or to a later month.
    obtain ⟨hon', hno⟩ := hr.on_course hon
    have hle := hm.le_of_none hno
    have hm' := hm.of_le hr.le hle
    rw [he]
    rcases hr.accepts_or_later with hacc | hlater
    · have := hm'.eq_of_holds hacc
      subst this
      obtain ⟨k, rfl⟩ : ∃ k, n = k + 1 := ⟨n - 1, by omega⟩
      exact settle_accepted ⟨by have := year_mono hr.le; omega, hhi⟩ hacc
    · exact ih hon' hm' (by have := year_mono hr.le; omega) (by omega)

/-- Rounds that are enough to get from any date to the next accepted one. -/
theorem settle_on_course (hf : ∃ e, f.Accepts e) (hon : ¬ OffCourse f d)
    (hd : -262143 ≤ d.year ∧ d.year ≤ 262078) (hn : 740 ≤ n) :
    ∃ m, settle f n d = .ok m ∧ IsFirst f.Accepts d m ∧ m.year ≤ d.year + 60 := by
  obtain ⟨e₀, he₀⟩ := hf
  obtain ⟨e, hde, hey, he⟩ := DateFilter.exists_accepts_from he₀ d
  obtain ⟨m, hm, hme⟩ := IsFirst.exists_of hde he
  have hy := year_mono hme
  have := (monthIndex_spec d).1
  have := (monthIndex_spec m).1
  exact ⟨m, settle_isFirst hon hm hd.1 (by omega) (by omega), hm, by omega⟩

/-! ## Off course -/

/-- How many days of its week of the month a date has behind it, twice, and one more in February,
which may have no days beyond four weeks. -/
def drift (d : Date) : Nat := 2 * ((d.day - 1) % 7) + if d.month = 2 then 1 else 0

/-- A round that starts off course searches by week from the first selected weekday ahead. -/
theorem weekMove_of_offCourse {d' : Date} (hs : Spacious d) (hoff : OffCourse f d)
    (hd' : narrow f d = .ok d') : ∃ d₁, IsFirst (·.weekday ∈ f.weekdays) d d₁ ∧
      d₁.monthIndex = d.monthIndex ∧ d₁.weekOfMonth = d.weekOfMonth ∧ WeekMove f.weeks d₁ d' := by
  have hdays : ¬ f.days.Restricts := fun h =>
    hoff.week_not_mem (week_mem_of_not_restricts (f.apart h).1 d)
  have hroom : Roomy d := ⟨hs.1, by have := hs.2; omega⟩
  have hin : inMonth f d = d := (inMonth_spec hroom).1.eq_of_holds hoff.month_mem
  obtain ⟨d₁, d₂, hfirst, hd₂, hmove⟩ := narrow_weekly hs hdays
  rw [hd', Except.ok.injEq] at hd₂
  subst hd₂
  rw [hin] at hfirst
  obtain ⟨e, hde, hei, hew, hmem⟩ := hoff.is_ahead
  obtain ⟨hi, hw⟩ := same_week_of_between hfirst.le (hfirst.le_of_holds hde hmem) hei hew
  exact ⟨d₁, hfirst, hi, hw, hmove⟩

/-- In a week that is not selected, with a selected one later in the month, it jumps. -/
theorem WeekMove.jump_of_later {d' : Date} (hmove : WeekMove f.weeks d d') (hw : d.weekOfMonth ∉ f.weeks)
    (hlater : ∃ w ∈ f.weeks, d.weekOfMonth < w) :
    ∃ w ∈ f.weeks, d.weekOfMonth < w ∧ (∀ k ∈ f.weeks, d.weekOfMonth ≤ k → w ≤ k) ∧
      d'.dayNumber = d.dayNumber + 7 * (w - d.weekOfMonth) := by
  cases hmove with
  | stay hmem => exact absurd hmem hw
  | jump w hmem hlt hmin heq => exact ⟨w, hmem, hlt, hmin, heq⟩
  | leave hnone =>
    obtain ⟨w, hmem, hlt⟩ := hlater
    have := hnone w hmem
    omega

/-- A round that starts off course jumps from the first selected weekday ahead. -/
theorem jump_of_offCourse {d' : Date} (hs : Spacious d) (hoff : OffCourse f d)
    (hd' : narrow f d = .ok d') : ∃ d₁, IsFirst (·.weekday ∈ f.weekdays) d d₁ ∧
      d₁.monthIndex = d.monthIndex ∧ d₁.weekOfMonth = d.weekOfMonth ∧
      ∃ w ∈ f.weeks, d₁.weekOfMonth < w ∧ d'.dayNumber = d₁.dayNumber + 7 * (w - d₁.weekOfMonth) := by
  obtain ⟨d₁, hfirst, hi, hw, hmove⟩ := weekMove_of_offCourse hs hoff hd'
  obtain ⟨w, hmem, hlt, -, heq⟩ := hmove.jump_of_later (hw ▸ hoff.week_not_mem) (hw ▸ hoff.later_week)
  exact ⟨d₁, hfirst, hi, hw, w, hmem, hlt, heq⟩

theorem weekday_eq_of_jump {d' : Date} {w k : Nat} (h : d'.dayNumber = d.dayNumber + 7 * (w - k)) :
    d'.weekday = d.weekday := by
  have := weekday_eq d
  have := weekday_eq d'
  omega

/-- A jump that overruns a month lands earlier within the week. -/
theorem drift_lt_of_overrun {d' : Date} (hi : d'.monthIndex = d.monthIndex + 1)
    (h : d'.dayNumber = d.dayNumber + 7 * (5 - d.weekOfMonth)) : drift d' < drift d := by
  have hs := monthBegin_succ d.monthIndex
  have hd := day_eq d
  have hd' := day_eq d'
  have hw := weekOfMonth_eq d
  have hm := (monthIndex_spec d).2.1
  have hm' := (monthIndex_spec d').2.1
  have hb := (monthIndex_eq_iff (d := d)).1 rfl
  have hb' := (monthIndex_eq_iff (d := d')).1 rfl
  have hl := monthDays_bounds d.monthIndex
  rw [hi] at hd' hm' hb'
  have hday : d'.day = (d.day - 1) % 7 + 29 - monthDays d.monthIndex := by omega
  unfold drift
  by_cases hf : d.monthIndex % 12 = 1
  · rw [if_pos (show d.month = 2 by omega), if_neg (show d'.month ≠ 2 by omega)]
    omega
  · have := monthDays_of_ne_february hf
    split <;> split <;> omega

/-- From a selected weekday the search settles. As long as it is off course, `drift` falls. -/
theorem settle_from_weekday (hf : ∃ e, f.Accepts e) {k : Nat} (hk : drift d < k)
    (hmem : d.weekday ∈ f.weekdays) (hd : -262143 ≤ d.year ∧ d.year + k ≤ 262078) (hn : 740 + k ≤ n) :
    ∃ e, settle f n d = .ok e ∧ d ≤ e ∧ f.Accepts e ∧ e.year ≤ d.year + 60 + k := by
  induction k generalizing d n with
  | zero => exact absurd hk (Nat.not_lt_zero _)
  | succ k ih =>
    by_cases hoff : OffCourse f d
    · obtain ⟨n, rfl⟩ : ∃ n', n = n' + 1 := ⟨n - 1, by omega⟩
      obtain ⟨d', hr, hd', hset⟩ := settle_succ (f := f) (d := d) (n := n) ⟨hd.1, by omega⟩ (by omega)
      obtain ⟨d₁, hfirst, -, -, w, hw, hlt, heq⟩ := jump_of_offCourse ⟨hd.1, by omega⟩ hoff hd'
      have hd₁ := hfirst.eq_of_holds hmem
      subst hd₁
      have hw5 := (Selection.bounds_of_mem hw).2
      have hle := hr.le
      rw [hset]
      rcases jump_lands hlt hw5 heq with ⟨hi, -⟩ | ⟨hi, -, rfl⟩
      · have hacc := hr.accepts_or_later.resolve_right (by omega)
        have hy := (monthIndex_spec d₁).1
        have hy' := (monthIndex_spec d').1
        obtain ⟨n, rfl⟩ : ∃ n', n = n' + 1 := ⟨n - 1, by omega⟩
        exact ⟨d', settle_accepted ⟨by omega, by omega⟩ hacc, hle, hacc, by omega⟩
      · have hy := (monthIndex_spec d₁).1
        have hy' := (monthIndex_spec d').1
        have hdrift := drift_lt_of_overrun hi heq
        obtain ⟨e, he, hle', hacc, hey⟩ := ih (d := d') (n := n) (by omega)
          (weekday_eq_of_jump heq ▸ hmem) (by omega) (by omega)
        exact ⟨e, he, Date.le_trans hle hle', hacc, by omega⟩
    · obtain ⟨m, hm, hfirst, hy⟩ := settle_on_course (n := n) hf hoff (by omega) (by omega)
      exact ⟨m, hm, hfirst.le, hfirst.holds, by omega⟩

theorem drift_le (d : Date) : drift d ≤ 13 := by
  unfold drift
  split <;> omega

theorem settle_accepts (hf : ∃ e, f.Accepts e) (hd : -262143 ≤ d.year ∧ d.year ≤ 262063)
    (hn : 755 ≤ n) : ∃ e, settle f n d = .ok e ∧ d ≤ e ∧ f.Accepts e ∧ e.year ≤ d.year + 75 := by
  by_cases hoff : OffCourse f d
  · obtain ⟨n, rfl⟩ : ∃ n', n = n' + 1 := ⟨n - 1, by omega⟩
    obtain ⟨d', hr, hd', hset⟩ := settle_succ (f := f) (d := d) (n := n) ⟨hd.1, by omega⟩ (by omega)
    obtain ⟨d₁, hfirst, hi, -, w, hw, hlt, heq⟩ := jump_of_offCourse ⟨hd.1, by omega⟩ hoff hd'
    have hle := hr.le
    have hy := (monthIndex_spec d).1
    have hy' := (monthIndex_spec d').1
    have hi' := jump_lands hlt (Selection.bounds_of_mem hw).2 heq
    have hdrift := drift_le d'
    obtain ⟨e, he, hle', hacc, hey⟩ := settle_from_weekday hf (k := 14) (d := d') (n := n) (by omega)
      (weekday_eq_of_jump heq ▸ hfirst.holds) (by omega) (by omega)
    exact ⟨e, hset.trans he, Date.le_trans hle hle', hacc, by omega⟩
  · obtain ⟨m, hm, hfirst, hy⟩ := settle_on_course (n := n) hf hoff (by omega) (by omega)
    exact ⟨m, hm, hfirst.le, hfirst.holds, by omega⟩

/-! ## The search of a rule -/

theorem exists_accepts_of_occurs (h : f.Occurs) : ∃ e, f.Accepts e := by
  obtain ⟨y, -, m, -, d, -, -, hacc⟩ := h
  exact ⟨_, hacc⟩

/-- From a date well within the range, the search gives an accepted date. -/
theorem firstAccepted_accepts (hf : f.Occurs) (hd : -262143 ≤ d.year ∧ d.year ≤ 262063) :
    ∃ e, firstAccepted f d = .ok e ∧ d ≤ e ∧ f.Accepts e ∧ e.year ≤ d.year + 75 :=
  settle_accepts (exists_accepts_of_occurs hf) hd (by decide)

/-- On course, the search gives the first accepted date. -/
theorem firstAccepted_isFirst (hf : f.Occurs) (hon : ¬ OffCourse f d)
    (hd : -262143 ≤ d.year ∧ d.year ≤ 262078) :
    ∃ m, firstAccepted f d = .ok m ∧ IsFirst f.Accepts d m ∧ m.year ≤ d.year + 60 :=
  settle_on_course (exists_accepts_of_occurs hf) hon hd (by decide)

end DateSearch

end Recurrence
