import Recurrence.Proofs.DateSearch.Settling
import Recurrence.Proofs.Schedule.Making
/-!
# The date search at the end of the range

Anywhere in the range, a search that settles does so on an accepted date or on the last date of the
range (`settle_inRange`). A month beyond the range is taken to begin on the last date, where a round by
month and by week stays, and one by weekday as well if that date has a selected weekday. So a search
that finds no accepted date ends there if it does not look at days of the month, and fails otherwise
(`settle_last`).
-/

namespace Recurrence.DateSearch

open Date

variable {f : DateFilter} {d d' e : Date} {n : Nat}

/-! ## Months at the end of the range -/

theorem last_monthIndex : last.monthIndex = 12 * 262142 + 11 := by decide

theorem inRange_of_le (hd : d.InRange) (hle : d ≤ e) (hlast : e ≤ last) : e.InRange :=
  ⟨Date.le_trans hd.1 hle, hlast⟩

theorem monthFirst_inRange {i : Int} (hd : d.InRange) (hlt : d.monthIndex < i)
    (hi : i ≤ last.monthIndex) : d < monthFirst i ∧ (monthFirst i).InRange := by
  have hli := (monthIndex_eq_iff (d := last)).1 rfl
  have hle := monthBegin_le.2 hi
  have hlt' : d < monthFirst i := lt_of_monthIndex_lt (by rw [monthIndex_monthFirst]; exact hlt)
  refine ⟨hlt', inRange_of_le hd (Date.le_of_lt hlt') ?_⟩
  rw [le_def, dayNumber_monthFirst]
  omega

theorem firstOfMonth_beyond {y : Int} {m : Nat} (hm : 1 ≤ m ∧ m ≤ 12) (hy : 262142 < y) :
    firstOfMonth y m = last := by
  have hv : CivilDate.Valid ⟨y, m, 1⟩ := by
    have := monthLength_bounds y m
    simp only [CivilDate.Valid]; omega
  have hr : ¬ (ofCivil ⟨y, m, 1⟩).InRange := by
    rw [inRange_iff, year, civil_ofCivil hv]
    simp only
    omega
  rw [firstOfMonth, ofCivil?, if_neg fun h => hr h.2, Option.getD_none]

theorem firstOfMonth_cases {y : Int} {m : Nat} (hm : 1 ≤ m ∧ m ≤ 12) (hy : -262143 ≤ y) :
    12 * y + m - 1 ≤ last.monthIndex ∧ firstOfMonth y m = monthFirst (12 * y + m - 1) ∨
      firstOfMonth y m = last := by
  rw [last_monthIndex]
  by_cases h : y ≤ 262142
  · exact .inl ⟨by omega, firstOfMonth_eq hm ⟨hy, h⟩⟩
  · exact .inr (firstOfMonth_beyond hm (by omega))

theorem firstOfNextMonth_cases (hd : d.InRange) :
    d.monthIndex < last.monthIndex ∧ firstOfNextMonth d = monthFirst (d.monthIndex + 1) ∨
      firstOfNextMonth d = last := by
  obtain ⟨hy, hm, -⟩ := monthIndex_spec d
  obtain ⟨hlo, -⟩ := inRange_iff.1 hd
  unfold firstOfNextMonth
  split
  · rcases firstOfMonth_cases (y := d.year + 1) (m := 1) (by omega) (by omega) with ⟨hi, h⟩ | h
    · exact .inl ⟨by omega, h.trans (congrArg monthFirst (by omega))⟩
    · exact .inr h
  · rcases firstOfMonth_cases (y := d.year) (m := d.month + 1) (by omega) (by omega) with ⟨hi, h⟩ | h
    · exact .inl ⟨by omega, h.trans (congrArg monthFirst (by omega))⟩
    · exact .inr h

/-! ## Going forth -/

/-- The search has gone on from `d` to `e` within the range. -/
def GoesTo (d e : Date) : Prop := d ≤ e ∧ e.InRange

theorem GoesTo.refl (hd : d.InRange) : GoesTo d d := ⟨Date.le_refl _, hd⟩

theorem GoesTo.trans {c : Date} (h : GoesTo d c) (h' : GoesTo c e) : GoesTo d e :=
  ⟨Date.le_trans h.1 h'.1, h'.2⟩

theorem goesTo_last (hd : d.InRange) : GoesTo d last := ⟨hd.2, by decide⟩

theorem goesTo_advance (h : d.advance n = .ok e) : GoesTo d e ∧ e = d.plusDays n := by
  unfold Date.advance at h
  split at h
  · next hin =>
    cases h
    exact ⟨⟨by rw [le_def, dayNumber_plusDays]; omega, hin⟩, rfl⟩
  · cases h

theorem goesTo_firstOfNextMonth (hd : d.InRange) : GoesTo d (firstOfNextMonth d) ∧
    (firstOfNextMonth d = last ∨ d.monthIndex < (firstOfNextMonth d).monthIndex) := by
  rcases firstOfNextMonth_cases hd with ⟨hi, h⟩ | h
  · rw [h]
    obtain ⟨hlt, hin⟩ := monthFirst_inRange hd (i := d.monthIndex + 1) (by omega) (by omega)
    refine ⟨⟨Date.le_of_lt hlt, hin⟩, .inr ?_⟩
    rw [monthIndex_monthFirst]
    omega
  · rw [h]
    exact ⟨goesTo_last hd, .inl rfl⟩

/-- Staying on the date means that it has a selected month, unless it is the last one. -/
theorem goesTo_inMonth (hd : d.InRange) : GoesTo d (inMonth f d) ∧
    (inMonth f d = last ∨ (inMonth f d).month ∈ f.months) := by
  obtain ⟨hy, hm, -⟩ := monthIndex_spec d
  obtain ⟨hlo, -⟩ := inRange_iff.1 hd
  have later {y : Int} {m : Nat} (hmem : m ∈ f.months) (hlt : d.monthIndex < 12 * y + m - 1)
      (hy : d.year ≤ y) : GoesTo d (firstOfMonth y m) ∧
        (firstOfMonth y m = last ∨ (firstOfMonth y m).month ∈ f.months) := by
    have hb := Selection.bounds_of_mem hmem
    rcases firstOfMonth_cases hb (y := y) (by omega) with ⟨hi, h⟩ | h
    · rw [h]
      obtain ⟨hlt', hin⟩ := monthFirst_inRange hd hlt hi
      have hmi := (monthIndex_spec (monthFirst (12 * y + m - 1))).2.1
      rw [monthIndex_monthFirst] at hmi
      refine ⟨⟨Date.le_of_lt hlt', hin⟩, .inr ?_⟩
      rwa [show (monthFirst (12 * y + m - 1)).month = m by omega]
    · rw [h]
      exact ⟨goesTo_last hd, .inl rfl⟩
  unfold inMonth
  split
  · unfold toMonth
    cases hf : f.months.from? d.month with
    | none =>
      have hl := Selection.bounds_of_mem f.months.least_mem
      exact later f.months.least_mem (by omega) (by omega)
    | some m =>
      obtain ⟨hmem, hle, -⟩ := Selection.from?_eq_some_iff.1 hf
      simp only
      split
      · next he => exact ⟨.refl hd, .inr (he ▸ hmem)⟩
      · next hne => exact later hmem (by omega) (Int.le_refl _)
  · next hr => exact ⟨.refl hd, .inr (month_mem_of_not_restricts hr d)⟩

theorem goesTo_toDay {days : Selection 1 31} (hd : d.InRange) (h : toDay days d = .ok e) :
    GoesTo d e ∧ (e = d → d ≠ last ∧ d.day ∈ days) := by
  unfold toDay at h
  split at h
  · cases h
  · next hlen =>
    -- The month of the last date is taken to have thirty days, so the search is not there.
    have hne : d ≠ last := by
      rintro rfl
      exact hlen (by decide)
    have hnext : GoesTo d (firstOfNextMonth d) ∧ firstOfNextMonth d ≠ d := by
      obtain ⟨hgo, hcase⟩ := goesTo_firstOfNextMonth hd
      refine ⟨hgo, fun he => ?_⟩
      rcases hcase with hlast | hlt
      · exact hne (he.symm.trans hlast)
      · rw [he] at hlt
        exact Int.lt_irrefl _ hlt
    split at h
    · next day hf =>
      obtain ⟨hmem, hle, -⟩ := Selection.from?_eq_some_iff.1 hf
      split at h
      · obtain ⟨hgo, he⟩ := goesTo_advance h
        refine ⟨hgo, fun hed => ⟨hne, ?_⟩⟩
        rw [hed, Date.ext_iff, dayNumber_plusDays] at he
        rwa [show d.day = day by omega]
      · cases h
        exact ⟨hnext.1, fun he => absurd he hnext.2⟩
    · cases h
      exact ⟨hnext.1, fun he => absurd he hnext.2⟩

theorem goesTo_toWeekday {weekdays : Selection 0 6} (h : toWeekday weekdays d = .ok e) :
    GoesTo d e ∧ (e = d → d.weekday ∈ weekdays) := by
  obtain ⟨n, -, heq, hfirst⟩ := toWeekday_eq weekdays d
  obtain ⟨hgo, he⟩ := goesTo_advance (heq.symm.trans h)
  refine ⟨hgo, fun hed => ?_⟩
  rw [← hed, he]
  exact hfirst.holds

/-- Where the search by week goes at the end of the range. -/
theorem goesTo_toWeek {weeks : Selection 1 5} (hd : d.InRange) (h : toWeek weeks d = .ok e) :
    GoesTo d e ∧ (e = d → d = last ∨ d.weekOfMonth ∈ weeks) := by
  unfold toWeek at h
  split at h
  · next week hf =>
    obtain ⟨hmem, hle, -⟩ := Selection.from?_eq_some_iff.1 hf
    obtain ⟨hgo, he⟩ := goesTo_advance h
    refine ⟨hgo, fun hed => .inr ?_⟩
    rw [hed, Date.ext_iff, dayNumber_plusDays] at he
    rwa [show d.weekOfMonth = week by omega]
  · cases h
    obtain ⟨hgo, hcase⟩ := goesTo_firstOfNextMonth hd
    refine ⟨hgo, fun he => .inl ?_⟩
    rcases hcase with hlast | hlt
    · exact he.symm.trans hlast
    · rw [he] at hlt
      exact absurd hlt (Int.lt_irrefl _)

/-! ## Rounds -/

theorem narrow_eq_ok_iff : narrow f d = .ok e ↔ ∃ a, onDay f (inMonth f d) = .ok a ∧
    ∃ b, onWeekday f a = .ok b ∧ onWeek f b = .ok e := by
  simp only [narrow_eq, bind_eq_ok_iff]

theorem goesTo_onDay (hd : d.InRange) (h : onDay f d = .ok e) :
    GoesTo d e ∧ (e = d → d.day ∈ f.days ∧ (d = last → ¬ f.days.Restricts)) := by
  unfold onDay at h
  split at h
  · obtain ⟨hgo, hstay⟩ := goesTo_toDay hd h
    exact ⟨hgo, fun he => ⟨(hstay he).2, fun hlast => absurd hlast (hstay he).1⟩⟩
  · next hr =>
    cases h
    exact ⟨.refl hd, fun _ => ⟨day_mem_of_not_restricts hr d, fun _ => hr⟩⟩

theorem goesTo_onWeekday (hd : d.InRange) (h : onWeekday f d = .ok e) :
    GoesTo d e ∧ (e = d → d.weekday ∈ f.weekdays) := by
  unfold onWeekday at h
  split at h
  · exact goesTo_toWeekday h
  · next hr =>
    cases h
    exact ⟨.refl hd, fun _ => weekday_mem_of_not_restricts hr d⟩

theorem goesTo_onWeek (hd : d.InRange) (h : onWeek f d = .ok e) :
    GoesTo d e ∧ (e = d → d = last ∨ d.weekOfMonth ∈ f.weeks) := by
  unfold onWeek at h
  split at h
  · exact goesTo_toWeek hd h
  · next hr =>
    cases h
    exact ⟨.refl hd, fun _ => .inr (week_mem_of_not_restricts hr d)⟩

/-- Beyond the last accepted date, the search ends on the last date of the range. -/
def StopsAtEnd (f : DateFilter) : Prop := ¬ f.days.Restricts ∧ last.weekday ∈ f.weekdays

instance (f : DateFilter) : Decidable (StopsAtEnd f) := inferInstanceAs (Decidable (_ ∧ _))

/-- A round goes forth, and leaves a date alone only if it is accepted or the last one. -/
theorem narrow_inRange (hd : d.InRange) (h : narrow f d = .ok e) :
    GoesTo d e ∧ (e = d → f.Accepts d ∨ d = last ∧ StopsAtEnd f) := by
  obtain ⟨a, ha, b, hb, he⟩ := narrow_eq_ok_iff.1 h
  obtain ⟨hgo, hmonth⟩ := goesTo_inMonth (f := f) hd
  obtain ⟨hgo₁, hday⟩ := goesTo_onDay hgo.2 ha
  obtain ⟨hgo₂, hweekday⟩ := goesTo_onWeekday hgo₁.2 hb
  obtain ⟨hgo₃, hweek⟩ := goesTo_onWeek hgo₂.2 he
  refine ⟨((hgo.trans hgo₁).trans hgo₂).trans hgo₃, ?_⟩
  rintro rfl
  obtain rfl := Date.le_antisymm hgo₃.1 ((hgo.trans hgo₁).trans hgo₂).1
  obtain rfl := Date.le_antisymm hgo₂.1 (hgo.trans hgo₁).1
  have hin := Date.le_antisymm hgo₁.1 hgo.1
  rw [hin] at hmonth hday
  obtain ⟨hday, hlast⟩ := hday rfl
  by_cases hend : a = last
  · subst hend
    exact .inr ⟨rfl, hlast rfl, hweekday rfl⟩
  · exact .inl ⟨hmonth.resolve_left hend, hday, hweekday rfl, (hweek rfl).resolve_left hend⟩

/-- A search that settles, settles on an accepted date or on the last one. -/
theorem settle_inRange (hd : d.InRange) (h : settle f n d = .ok e) :
    GoesTo d e ∧ (f.Accepts e ∨ e = last ∧ StopsAtEnd f) := by
  have hgo : GoesTo d e := by
    induction n generalizing d with
    | zero => cases h
    | succ n ih =>
      obtain ⟨d', hd', h⟩ := bind_eq_ok_iff.1 h
      obtain ⟨hgo, -⟩ := narrow_inRange hd hd'
      split at h
      · cases h
        exact .refl hd
      · exact hgo.trans (ih hgo.2 h)
  exact ⟨hgo, (narrow_inRange hgo.2 (settle_fixed h)).2 rfl⟩

/-! ## Without an accepted date -/

theorem onWeekday_of_stopsAtEnd (hd : d.InRange) (hstops : StopsAtEnd f) :
    ∃ e, onWeekday f d = .ok e ∧ IsFirst (·.weekday ∈ f.weekdays) d e := by
  unfold onWeekday
  split
  · obtain ⟨n, -, heq, hfirst⟩ := toWeekday_eq f.weekdays d
    have hle := hfirst.le_of_holds hd.2 hstops.2
    refine ⟨_, ?_, hfirst⟩
    rw [heq, Date.advance, if_pos (inRange_of_le hd hfirst.le hle)]
  · next hr =>
    exact ⟨d, rfl, .of_holds (weekday_mem_of_not_restricts hr d)⟩

/-- Where no jump leaves the range, the search by week keeps the weekday or leaves the month. -/
theorem onWeek_of_room (hd : d.InRange)
    (hroom : ∀ w ∈ f.weeks, d.dayNumber + 7 * (w - d.weekOfMonth) ≤ last.dayNumber) :
    ∃ e, onWeek f d = .ok e ∧ (e = last ∨ d.monthIndex < e.monthIndex ∨
      e.monthIndex = d.monthIndex ∧ e.weekday = d.weekday ∧ e.weekOfMonth ∈ f.weeks) := by
  unfold onWeek
  split
  · unfold toWeek
    cases hf : f.weeks.from? d.weekOfMonth with
    | none =>
      obtain ⟨-, hcase⟩ := goesTo_firstOfNextMonth hd
      exact ⟨_, rfl, hcase.imp_right .inl⟩
    | some w =>
      obtain ⟨hmem, hle, -⟩ := Selection.from?_eq_some_iff.1 hf
      have hlast := hroom w hmem
      have hin : (d.plusDays (7 * (w - d.weekOfMonth) : Nat)).InRange :=
        inRange_of_le hd (by rw [le_def, dayNumber_plusDays]; omega)
          (by rw [le_def, dayNumber_plusDays]; omega)
      have hd' : (d.plusDays (7 * (w - d.weekOfMonth) : Nat)).dayNumber =
          d.dayNumber + 7 * (w - d.weekOfMonth) := by
        rw [dayNumber_plusDays]; omega
      refine ⟨_, if_pos hin, .inr ?_⟩
      rcases Nat.lt_or_eq_of_le hle with hlt | heq
      · rcases jump_lands hlt (Selection.bounds_of_mem hmem).2 hd' with ⟨hi, hw⟩ | ⟨hi, -⟩
        · exact .inr ⟨hi, weekday_eq_of_jump hd', by rwa [hw]⟩
        · exact .inl (by omega)
      · have hself : d.plusDays (7 * (w - d.weekOfMonth) : Nat) = d := Date.ext (by omega)
        rw [hself]
        exact .inr ⟨rfl, rfl, by rwa [heq]⟩
  · next hr =>
    exact ⟨d, rfl, .inr (.inr ⟨rfl, rfl, week_mem_of_not_restricts hr d⟩)⟩

section Unaccepted

variable (hd : d.InRange) (hstops : StopsAtEnd f) (hnone : ∀ e, d ≤ e → e ≤ last → ¬ f.Accepts e)
include hd hstops hnone

/-- From the first selected weekday, no jump leaves the range: four weeks before its end there is a
selected weekday, and from later on only weeks before the fifth can be selected. -/
theorem room_of_stopsAtEnd {b : Date}
    (hfirst : IsFirst (·.weekday ∈ f.weekdays) (inMonth f d) b) :
    ∀ w ∈ f.weeks, b.dayNumber + 7 * (w - b.weekOfMonth) ≤ last.dayNumber := by
  intro w hw
  obtain ⟨hgo, hmonth⟩ := goesTo_inMonth (f := f) hd
  have hbounds := Selection.bounds_of_mem hw
  have hbw := weekOfMonth_bounds b
  have hle := hfirst.le
  have hlast := hfirst.le_of_holds hgo.2.2 hstops.2
  have hweekday : (last.plusDays (-28)).weekday ∈ f.weekdays := hstops.2
  by_contra hbeyond
  have hlate : last.plusDays (-28) < inMonth f d := by
    by_contra hlt
    have hle' := hfirst.le_of_holds (Date.not_lt.1 hlt) hweekday
    rw [le_def, dayNumber_plusDays] at hle'
    omega
  simp only [le_def, lt_def, dayNumber_plusDays] at hle hlast hlate hgo
  -- So the search is in the last month of the range.
  have hlastm := (monthIndex_eq_iff (d := last)).1 rfl
  have hlen : monthBegin last.monthIndex + 30 = last.dayNumber := by decide
  have hi : (inMonth f d).monthIndex = last.monthIndex := by rw [monthIndex_eq_iff]; omega
  have hib : b.monthIndex = last.monthIndex := by rw [monthIndex_eq_iff]; omega
  have hweek := weekOfMonth_eq b
  rw [hib] at hweek
  have hne : w ≠ 5 := by
    rintro rfl
    rcases hmonth with heq | hmem
    · rw [heq] at hle
      omega
    · exact hnone last hd.2 (Date.le_refl _) ⟨month_eq_of_monthIndex_eq hi ▸ hmem,
        day_mem_of_not_restricts hstops.1 last, hstops.2, hw⟩
  omega

/-- A round goes to the last date or to a later month. -/
theorem narrow_of_stopsAtEnd : ∃ e, narrow f d = .ok e ∧ (e = last ∨ d.monthIndex < e.monthIndex) := by
  obtain ⟨hgo, hmonth⟩ := goesTo_inMonth (f := f) hd
  have hday : onDay f (inMonth f d) = .ok (inMonth f d) := if_neg hstops.1
  obtain ⟨b, hb, hfirst⟩ := onWeekday_of_stopsAtEnd hgo.2 hstops
  obtain ⟨hgob, -⟩ := goesTo_onWeekday hgo.2 hb
  obtain ⟨e, he, hcase⟩ := onWeek_of_room hgob.2 (room_of_stopsAtEnd hd hstops hnone hfirst)
  have hnarrow := narrow_eq_ok_iff.2 ⟨_, hday, b, hb, he⟩
  refine ⟨e, hnarrow, ?_⟩
  have hi := monthIndex_mono hgo.1
  have hib := monthIndex_mono hgob.1
  obtain ⟨hgoe, -⟩ := goesTo_onWeek hgob.2 he
  have hie := monthIndex_mono hgoe.1
  rcases hcase with hlast | hlater | ⟨hsame, hweekday, hweek⟩
  · exact .inl hlast
  · exact .inr (by omega)
  · by_contra hstuck
    rw [not_or] at hstuck
    have hin : e.monthIndex = (inMonth f d).monthIndex := by omega
    have hle := Date.le_trans hgob.1 hgoe.1
    rcases hmonth with heq | hmem
    · exact hstuck.1 (Date.le_antisymm hgoe.2.2 (heq ▸ hle))
    · exact hnone e (Date.le_trans hgo.1 hle) hgoe.2.2
        ⟨month_eq_of_monthIndex_eq hin ▸ hmem, day_mem_of_not_restricts hstops.1 e,
          hweekday ▸ hfirst.holds, hweek⟩

end Unaccepted

theorem settle_at_last (hstops : StopsAtEnd f) (hnone : ¬ f.Accepts last) :
    settle f (n + 1) last = .ok last := by
  have hin : last.InRange := by decide
  obtain ⟨e, he, -⟩ := narrow_of_stopsAtEnd hin hstops fun e hle hle' => by
    obtain rfl := Date.le_antisymm hle' hle
    exact hnone
  obtain ⟨hgo, -⟩ := narrow_inRange hin he
  obtain rfl := Date.le_antisymm hgo.2.2 hgo.1
  simp only [settle, he, bind, Except.bind, if_true]

/-- Without an accepted date left, the search settles on the last date if it stops there. -/
theorem settle_last (hd : d.InRange) (hstops : StopsAtEnd f)
    (hnone : ∀ e, d ≤ e → e ≤ last → ¬ f.Accepts e) (hn : last.monthIndex - d.monthIndex + 2 ≤ n) :
    settle f n d = .ok last := by
  induction n generalizing d with
  | zero => have := monthIndex_mono hd.2; omega
  | succ n ih =>
    obtain ⟨e, he, hcase⟩ := narrow_of_stopsAtEnd hd hstops hnone
    obtain ⟨hgo, -⟩ := narrow_inRange hd he
    have hi := monthIndex_mono hd.2
    have hnone' (c : Date) (hec : e ≤ c) : c ≤ last → ¬ f.Accepts c :=
      hnone c (Date.le_trans hgo.1 hec)
    simp only [settle, he, bind, Except.bind]
    split
    · next hstay =>
      rcases hcase with hlast | hlt
      · rw [← hstay, hlast]
      · rw [hstay] at hlt
        exact absurd hlt (Int.lt_irrefl _)
    · next hne =>
      rcases hcase with rfl | hlt
      · obtain ⟨n, rfl⟩ : ∃ k, n = k + 1 := ⟨n - 1, by omega⟩
        exact settle_at_last hstops (hnone last hd.2 (Date.le_refl _))
      · exact ih hgo.2 hnone' (by omega)

end Recurrence.DateSearch
