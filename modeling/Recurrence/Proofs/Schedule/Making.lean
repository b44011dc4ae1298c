import Mathlib
import Recurrence.Proofs.Selections
import Recurrence.Schedule.Basic
/-!
# How schedules are made

All calendar schedules are made by one of two functions, by week and weekday or by day of the month
(`weeklyIn_eq`, `dailyIn_eq`), and all others are those with full sets. A rule is made again from its
own members (`nthWeekday_members`, `nthDay_members`, `IntervalRule.schedule_of_fields`), since no check
that it has passed can fail.
-/

namespace Recurrence

/-- A step that follows another one succeeds if both do. -/
theorem bind_eq_ok_iff {ε α β : Type} {x : Except ε α} {f : α → Except ε β} {b : β} :
    x >>= f = .ok b ↔ ∃ a, x = .ok a ∧ f a = .ok b := by
  cases x with
  | error e => simp [bind, Except.bind]
  | ok a => simp [bind, Except.bind]

/-! ## Sets from their own members -/

theorem insertAscending_of_forall_lt {n : Nat} {l : List Nat} (h : ∀ m ∈ l, n < m) :
    insertAscending n l = n :: l := by
  cases l with
  | nil => rfl
  | cons m rest => rw [insertAscending, if_pos (h m List.mem_cons_self)]

theorem ascendingOf_of_pairwise {l : List Nat} (h : l.Pairwise (· < ·)) : ascendingOf l = l := by
  induction h with
  | nil => rfl
  | cons hlt _ ih =>
    show insertAscending _ (ascendingOf _) = _
    rw [ih, insertAscending_of_forall_lt hlt]

theorem FilterPart.select_members (part : FilterPart) {lo hi : Nat} (s : Selection lo hi) :
    part.select s.members = .ok s := by
  have hasc := ascendingOf_of_pairwise s.ascending
  have hof : Selection.of? s.members = .ok s := by
    simp only [Selection.of?, hasc, s.nonempty, dite_false]
    rw [dif_pos s.within]
  rw [select, hof]

/-- A set that restricts nothing is the whole domain. -/
theorem Selection.eq_full {lo hi : Nat} (h : lo ≤ hi) {s : Selection lo hi} (hs : ¬ s.Restricts) :
    s = .full h := by
  have hmem (n : Nat) : n ∈ s.members ↔ n ∈ (Selection.full h).members :=
    ⟨fun hn => mem_of_not_restricts (not_restricts_full h) (s.within n hn),
      fun hn => mem_of_not_restricts hs ((Selection.full h).within n hn)⟩
  have hperm := (List.perm_ext_iff_of_nodup (s.ascending.imp Nat.ne_of_lt)
    ((Selection.full h).ascending.imp Nat.ne_of_lt)).2 hmem
  exact Selection.ext (hperm.eq_of_pairwise (fun a b _ _ => by omega) s.ascending
    (Selection.full h).ascending)

/-! ## Calendar schedules -/

theorem CalendarRule.of_filter (r : CalendarRule) : CalendarRule.of r.filter r.time = .ok r :=
  dif_pos r.occurs

theorem CalendarRule.of_eq_ok {f : DateFilter} {time : ClockTime} {r : CalendarRule}
    (h : CalendarRule.of f time = .ok r) : r.filter = f ∧ r.time = time := by
  unfold CalendarRule.of at h
  split at h
  · cases h; exact ⟨rfl, rfl⟩
  · cases h

namespace Schedule

variable {time : TimeOfDay} {weeks weekdays days months : List Nat} {s : Schedule}

theorem weeklyIn_eq : weeklyIn time weekdays months =
    nthWeekday time DateFilter.allWeeks.members weekdays months := by
  rw [weeklyIn, nthWeekday, FilterPart.select_members]
  rfl

theorem weekly_eq : weekly time weekdays = weeklyIn time weekdays DateFilter.allMonths.members := by
  rw [weekly, weeklyIn, FilterPart.select_members]
  rfl

theorem dailyIn_eq : dailyIn time months = nthDay time DateFilter.allDays.members months := by
  rw [dailyIn, nthDay, FilterPart.select_members]
  rfl

theorem daily_eq : daily time = dailyIn time DateFilter.allMonths.members := by
  rw [daily, dailyIn, FilterPart.select_members]
  rfl

theorem daily_eq_ok (h : daily time = .ok s) : ∃ r, s = .calendar r ∧
    r.filter = .everyDay DateFilter.allMonths ∧ r.time = time.clockTime := by
  simp only [daily, bind_eq_ok_iff] at h
  obtain ⟨r, hr, ⟨⟩⟩ := h
  obtain ⟨hf, ht⟩ := CalendarRule.of_eq_ok hr
  exact ⟨r, rfl, hf, ht⟩

theorem nthWeekday_eq_ok (h : nthWeekday time weeks weekdays months = .ok s) :
    ∃ r w d m, s = .calendar r ∧ FilterPart.weeks.select weeks = .ok w ∧
      r.filter = .weekly w d m ∧ r.time = time.clockTime := by
  simp only [nthWeekday, bind_eq_ok_iff] at h
  obtain ⟨w, hw, d, -, m, -, r, hr, ⟨⟩⟩ := h
  obtain ⟨hf, ht⟩ := CalendarRule.of_eq_ok hr
  exact ⟨r, w, d, m, rfl, hw, hf, ht⟩

theorem nthDay_eq_ok (h : nthDay time days months = .ok s) :
    ∃ r d m, s = .calendar r ∧ r.filter = .monthly d m ∧ r.time = time.clockTime := by
  simp only [nthDay, bind_eq_ok_iff] at h
  obtain ⟨d, -, m, -, r, hr, ⟨⟩⟩ := h
  obtain ⟨hf, ht⟩ := CalendarRule.of_eq_ok hr
  exact ⟨r, d, m, rfl, hf, ht⟩

end Schedule

/-- Without a set of days, a filter is made by week and weekday. -/
theorem DateFilter.eq_weekly {f : DateFilter} (h : ¬ f.days.Restricts) :
    f = .weekly f.weeks f.weekdays f.months :=
  DateFilter.ext rfl rfl (Selection.eq_full (by decide) h) rfl

theorem DateFilter.eq_monthly {f : DateFilter} (h : ¬ f.weeks.Restricts ∧ ¬ f.weekdays.Restricts) :
    f = .monthly f.days f.months :=
  DateFilter.ext (Selection.eq_full (by decide) h.1) (Selection.eq_full (by decide) h.2) rfl rfl

theorem CalendarRule.nthWeekday_members (r : CalendarRule) (h : ¬ r.filter.days.Restricts) :
    Schedule.nthWeekday r.time.timeOfDay r.filter.weeks.members r.filter.weekdays.members
      r.filter.months.members = .ok (.calendar r) := by
  simp only [Schedule.nthWeekday, FilterPart.select_members, bind, Except.bind,
    ClockTime.clockTime_timeOfDay, ← DateFilter.eq_weekly h, r.of_filter]
  rfl

theorem CalendarRule.nthDay_members (r : CalendarRule)
    (h : ¬ r.filter.weeks.Restricts ∧ ¬ r.filter.weekdays.Restricts) :
    Schedule.nthDay r.time.timeOfDay r.filter.days.members r.filter.months.members =
      .ok (.calendar r) := by
  simp only [Schedule.nthDay, FilterPart.select_members, bind, Except.bind,
    ClockTime.clockTime_timeOfDay, ← DateFilter.eq_monthly h, r.of_filter]
  rfl

/-! ## Interval schedules -/

theorem IntervalRule.of_fields (r : IntervalRule) :
    IntervalRule.of r.length r.unit r.pattern = .ok r := by
  rw [of, dif_neg (Nat.ne_of_gt r.length_pos), dif_pos r.step_le, dif_pos r.divides]

theorem IntervalRule.of_eq_ok {length : Nat} {unit : TimeUnit} {pattern : Pattern} {r : IntervalRule}
    (h : IntervalRule.of length unit pattern = .ok r) :
    r.length = length ∧ r.unit = unit ∧ r.pattern = pattern := by
  unfold IntervalRule.of at h
  split at h
  · cases h
  · split at h
    · split at h
      · cases h; exact ⟨rfl, rfl, rfl⟩
      · cases h
    · cases h

theorem IntervalRule.schedule_of_fields (r : IntervalRule) {pattern : Pattern}
    (h : r.pattern = pattern) :
    (do return .interval (← IntervalRule.of r.length r.unit pattern) : Except Fault Schedule) =
      .ok (.interval r) := by
  rw [← h, r.of_fields]
  rfl

end Recurrence
