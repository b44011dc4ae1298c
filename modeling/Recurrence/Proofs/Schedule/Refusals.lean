import Mathlib
import Recurrence.Proofs.Schedule.Validation
/-!
# Why a schedule is not made

A function that makes a schedule fails only if one of its checks does. If numbers are refused for lying
outside their domain, then the fault has exactly those of them that do (`ListsOutside`); and if days and
months never occur together, then no date has such a day and month, in whatever year
(`Schedule.nthDay_refused`).
-/

namespace Recurrence

variable {fault : Fault}

/-- A step that follows another one fails if either does. -/
theorem bind_eq_error_iff {ε α β : Type} {x : Except ε α} {f : α → Except ε β} {e : ε} :
    x >>= f = .error e ↔ x = .error e ∨ ∃ a, x = .ok a ∧ f a = .error e := by
  cases x with
  | error e' => simp [bind, Except.bind]
  | ok a => simp [bind, Except.bind]

/-! ## Sets -/

/-- The numbers outside the domain: there are some, and they are in ascending order. -/
structure ListsOutside (lo hi : Nat) (numbers outside : List Nat) : Prop where
  nonempty : outside ≠ []
  ascending : outside.Pairwise (· < ·)
  mem_iff : ∀ n, n ∈ outside ↔ n ∈ numbers ∧ ¬ (lo ≤ n ∧ n ≤ hi)

theorem FilterPart.select_cases (part : FilterPart) {lo hi : Nat} {numbers : List Nat}
    (hne : numbers ≠ []) :
    ListsSet lo hi numbers ∨ ∃ outside, ListsOutside lo hi numbers outside ∧
      (part.select numbers : Except Fault (Selection lo hi)) =
        .error (.outsideDomain part outside) := by
  by_cases hwithin : ∀ n ∈ numbers, lo ≤ n ∧ n ≤ hi
  · exact .inl ⟨hne, hwithin⟩
  · obtain ⟨n, hn, hout⟩ : ∃ n ∈ ascendingOf numbers, ¬ (lo ≤ n ∧ n ≤ hi) := by
      simpa only [mem_ascendingOf, not_forall, exists_prop] using hwithin
    have hnot : ¬ ∀ n ∈ ascendingOf numbers, lo ≤ n ∧ n ≤ hi := fun h => hout (h n hn)
    refine .inr ⟨(ascendingOf numbers).filter fun n => ¬ (lo ≤ n ∧ n ≤ hi), ⟨?_, ?_, ?_⟩, ?_⟩
    · exact List.ne_nil_of_mem (List.mem_filter.2 ⟨hn, decide_eq_true hout⟩)
    · exact (pairwise_ascendingOf numbers).filter _
    · intro n
      rw [List.mem_filter, mem_ascendingOf, decide_eq_true_eq]
    · rw [select, Selection.of?]
      simp only [dif_neg (List.ne_nil_of_mem hn), dif_neg hnot]

/-! ## Calendar schedules -/

namespace Schedule

variable {time : TimeOfDay} {weeks weekdays days months : List Nat}

theorem dailyIn_ok (time : TimeOfDay) (hmonths : ListsSet 1 12 months) :
    ∃ s, dailyIn time months = .ok s := by
  obtain ⟨m, hm, -⟩ := FilterPart.months.select_ok hmonths
  obtain ⟨-, r, hr⟩ | ⟨hnever, -⟩ := CalendarRule.of_cases (.everyDay m) time.clockTime
  · simp only [dailyIn, bind_eq_ok_iff]
    exact ⟨.calendar r, m, hm, r, hr, rfl⟩
  · exact absurd (DateFilter.weekly_occurs DateFilter.allWeeks DateFilter.allWeekdays m) hnever

theorem nthWeekday_refused (hne : weeks ≠ []) (hweekdays : ListsSet 0 6 weekdays)
    (hmonths : ListsSet 1 12 months) (h : nthWeekday time weeks weekdays months = .error fault) :
    ∃ outside, ListsOutside 1 5 weeks outside ∧ fault = .outsideDomain .weeks outside := by
  obtain hweeks | ⟨outside, hout, hselect⟩ := FilterPart.weeks.select_cases hne
  · obtain ⟨s, hs⟩ := nthWeekday_ok time hweeks hweekdays hmonths
    rw [hs] at h
    cases h
  · rw [nthWeekday, hselect] at h
    cases h
    exact ⟨outside, hout, rfl⟩

theorem nthDay_refused (hne : days ≠ []) (hmonths : ListsSet 1 12 months)
    (h : nthDay time days months = .error fault) :
    (∃ outside, ListsOutside 1 31 days outside ∧ fault = .outsideDomain .days outside) ∨
    ∃ (d : Selection 1 31) (m : Selection 1 12), (∀ n, n ∈ d ↔ n ∈ days) ∧
      (∀ n, n ∈ m ↔ n ∈ months) ∧ (∀ date : Date, ¬ (date.day ∈ days ∧ date.month ∈ months)) ∧
      fault = .neverOccurs (.monthly d m) time.clockTime := by
  obtain hdays | ⟨outside, hout, hselect⟩ := FilterPart.days.select_cases hne
  · obtain ⟨d, hd, hmemd⟩ := FilterPart.days.select_ok hdays
    obtain ⟨m, hm, hmemm⟩ := FilterPart.months.select_ok hmonths
    rw [nthDay, hd, hm] at h
    refine .inr ⟨d, m, hmemd, hmemm, ?_⟩
    obtain ⟨-, r, hr⟩ | ⟨hnever, hr⟩ := CalendarRule.of_cases (.monthly d m) time.clockTime
    · simp only [bind, Except.bind, hr] at h
      cases h
    · simp only [bind, Except.bind, hr] at h
      cases h
      refine ⟨fun date hdate => hnever (DateFilter.occurs_of_accepts (d := date) ?_), rfl⟩
      rwa [DateFilter.accepts_monthly, hmemd, hmemm]
  · rw [nthDay, hselect] at h
    cases h
    exact .inl ⟨outside, hout, rfl⟩

end Schedule

/-! ## Interval schedules -/

theorem Pattern.within_refused {start stop : ClockTime} (h : within start stop = .error fault) :
    stop < start ∧ fault = .windowReversed start stop := by
  unfold within at h
  split at h
  · cases h
  · next hnot =>
    cases h
    exact ⟨Nat.lt_of_not_le hnot, rfl⟩

theorem IntervalRule.of_refused {length : Nat} {unit : TimeUnit} {pattern : Pattern}
    (h : IntervalRule.of length unit pattern = .error fault) :
    (length = 0 ∧ fault = .zeroLength) ∨
    (366 * 86400 < length * unit.seconds ∧ fault = .stepTooLong length unit) ∨
    (pattern = .synchronized ∧ 86400 % (length * unit.seconds) ≠ 0 ∧
      fault = .stepUneven length unit) := by
  unfold IntervalRule.of at h
  split at h
  · next hzero =>
    cases h
    exact .inl ⟨hzero, rfl⟩
  · split at h
    · split at h
      · cases h
      · next huneven =>
        cases h
        rw [Classical.not_imp] at huneven
        exact .inr (.inr ⟨huneven.1, huneven.2, rfl⟩)
    · next hlong =>
      cases h
      exact .inr (.inl ⟨Nat.lt_of_not_le hlong, rfl⟩)

end Recurrence
