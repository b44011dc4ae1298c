import Recurrence.Occurrence.Cursor
import Recurrence.Proofs.Expression.Reading
import Recurrence.Stored
/-!
# Canonical text is read back

The canonical text of a schedule is derived in the language of expressions, and its value is the
schedule (`Schedule.reads_canonical`). It is lower-case and begins with no shorthand, like every
derived expression, so that nothing happens to it before it is read (`Schedule.parse_derived`).
Since an expression has one value at most, schedules with the same text are equal
(`Schedule.canonical_injective`).
-/

namespace Recurrence

open Grammar

/-! ## Derived expressions are lower-case -/

namespace Text

theorem lowerChar_of_ascii {c : Char} (hascii : c.toNat < 128) (hupper : ¬ ('A' ≤ c ∧ c ≤ 'Z')) :
    lowerChar c = [c] := by
  rw [lowerChar, if_neg hupper, if_pos hascii]

theorem lowercaseAfter_of_ascii {text : List Char}
    (h : ∀ c ∈ text, c.toNat < 128 ∧ ¬ ('A' ≤ c ∧ c ≤ 'Z')) (before : List Char) :
    lowercaseAfter before text = text := by
  induction text generalizing before with
  | nil => rfl
  | cons c rest ih =>
    obtain ⟨hascii, hupper⟩ := h c List.mem_cons_self
    have hsigma : c ≠ 'Σ' := by
      rintro rfl
      exact absurd hascii (by decide)
    rw [lowercaseAfter, if_neg hsigma, lowerChar_of_ascii hascii hupper,
      ih fun c' hc' => h c' (List.mem_cons_of_mem c hc')]
    rfl

end Text

namespace Grammar

variable {p : Production} {ws more : List Word} {w : Word} {e rest : List Char}
  {value : Except Fault Schedule}

theorem isPlain_ascii {c : Char} (h : isPlain c) : c.toNat < 128 ∧ ¬ ('A' ≤ c ∧ c ≤ 'Z') := by
  simp only [isPlain, Char.isLower, Char.isDigit, Bool.or_eq_true, Bool.and_eq_true,
    decide_eq_true_eq, beq_iff_eq, ge_iff_le, UInt32.le_iff_toNat_le] at h
  simp only [Char.le_def, UInt32.le_iff_toNat_le, Char.toNat]
  rcases h with ((h | h) | rfl) | rfl
  · change 97 ≤ c.val.toNat ∧ c.val.toNat ≤ 122 at h
    change c.val.toNat < 128 ∧ ¬ (65 ≤ c.val.toNat ∧ c.val.toNat ≤ 90)
    omega
  · change 48 ≤ c.val.toNat ∧ c.val.toNat ≤ 57 at h
    change c.val.toNat < 128 ∧ ¬ (65 ≤ c.val.toNat ∧ c.val.toNat ≤ 90)
    omega
  · decide
  · decide

theorem lowercase_of_reads (h : Reads p e value) : Text.lowercase e = e := by
  obtain ⟨ws, rfl, h⟩ := h
  refine Text.lowercaseAfter_of_ascii (fun c hc => ?_) []
  rcases mem_of_mem_intercalate hc with rfl | ⟨w, hw, hc⟩
  · decide
  · have hplain := List.all_eq_true.1 (List.all_eq_true.1 h.isWritten w hw) c hc
    rw [Bool.or_eq_true, beq_iff_eq] at hplain
    rcases hplain with hplain | rfl
    · exact isPlain_ascii hplain
    · decide

/-! ## Derived expressions begin with no shorthand -/

/-- A word that follows `every` at the start of derived words. -/
inductive Second : Word → Prop
  | day : Second "day".toList
  | months : Second "of".toList
  | number {word : Word} {n : Nat} (h : Number word n) : Second word
  | weekdays {word : Word} {ns : List Nat} (h : Items Weekday word ns) : Second word
  | time {word : Word} {t : ClockTime} (h : Time word t) : Second word

theorem Derives.second (h : Derives p ws value) (hws : ws = "every".toList :: w :: more) :
    Second w := by
  cases h with
  | everyDay hm ht =>
    cases hws
    exact .day
  | every hn hu =>
    cases hws
    exact .number hn
  | synchronized hn hu =>
    cases hws
    exact .number hn
  | between hn hu ha hb =>
    cases hws
    exact .number hn
  | weekly hd hm ht =>
    cases hws
    exact .weekdays hd
  | daily hm ht =>
    cases hm with
    | all =>
      cases hws
      exact .time ht
    | of hm =>
      cases hws
      exact .months
  | nthWeekday ho hd hm ht =>
    cases hws
    exact absurd ho Clause.not_items_ordinal_every
  | nthDay ho hm ht =>
    simp only [List.cons_append, List.nil_append, List.cons.injEq] at hws
    rw [hws.1] at ho
    exact absurd ho Clause.not_items_ordinal_every

theorem not_second_of_unread (hkeyword : w ∉ ["day".toList, "of".toList])
    (hunread : (Token.length w).isOk = false ∧ (Token.listOf Token.weekday w).isOk = false ∧
      (Token.clockTime w).isOk = false) : ¬ Second w := by
  rintro (_ | _ | h | h | h)
  · exact hkeyword (by decide)
  · exact hkeyword (by decide)
  · rw [length_eq_ok_iff.2 h] at hunread
    cases hunread.1
  · rw [weekdays_eq_ok_iff.2 h] at hunread
    cases hunread.2.1
  · rw [clockTime_eq_ok_iff.2 h] at hunread
    cases hunread.2.2

theorem Reads.second (h : Reads p ("every ".toList ++ w ++ rest) value) (hw : ' ' ∉ w)
    (hrest : EndsWord rest) : Second w := by
  obtain ⟨ws, he, h⟩ := h
  have hws : ∃ more, ws = "every".toList :: w :: more := by
    rw [← splitOn_sentence h, ← he]
    exact Clause.splitOn_every_iff.2 ⟨hw, rest, hrest, rfl⟩
  obtain ⟨more, hws⟩ := hws
  exact h.second hws

theorem Reads.expands (h : Reads p e value) : Expands e e := by
  refine .unchanged ?_ ?_
  · rintro rest hrest rfl
    exact not_second_of_unread (by decide) (by decide) (h.second (by decide) hrest)
  · rintro rest hrest rfl
    exact not_second_of_unread (by decide) (by decide) (h.second (by decide) hrest)

end Grammar

namespace Schedule

variable {p : Production} {e : List Char} {value : Except Fault Schedule}

theorem parse_derived (h : Reads p e value) : parse e = value :=
  parse_of_reads (by rw [lowercase_of_reads h]; exact h.expands) h

end Schedule

/-! ## Canonical words -/

namespace Grammar

theorem digits_decimal (n : Nat) : Digits (Text.decimal n) :=
  fun _ hc => Nat.isDigit_of_mem_toDigits (by decide) (by decide) hc

theorem number_decimal {n : Nat} (h : n < 4294967296) : Number (Text.decimal n) n where
  nonempty := Nat.toDigits_ne_nil
  digits := digits_decimal n
  value := Nat.ofDigitChars_ten_toDigits
  fits := h

theorem ordinal_decimal {n : Nat} (h : n ≤ 31) : Ordinal (Text.decimal n) n := by
  have hlength : ∀ n < 32, (Text.decimal n).length = 1 ∨ (Text.decimal n).length = 2 := by decide
  have hcounted := Ordinal.counted (digits_decimal n) (hlength n (by omega)) (.inl rfl)
  rwa [List.append_nil, Text.decimal, Nat.ofDigitChars_ten_toDigits] at hcounted

theorem paddedDecimal_two {n : Nat} (h : n < 60) : ∃ a b, Text.paddedDecimal 2 n = [a, b] ∧
    Digits [a, b] ∧ Nat.ofDigitChars 10 [a, b] 0 = n := by
  have hall : ∀ n < 60, (Text.paddedDecimal 2 n).length = 2 ∧
      (Text.paddedDecimal 2 n).all Char.isDigit ∧
      Nat.ofDigitChars 10 (Text.paddedDecimal 2 n) 0 = n := by decide
  obtain ⟨hlength, hdigits, hvalue⟩ := hall n h
  obtain ⟨a, b, hab⟩ := List.length_eq_two.1 hlength
  rw [hab] at hdigits hvalue
  exact ⟨a, b, hab, List.all_eq_true.1 hdigits, hvalue⟩

theorem time_text (t : ClockTime) : Time t.text t := by
  have hlt := t.minuteOfDay_lt
  have hhour : t.hour < 60 := by unfold ClockTime.hour; omega
  have hminute : t.minute < 60 := Nat.mod_lt _ (by decide)
  obtain ⟨h₁, h₂, htext, hdigits, hvalue⟩ := paddedDecimal_two hhour
  obtain ⟨m₁, m₂, htext', hdigits', hvalue'⟩ := paddedDecimal_two hminute
  rw [ClockTime.text, htext, htext']
  refine .clock (fun c hc => ?_) hvalue hvalue'
  rcases List.mem_append.1 (show c ∈ [h₁, h₂] ++ [m₁, m₂] from hc) with hc | hc
  · exact hdigits c hc
  · exact hdigits' c hc

theorem unitName_text (u : TimeUnit) : UnitName u.text u := by
  cases u with
  | minutes => exact .minutes
  | hours => exact .hours

theorem weekday_name {n : Nat} (h : n ≤ 6) : Weekday (weekdayName n) n := by
  have hn : n < weekdayNames.length := Nat.lt_succ_of_le h
  refine ⟨weekdayName n, ?_, .inl rfl⟩
  rw [weekdayName, List.getD_eq_getElem _ _ hn, List.getElem?_eq_getElem hn]

theorem month_name {n : Nat} (h : 1 ≤ n) (h' : n ≤ 12) : Month (monthName n) n := by
  obtain ⟨i, rfl⟩ := Nat.exists_eq_add_of_le' h
  have hi : i < monthNames.length := Nat.lt_of_succ_le h'
  refine ⟨i, ⟨monthName (i + 1), ?_, .inl rfl⟩, rfl⟩
  rw [monthName, List.getD_eq_getElem _ _ hi, List.getElem?_eq_getElem hi]

theorem items_members {Item : Word → Nat → Prop} {lo hi : Nat} (s : Selection lo hi)
    {name : Nat → Word} (h : ∀ n, lo ≤ n → n ≤ hi → Item (name n) n) :
    Items Item (Canonical.enumeration (s.members.map name)) s.members := by
  refine ⟨s.members.map name, by simpa using s.nonempty, ?_, rfl⟩
  rw [List.forall₂_map_left_iff, List.forall₂_same]
  exact fun n hn => h n (s.within n hn).1 (s.within n hn).2

theorem months_monthWords (s : Selection 1 12) : Months (Canonical.monthWords s) s.members := by
  rw [Canonical.monthWords]
  split
  · exact .of (items_members s fun n => month_name)
  · next h =>
    rw [Selection.eq_full (by decide) h]
    exact .all

end Grammar

theorem IntervalRule.derives_words (r : IntervalRule) :
    Derives .interval r.words (.ok (.interval r)) := by
  have hlength : Number (Text.decimal r.length) r.length := by
    have hstep := r.step_le
    have hunit := r.unit.seconds_pos
    refine number_decimal ?_
    have := Nat.le_mul_of_pos_right r.length hunit
    unfold maxStep at hstep
    omega
  have hunit := unitName_text r.unit
  unfold IntervalRule.words Canonical.intervalWords
  cases hpattern : r.pattern with
  | free =>
    rw [← r.schedule_of_fields hpattern]
    exact .every hlength hunit
  | synchronized =>
    rw [← r.schedule_of_fields hpattern]
    exact .synchronized hlength hunit
  | between start stop ordered =>
    have hvalue : Schedule.everyBetween start.timeOfDay stop.timeOfDay r.length r.unit =
        .ok (.interval r) := by
      simp only [Schedule.everyBetween, ClockTime.clockTime_timeOfDay, Pattern.within,
        dif_pos ordered]
      exact r.schedule_of_fields hpattern
    rw [← hvalue]
    exact .between hlength hunit (time_text start) (time_text stop)

theorem CalendarRule.derives_words (r : CalendarRule) :
    ∃ p, Derives p r.words (.ok (.calendar r)) := by
  have hmonths := months_monthWords r.filter.months
  have htime := time_text r.time
  have hweekdays : Items Weekday (Canonical.enumeration (r.filter.weekdays.members.map weekdayName))
      r.filter.weekdays.members := items_members _ fun _ _ h => weekday_name h
  unfold CalendarRule.words Canonical.calendarWords Canonical.dayWords
  -- Each of the five shapes leaves out full sets, which the production for that shape puts back.
  by_cases hdays : r.filter.days.Restricts
  · rw [if_pos hdays, ← r.nthDay_members (r.filter.apart hdays)]
    exact ⟨_, .nthDay (items_members _ fun n _ h => ordinal_decimal h) hmonths htime⟩
  · rw [if_neg hdays]
    by_cases hfree : ¬ r.filter.weeks.Restricts ∧ ¬ r.filter.weekdays.Restricts
    · have hfull : r.filter.days = DateFilter.allDays := Selection.eq_full (by decide) hdays
      rw [if_pos hfree, ← r.nthDay_members hfree, hfull, ← Schedule.dailyIn_eq]
      exact ⟨_, .everyDay hmonths htime⟩
    · rw [if_neg hfree, ← r.nthWeekday_members hdays]
      by_cases hweeks : r.filter.weeks.Restricts
      · rw [if_pos hweeks]
        exact ⟨_, .nthWeekday (items_members _ fun n _ h => ordinal_decimal (by omega)) hweekdays
          hmonths htime⟩
      · have hfull : r.filter.weeks = DateFilter.allWeeks := Selection.eq_full (by decide) hweeks
        rw [if_neg hweeks, hfull, ← Schedule.weeklyIn_eq]
        exact ⟨_, .weekly hweekdays hmonths htime⟩

namespace Schedule

variable {s t : Schedule}

theorem reads_canonical (s : Schedule) : ∃ p, Reads p s.canonical (.ok s) := by
  cases s with
  | interval r => exact ⟨.interval, r.words, rfl, r.derives_words⟩
  | calendar r =>
    obtain ⟨p, h⟩ := r.derives_words
    exact ⟨p, r.words, rfl, h⟩

theorem canonical_injective (h : s.canonical = t.canonical) : s = t := by
  obtain ⟨p, hs⟩ := s.reads_canonical
  obtain ⟨q, ht⟩ := t.reads_canonical
  rw [← h] at ht
  exact Except.ok.inj (hs.unique ht).2

theorem beq_iff_eq : (s == t) = true ↔ s = t := by
  constructor
  · intro h
    exact canonical_injective (LawfulBEq.eq_of_beq h)
  · rintro rfl
    exact beq_self_eq_true s.canonical

/-- The canonical text of a schedule is read as the schedule itself, and so is the stored form.
Equality of canonical texts is equality of schedules, and equal schedules have the same next
occurrence from any instant in any zone. -/
theorem parse_canonical (s : Schedule) : parse s.canonical = .ok s ∧ load s.store = .ok s ∧
    (∀ t, (s == t) = true ↔ s = t) ∧
    ∀ t, (s == t) = true → ∀ z i bound, s.nextFrom z i bound = t.nextFrom z i bound := by
  obtain ⟨p, hs⟩ := s.reads_canonical
  refine ⟨parse_derived hs, parse_derived hs, fun t => beq_iff_eq, fun t ht z i bound => ?_⟩
  rw [beq_iff_eq.1 ht]

end Schedule

end Recurrence
