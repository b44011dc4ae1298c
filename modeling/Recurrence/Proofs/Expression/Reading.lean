import Recurrence.Proofs.Expression.Shapes
/-!
# Expressions are read as the language has them

A clause that gives a schedule is derived with that value (`Clause.derives_of_schedule`), and derived
words are the words of one clause alone, which gives their value (`Clause.exists_of_derives`). So no
expression is derived in two ways (`Reads.unique`), and a text is accepted if and only if it is
derived once its shorthand is written out (`Schedule.parse_eq_ok_iff`).
-/

namespace Recurrence

open Grammar

namespace Clause

variable {c : Clause} {ws : List Word} {m : Option Word} {s : Schedule}

/-- The production of a clause. -/
def production : Clause → Production
  | everyDay _ _ => .everyDay
  | interval _ _ _ => .interval
  | calendar _ _ _ _ => .calendar

theorem eq_words_of_ofWords? (h : ofWords? ws = some c) : ws = c.words := by
  have ofCalendar {ws : List Word} (h : ofCalendarWords? ws = some c) : ws = c.words := by
    obtain ⟨o, d, m, t, rfl, hws⟩ := ofCalendarWords?_eq_some_iff.1 h
    exact hws
  unfold ofWords? at h
  split at h
  · next first second rest =>
    split at h
    · next hday =>
      obtain ⟨m, t, rfl, hrest⟩ := ofEveryDayWords?_eq_some_iff.1 h
      rw [hday.1, hday.2.1, hrest]
      rfl
    · split at h
      · next hevery =>
        obtain ⟨n, u, p, rfl, hrest⟩ := ofIntervalWords?_eq_some_iff.1 h
        rw [hevery.1, hrest]
        rfl
      · exact ofCalendar h
  · exact ofCalendar h

theorem ofWords?_everyDay (m : Option Word) (t : Word) :
    ofWords? (everyDay m t).words = some (.everyDay m t) := by
  refine (if_pos ⟨rfl, rfl, ?_⟩).trans (ofEveryDayWords?_eq_some_iff.2 ⟨m, t, rfl, rfl⟩)
  exact List.append_ne_nil_of_right_ne_nil _ (List.cons_ne_nil _ _)

theorem ofWords?_interval {n : Word} (hn : isNumeric n) (u : Word) (p : PatternClause) :
    ofWords? (interval n u p).words = some (.interval n u p) := by
  have hday : n ≠ "day".toList := by
    rintro rfl
    cases hn
  refine (if_neg fun h => hday h.2.1).trans ((if_pos ⟨rfl, hn⟩).trans ?_)
  exact ofIntervalWords?_eq_some_iff.2 ⟨n, u, p, rfl, rfl⟩

/-- After `every`, the word does not call for another shape. -/
def CallsForCalendar (word : Word) : Prop := word ≠ "day".toList ∧ isNumeric word = false

theorem ofWords?_calendar {o t : Word} {d m : Option Word}
    (h : o = "every".toList → ∀ word ∈ (d.toList ++ monthWords m ++ [t]).head?, CallsForCalendar word) :
    ofWords? (calendar o d m t).words = some (.calendar o d m t) := by
  obtain ⟨second, rest, hrest⟩ : ∃ second rest, d.toList ++ monthWords m ++ [t] = second :: rest :=
    List.exists_cons_of_ne_nil (List.append_ne_nil_of_right_ne_nil _ (List.cons_ne_nil _ _))
  rw [hrest] at h
  have hwords : (calendar o d m t).words = o :: second :: rest := by
    rw [← hrest]
    simp only [words, List.append_assoc, List.cons_append, List.nil_append]
  rw [hwords]
  refine (if_neg ?_).trans ((if_neg ?_).trans ?_)
  · rintro ⟨ho, hday, -⟩
    exact (h ho second rfl).1 hday
  · rintro ⟨ho, hnumeric⟩
    rw [(h ho second rfl).2] at hnumeric
    cases hnumeric
  · exact ofCalendarWords?_eq_some_iff.2 ⟨o, d, m, t, rfl, hwords.symm⟩

/-! ## What the words of a clause mean -/

theorem monthsOf_eq_ok_iff {months : List Nat} :
    monthsOf m = .ok months ↔ Months (monthWords m) months := by
  cases m with
  | none =>
    constructor
    · rintro ⟨⟩
      exact .all
    · rintro ⟨⟩
      rfl
  | some list =>
    rw [monthsOf, months_eq_ok_iff]
    constructor
    · exact .of
    · rintro ⟨⟩
      assumption

theorem exists_monthWords {months : List Nat} (h : Months ws months) : ∃ m, ws = monthWords m := by
  cases h with
  | all => exact ⟨none, rfl⟩
  | of h => exact ⟨some _, rfl⟩

theorem not_items_ordinal_every {ns : List Nat} : ¬ Items Ordinal "every".toList ns := by
  rw [← ordinals_eq_ok_iff]
  intro h
  cases h

theorem ordinalsOf_eq_ok_iff {o : Word} {ordinals : Option (List Nat)} :
    ordinalsOf o = .ok ordinals ↔
      (o = "every".toList ∧ ordinals = none) ∨ ∃ ns, Items Ordinal o ns ∧ ordinals = some ns := by
  unfold ordinalsOf
  split
  · next hevery =>
    rw [hevery]
    simp only [not_items_ordinal_every, false_and, exists_false, or_false, true_and,
      Except.ok.injEq, eq_comm]
  · next hevery =>
    simp only [hevery, false_and, false_or, ← ordinals_eq_ok_iff]
    cases Token.listOf Token.ordinal o with
    | error e => simp [Functor.map, Except.map]
    | ok ns => simp [Functor.map, Except.map, eq_comm]

/-- A clause that gives a schedule is derived by its production. -/
theorem derives_of_schedule (h : c.schedule = .ok s) : Derives c.production c.words (.ok s) := by
  cases c with
  | everyDay m t =>
    simp only [schedule, bind_eq_ok_iff] at h
    obtain ⟨months, hm, time, ht, h⟩ := h
    rw [← h]
    exact .everyDay (monthsOf_eq_ok_iff.1 hm) (clockTime_eq_ok_iff.1 ht)
  | interval n u p =>
    simp only [schedule, bind_eq_ok_iff] at h
    obtain ⟨pattern, hp, length, hn, unit, hu, r, hr, h⟩ := h
    rw [length_eq_ok_iff] at hn
    rw [unit_eq_ok_iff] at hu
    cases p with
    | free =>
      cases hp
      have hmade : Schedule.every length unit = .ok s := bind_eq_ok_iff.2 ⟨r, hr, h⟩
      rw [← hmade]
      exact .every hn hu
    | synchronized =>
      cases hp
      have hmade : Schedule.everySynchronized length unit = .ok s := bind_eq_ok_iff.2 ⟨r, hr, h⟩
      rw [← hmade]
      exact .synchronized hn hu
    | between a b =>
      simp only [patternOf, bind_eq_ok_iff] at hp
      obtain ⟨start, ha, stop, hb, hwithin⟩ := hp
      have hmade : Schedule.everyBetween start.timeOfDay stop.timeOfDay length unit = .ok s := by
        rw [Schedule.everyBetween, ClockTime.clockTime_timeOfDay, ClockTime.clockTime_timeOfDay]
        exact bind_eq_ok_iff.2 ⟨pattern, hwithin, bind_eq_ok_iff.2 ⟨r, hr, h⟩⟩
      rw [← hmade]
      exact .between hn hu (clockTime_eq_ok_iff.1 ha) (clockTime_eq_ok_iff.1 hb)
  | calendar o d m t =>
    simp only [schedule, bind_eq_ok_iff] at h
    obtain ⟨ordinals, ho, months, hm, time, ht, h⟩ := h
    rw [monthsOf_eq_ok_iff] at hm
    rw [clockTime_eq_ok_iff] at ht
    cases d with
    | none =>
      simp only at h
      rcases ordinalsOf_eq_ok_iff.1 ho with ⟨rfl, rfl⟩ | ⟨days, hdays, rfl⟩
      · rw [← h, Option.getD_none, ← Schedule.dailyIn_eq]
        exact .daily hm ht
      · rw [← h, Option.getD_some]
        exact .nthDay hdays hm ht
    | some list =>
      simp only [bind_eq_ok_iff] at h
      obtain ⟨weekdays, hd, h⟩ := h
      rw [weekdays_eq_ok_iff] at hd
      rcases ordinalsOf_eq_ok_iff.1 ho with ⟨rfl, rfl⟩ | ⟨weeks, hweeks, rfl⟩
      · rw [← h, Option.getD_none, ← Schedule.weeklyIn_eq]
        exact .weekly hd hm ht
      · rw [← h, Option.getD_some]
        exact .nthWeekday hweeks hd hm ht

/-! ## Which clause derived words have -/

theorem isNumeric_number {w : Word} {n : Nat} (h : Number w n) : isNumeric w := by
  have hcolon : ':' ∉ w := fun hc => absurd (h.digits ':' hc) (by decide)
  obtain ⟨c, rest, rfl⟩ := List.exists_cons_of_ne_nil h.nonempty
  simp [isNumeric, h.digits c List.mem_cons_self, hcolon]

theorem callsForCalendar_time {t : Word} {time : ClockTime} (h : Time t time) :
    CallsForCalendar t := by
  obtain ⟨-, -, -⟩ := h
  constructor
  · rintro ⟨⟩
  · simp [isNumeric]

theorem not_isDigit_of_isLower {c : Char} (h : c.isLower) : c.isDigit = false := by
  simp only [Char.isLower, Char.isDigit, UInt32.le_iff_toNat_le, Bool.and_eq_true,
    decide_eq_true_eq, Bool.and_eq_false_iff, decide_eq_false_iff_not] at h ⊢
  exact .inr fun hc => absurd (h.1.trans hc) (by decide)

theorem callsForCalendar_weekdays {w : Word} {ns : List Nat} (h : Items Weekday w ns) :
    CallsForCalendar w := by
  constructor
  · rintro rfl
    rw [← weekdays_eq_ok_iff] at h
    cases h
  · cases w with
    | nil => rfl
    | cons c rest =>
      have hc : c.isDigit = false := by
        rcases h.chars Weekday.isLower c List.mem_cons_self with hc | rfl
        · exact not_isDigit_of_isLower hc
        · rfl
      simp [isNumeric, hc]

/-- Derived words are the words of one clause, which has the same value. -/
theorem exists_of_derives {p : Production} {value : Except Fault Schedule}
    (h : Derives p ws value) :
    ∃ c, ofWords? ws = some c ∧ c.production = p ∧ c.schedule = value := by
  -- In each case the first goal is that the first two words call for no other shape.
  cases h with
  | everyDay hm ht =>
    obtain ⟨m, rfl⟩ := exists_monthWords hm
    refine ⟨_, ofWords?_everyDay m _, rfl, ?_⟩
    simp only [schedule, monthsOf_eq_ok_iff.2 hm, clockTime_eq_ok_iff.2 ht]
    rfl
  | every hn hu =>
    refine ⟨_, ofWords?_interval (isNumeric_number hn) _ .free, rfl, ?_⟩
    simp only [schedule, length_eq_ok_iff.2 hn, unit_eq_ok_iff.2 hu]
    rfl
  | synchronized hn hu =>
    refine ⟨_, ofWords?_interval (isNumeric_number hn) _ .synchronized, rfl, ?_⟩
    simp only [schedule, length_eq_ok_iff.2 hn, unit_eq_ok_iff.2 hu]
    rfl
  | between hn hu ha hb =>
    refine ⟨_, ofWords?_interval (isNumeric_number hn) _ (.between _ _), rfl, ?_⟩
    simp only [schedule, patternOf, length_eq_ok_iff.2 hn, unit_eq_ok_iff.2 hu,
      clockTime_eq_ok_iff.2 ha, clockTime_eq_ok_iff.2 hb, Schedule.everyBetween,
      ClockTime.clockTime_timeOfDay]
    rfl
  | weekly hd hm ht =>
    obtain ⟨m, rfl⟩ := exists_monthWords hm
    refine ⟨_, ofWords?_calendar (o := "every".toList) (d := some _) (m := m) ?_, rfl, ?_⟩
    · rintro - _ ⟨⟩
      exact callsForCalendar_weekdays hd
    · simp only [schedule, ordinalsOf_eq_ok_iff.2 (.inl ⟨rfl, rfl⟩), monthsOf_eq_ok_iff.2 hm,
        clockTime_eq_ok_iff.2 ht, weekdays_eq_ok_iff.2 hd, Schedule.weeklyIn_eq]
      rfl
  | daily hm ht =>
    obtain ⟨m, rfl⟩ := exists_monthWords hm
    refine ⟨_, ofWords?_calendar (o := "every".toList) (d := none) (m := m) ?_, rfl, ?_⟩
    · cases m with
      | none =>
        rintro - _ ⟨⟩
        exact callsForCalendar_time ht
      | some list =>
        rintro - _ ⟨⟩
        exact ⟨by decide, by decide⟩
    · simp only [schedule, ordinalsOf_eq_ok_iff.2 (.inl ⟨rfl, rfl⟩), monthsOf_eq_ok_iff.2 hm,
        clockTime_eq_ok_iff.2 ht, Schedule.dailyIn_eq]
      rfl
  | nthWeekday ho hd hm ht =>
    obtain ⟨m, rfl⟩ := exists_monthWords hm
    refine ⟨_, ofWords?_calendar (d := some _) (m := m) ?_, rfl, ?_⟩
    · rintro rfl
      exact absurd ho not_items_ordinal_every
    · simp only [schedule, ordinalsOf_eq_ok_iff.2 (.inr ⟨_, ho, rfl⟩), monthsOf_eq_ok_iff.2 hm,
        clockTime_eq_ok_iff.2 ht, weekdays_eq_ok_iff.2 hd]
      rfl
  | nthDay ho hm ht =>
    obtain ⟨m, rfl⟩ := exists_monthWords hm
    refine ⟨_, ofWords?_calendar (d := none) (m := m) ?_, rfl, ?_⟩
    · rintro rfl
      exact absurd ho not_items_ordinal_every
    · simp only [schedule, ordinalsOf_eq_ok_iff.2 (.inr ⟨_, ho, rfl⟩), monthsOf_eq_ok_iff.2 hm,
        clockTime_eq_ok_iff.2 ht]
      rfl

end Clause

/-! ## Derived expressions -/

namespace Grammar

variable {p q : Production} {ws : List Word} {e : List Char} {value value' : Except Fault Schedule}

theorem splitOn_sentence (h : Derives p ws value) : (Canonical.sentence ws).splitOn ' ' = ws := by
  refine List.splitOn_intercalate ' ' ?_ ?_
  · intro w hw hspace
    exact absurd (List.all_eq_true.1 (List.all_eq_true.1 h.isWritten w hw) ' ' hspace) (by decide)
  · rintro rfl
    obtain ⟨c, hc, -⟩ := Clause.exists_of_derives h
    cases hc

theorem exists_of_reads (h : Reads p e value) :
    ∃ c, Clause.ofText? e = some c ∧ c.production = p ∧ c.schedule = value := by
  obtain ⟨ws, rfl, h⟩ := h
  rw [Clause.ofText?_eq, splitOn_sentence h]
  exact Clause.exists_of_derives h

/-- An expression is derived by one production at most, and has one value at most. -/
theorem Reads.unique (h : Reads p e value) (h' : Reads q e value') : p = q ∧ value = value' := by
  obtain ⟨c, hc, rfl, rfl⟩ := exists_of_reads h
  obtain ⟨c', hc', rfl, rfl⟩ := exists_of_reads h'
  obtain rfl := Option.some.inj (hc.symm.trans hc')
  exact ⟨rfl, rfl⟩

/-! ## Shorthands -/

theorem expand?_eq_some_iff {text short long : List Char} :
    Expression.expand? text short long = some e ↔
      ∃ rest, EndsWord rest ∧ text = short ++ rest ∧ e = long ++ rest := by
  unfold Expression.expand?
  constructor
  · intro h
    split at h
    · next hshort =>
      cases h
      exact ⟨[], .inl rfl, (List.isPrefixOf?_eq_some_iff_append_eq.1 hshort).symm,
        (List.append_nil _).symm⟩
    · next rest hshort =>
      cases h
      exact ⟨' ' :: rest, .inr ⟨rest, rfl⟩,
        (List.isPrefixOf?_eq_some_iff_append_eq.1 hshort).symm, rfl⟩
    · cases h
  · rintro ⟨rest, hrest, rfl, rfl⟩
    rw [List.isPrefixOf?_eq_some_iff_append_eq.2 rfl]
    rcases hrest with rfl | ⟨more, rfl⟩
    · rw [List.append_nil]
    · rfl

theorem expand?_eq_none_iff {text short long : List Char} :
    Expression.expand? text short long = none ↔ ∀ rest, EndsWord rest → text ≠ short ++ rest := by
  rw [Option.eq_none_iff_forall_ne_some]
  constructor
  · intro h rest hrest htext
    exact h _ (expand?_eq_some_iff.2 ⟨rest, hrest, htext, rfl⟩)
  · intro h e he
    obtain ⟨rest, hrest, htext, -⟩ := expand?_eq_some_iff.1 he
    exact h rest hrest htext

theorem expands_iff {text : List Char} : Expands text e ↔ e = Expression.expandShorthand text := by
  unfold Expression.expandShorthand Expression.shorthands
  simp only [List.findSome?_cons, List.findSome?_nil]
  constructor
  · rintro (@⟨rest, h⟩ | @⟨rest, h⟩ | ⟨hhour, hminute⟩)
    · rw [expand?_eq_some_iff.2 ⟨rest, h, rfl, rfl⟩]
      rfl
    · have hhour : Expression.expand? ("every minute".toList ++ rest) "every hour".toList
          "every 1 hours".toList = none := rfl
      rw [hhour, expand?_eq_some_iff.2 ⟨rest, h, rfl, rfl⟩]
      rfl
    · rw [expand?_eq_none_iff.2 hhour, expand?_eq_none_iff.2 hminute]
      rfl
  · rintro rfl
    split
    · next hsome =>
      obtain ⟨rest, hrest, rfl, rfl⟩ := expand?_eq_some_iff.1 hsome
      exact .hour hrest
    · next hhour =>
      split
      · next hsome =>
        obtain ⟨rest, hrest, rfl, rfl⟩ := expand?_eq_some_iff.1 hsome
        exact .minute hrest
      · next hminute =>
        exact .unchanged (expand?_eq_none_iff.1 hhour) (expand?_eq_none_iff.1 hminute)

end Grammar

/-! ## Reading -/

namespace Schedule

variable {p : Production} {text e : List Char} {value : Except Fault Schedule} {s : Schedule}

/-- A derived expression is read with the value that it has. -/
theorem parse_of_reads (he : Expands (Text.lowercase text) e) (h : Reads p e value) :
    parse text = value := by
  obtain ⟨c, hc, -, rfl⟩ := exists_of_reads h
  rw [expands_iff] at he
  simp only [parse, Expression.normalize, ← he, hc]

theorem exists_reads_of_parse (he : Expands (Text.lowercase text) e) (h : parse text = .ok s) :
    ∃ p, Reads p e (.ok s) := by
  rw [expands_iff] at he
  simp only [parse, Expression.normalize, ← he] at h
  split at h
  · next c hc =>
    rw [Clause.ofText?_eq] at hc
    refine ⟨c.production, e.splitOn ' ', (List.intercalate_splitOn ' ').symm, ?_⟩
    rw [Clause.eq_words_of_ofWords? hc]
    exact Clause.derives_of_schedule h
  · cases h

/-- A text is accepted if and only if its expression is derived with a schedule for its value. No
expression is derived by two productions or with two values. -/
theorem parse_eq_ok_iff (text : List Char) : ∃ e, (∀ e', Expands (Text.lowercase text) e' ↔ e' = e) ∧
    (∀ s, parse text = .ok s ↔ ∃ p, Reads p e (.ok s)) ∧
    ∀ p q value value', Reads p e value → Reads q e value' → p = q ∧ value = value' := by
  refine ⟨Expression.normalize text, fun _ => expands_iff, fun s => ?_, fun _ _ _ _ => Reads.unique⟩
  have he : Expands (Text.lowercase text) (Expression.normalize text) := expands_iff.2 rfl
  exact ⟨exists_reads_of_parse he, fun ⟨_, h⟩ => parse_of_reads he h⟩

end Schedule

end Recurrence
