import Recurrence.Proofs.Expression.Words
/-!
# The shape of an expression

`Clause.words` puts the words of a clause back in order, and the reader of a shape takes exactly the
words of the clauses of that shape. Which shape an expression has is decided by its first words alone
(`Clause.ofText?_eq`), so that a derived expression always gets the shape that it was derived with.
-/

namespace Recurrence

namespace Clause

variable {c : Clause} {ws : List Word}

/-! ## The words of a clause -/

def monthWords : Option Word → List Word
  | none => []
  | some list => ["of".toList, list]

def patternWords : PatternClause → List Word
  | .free => []
  | .synchronized => ["synchronized".toList]
  | .between start stop => ["from".toList, start, "to".toList, stop]

def words : Clause → List Word
  | everyDay months time => ["every".toList, "day".toList] ++ monthWords months ++ [time]
  | interval length unit pattern => ["every".toList, length, unit] ++ patternWords pattern
  | calendar ordinals weekdays months time =>
    [ordinals] ++ weekdays.toList ++ monthWords months ++ [time]

theorem ofEveryDayWords?_eq_some_iff : ofEveryDayWords? ws = some c ↔
    ∃ months time, c = .everyDay months time ∧ ws = monthWords months ++ [time] := by
  constructor
  · intro h
    unfold ofEveryDayWords? at h
    split at h
    · next time =>
      cases h
      exact ⟨none, time, rfl, rfl⟩
    · next preposition months time =>
      split at h
      · next hof =>
        cases h
        exact ⟨some months, time, rfl, by rw [hof]; rfl⟩
      · cases h
    · cases h
  · rintro ⟨months, time, rfl, rfl⟩
    cases months with
    | none => rfl
    | some list => simp [ofEveryDayWords?, monthWords]

theorem ofIntervalWords?_eq_some_iff : ofIntervalWords? ws = some c ↔
    ∃ length unit pattern, c = .interval length unit pattern ∧
      ws = [length, unit] ++ patternWords pattern := by
  constructor
  · intro h
    unfold ofIntervalWords? at h
    split at h
    · next length unit =>
      cases h
      exact ⟨length, unit, .free, rfl, rfl⟩
    · next length unit keyword =>
      split at h
      · next hkeyword =>
        cases h
        exact ⟨length, unit, .synchronized, rfl, by rw [hkeyword]; rfl⟩
      · cases h
    · next length unit lead start link stop =>
      split at h
      · next hlink =>
        cases h
        exact ⟨length, unit, .between start stop, rfl, by rw [hlink.1, hlink.2]; rfl⟩
      · cases h
    · cases h
  · rintro ⟨length, unit, pattern, rfl, rfl⟩
    cases pattern with
    | free => rfl
    | synchronized => simp [ofIntervalWords?, patternWords]
    | between start stop => simp [ofIntervalWords?, patternWords]

theorem ofCalendarWords?_eq_some_iff : ofCalendarWords? ws = some c ↔
    ∃ ordinals weekdays months time, c = .calendar ordinals weekdays months time ∧
      ws = [ordinals] ++ weekdays.toList ++ monthWords months ++ [time] := by
  constructor
  · intro h
    unfold ofCalendarWords? at h
    split at h
    · next ordinals time =>
      cases h
      exact ⟨ordinals, none, none, time, rfl, rfl⟩
    · next ordinals weekdays time =>
      cases h
      exact ⟨ordinals, some weekdays, none, time, rfl, rfl⟩
    · next ordinals preposition months time =>
      split at h
      · next hof =>
        cases h
        exact ⟨ordinals, none, some months, time, rfl, by rw [hof]; rfl⟩
      · cases h
    · next ordinals weekdays preposition months time =>
      split at h
      · next hof =>
        cases h
        exact ⟨ordinals, some weekdays, some months, time, rfl, by rw [hof]; rfl⟩
      · cases h
    · cases h
  · rintro ⟨ordinals, weekdays, months, time, rfl, rfl⟩
    cases weekdays with
    | none =>
      cases months with
      | none => rfl
      | some list => simp [ofCalendarWords?, monthWords]
    | some days =>
      cases months with
      | none => rfl
      | some list => simp [ofCalendarWords?, monthWords]

/-! ## Which shape an expression has -/

/-- The clause of the words of an expression. -/
def ofWords? : List Word → Option Clause
  | first :: second :: rest =>
    if first = "every".toList ∧ second = "day".toList ∧ rest ≠ [] then ofEveryDayWords? rest
    else if first = "every".toList ∧ isNumeric second then ofIntervalWords? (second :: rest)
    else ofCalendarWords? (first :: second :: rest)
  | words => ofCalendarWords? words

/-- An expression begins with `every day` and a space if these are its first two words, and not all
of them. -/
theorem isPrefixOf?_everyDay {expression rest : List Char} :
    "every day ".toList.isPrefixOf? expression = some rest ↔
      expression.splitOn ' ' = "every".toList :: "day".toList :: rest.splitOn ' ' := by
  have hevery : ' ' ∉ "every".toList := by decide
  have hday : ' ' ∉ "day".toList := by decide
  have hsplit : ("every day ".toList ++ rest).splitOn ' ' =
      "every".toList :: "day".toList :: rest.splitOn ' ' := by
    rw [← List.splitOn_append_cons_self_of_not_mem hday,
      ← List.splitOn_append_cons_self_of_not_mem hevery]
    rfl
  have hjoin (text : List Char) : [' '].intercalate (text.splitOn ' ') = text :=
    List.intercalate_splitOn ' '
  rw [List.isPrefixOf?_eq_some_iff_append_eq]
  constructor
  · rintro rfl
    exact hsplit
  · intro h
    rw [← hjoin expression, h, ← hsplit, hjoin]

theorem everyDay_append_intercalate {expression : List Char} {rest : List Word} (hne : rest ≠ [])
    (h : expression.splitOn ' ' = "every".toList :: "day".toList :: rest) :
    "every day ".toList ++ [' '].intercalate rest = expression := by
  have hjoin : [' '].intercalate (expression.splitOn ' ') = expression :=
    List.intercalate_splitOn ' '
  rw [h, List.intercalate_cons_cons, List.intercalate_cons_of_ne_nil hne] at hjoin
  exact hjoin

theorem not_mem_of_mem_splitOn {a : Char} {text w : List Char} (h : w ∈ text.splitOn a) : a ∉ w := by
  induction text generalizing w with
  | nil =>
    rw [List.splitOn_nil, List.mem_singleton] at h
    rw [h]
    exact List.not_mem_nil
  | cons c rest ih =>
    rw [List.splitOn_cons_eq_if_modifyHead] at h
    split at h
    · rcases List.mem_cons.1 h with rfl | h
      · exact List.not_mem_nil
      · exact ih h
    · next hc =>
      obtain ⟨first, more, hsplit⟩ := List.exists_cons_of_ne_nil (List.splitOn_ne_nil a rest)
      rw [hsplit, List.modifyHead_cons] at h
      rw [hsplit] at ih
      rcases List.mem_cons.1 h with rfl | h
      · rw [List.mem_cons, not_or]
        exact ⟨fun he => hc (beq_iff_eq.2 he.symm), ih List.mem_cons_self⟩
      · exact ih (List.mem_cons_of_mem first h)

/-- The word after `every` goes up to the next space, or to the end. -/
theorem splitOn_every_iff {expression : List Char} {w : Word} :
    (∃ more, expression.splitOn ' ' = "every".toList :: w :: more) ↔
      ' ' ∉ w ∧ ∃ rest, Grammar.EndsWord rest ∧ expression = "every ".toList ++ w ++ rest := by
  have hevery : ' ' ∉ "every".toList := by decide
  constructor
  · rintro ⟨more, h⟩
    have hjoin : [' '].intercalate (expression.splitOn ' ') = expression :=
      List.intercalate_splitOn ' '
    refine ⟨not_mem_of_mem_splitOn (h ▸ List.mem_cons_of_mem _ List.mem_cons_self), ?_⟩
    rw [h, List.intercalate_cons_cons] at hjoin
    cases more with
    | nil =>
      rw [List.intercalate_singleton] at hjoin
      exact ⟨[], .inl rfl, by rw [List.append_nil, ← hjoin]; rfl⟩
    | cons w' more =>
      refine ⟨' ' :: [' '].intercalate (w' :: more), .inr ⟨_, rfl⟩, ?_⟩
      rw [← hjoin, List.intercalate_cons_cons, List.append_assoc w]
      rfl
  · rintro ⟨hw, rest, hrest, rfl⟩
    rcases hrest with rfl | ⟨more, rfl⟩
    · refine ⟨[], ?_⟩
      rw [List.append_nil, ← List.splitOn_eq_singleton hw,
        ← List.splitOn_append_cons_self_of_not_mem hevery]
      rfl
    · refine ⟨more.splitOn ' ', ?_⟩
      rw [← List.splitOn_append_cons_self_of_not_mem hw,
        ← List.splitOn_append_cons_self_of_not_mem hevery, List.append_assoc]
      rfl

theorem ofText?_eq (expression : List Char) :
    ofText? expression = ofWords? (expression.splitOn ' ') := by
  unfold ofText?
  split
  · next rest hrest =>
    rw [isPrefixOf?_everyDay.1 hrest]
    exact (if_pos ⟨rfl, rfl, List.splitOn_ne_nil _ _⟩).symm
  · next hrest =>
    generalize hwords : expression.splitOn ' ' = ws
    match ws with
    | [] => exact absurd hwords (List.splitOn_ne_nil _ _)
    | [word] => rfl
    | first :: second :: rest =>
      have hno : ¬ (first = "every".toList ∧ second = "day".toList ∧ rest ≠ []) := by
        rintro ⟨rfl, rfl, hmore⟩
        have he := everyDay_append_intercalate hmore hwords
        rw [List.isPrefixOf?_eq_some_iff_append_eq.2 he] at hrest
        cases hrest
      simp only [ofWords?, if_neg hno]

end Clause

end Recurrence
