import Recurrence.Proofs.Expression.Reading
/-!
# What the beginning of an expression calls for

Which shape an expression must have is decided by its first words, `every day` or `every` and a number,
or neither. It has that shape if and only if a clause is found (`Clause.ofText?_eq_some_iff`).
-/

namespace Recurrence

open Grammar

namespace Grammar

/-- The expression begins with `every day` and a space. -/
def BeginsEveryDay (e : List Char) : Prop := "every day ".toList <+: e

/-- The expression begins with `every` and a word that begins with a digit and has no colon. -/
def BeginsInterval (e : List Char) : Prop :=
  ∃ digit more rest, e = "every ".toList ++ (digit :: more) ++ rest ∧ EndsWord rest ∧
    digit.isDigit ∧ ' ' ∉ digit :: more ∧ ':' ∉ digit :: more

/-- The production that the beginning of an expression calls for. -/
inductive Selects (e : List Char) : Production → Prop
  | everyDay (h : BeginsEveryDay e) : Selects e .everyDay
  | interval (h : BeginsInterval e) : Selects e .interval
  | calendar (hday : ¬ BeginsEveryDay e) (hinterval : ¬ BeginsInterval e) : Selects e .calendar

variable {e : List Char}

theorem exists_selects (e : List Char) : ∃ p, Selects e p := by
  by_cases hday : BeginsEveryDay e
  · exact ⟨_, .everyDay hday⟩
  · by_cases hinterval : BeginsInterval e
    · exact ⟨_, .interval hinterval⟩
    · exact ⟨_, .calendar hday hinterval⟩

theorem beginsEveryDay_iff : BeginsEveryDay e ↔
    ∃ rest, rest ≠ [] ∧ e.splitOn ' ' = "every".toList :: "day".toList :: rest := by
  constructor
  · rintro ⟨rest, rfl⟩
    exact ⟨_, List.splitOn_ne_nil _ _,
      Clause.isPrefixOf?_everyDay.1 (List.isPrefixOf?_eq_some_iff_append_eq.2 rfl)⟩
  · rintro ⟨rest, hne, h⟩
    exact ⟨_, Clause.everyDay_append_intercalate hne h⟩

theorem beginsInterval_iff : BeginsInterval e ↔
    ∃ word rest, e.splitOn ' ' = "every".toList :: word :: rest ∧ Clause.isNumeric word := by
  constructor
  · rintro ⟨digit, more, rest, rfl, hrest, hdigit, hspace, hcolon⟩
    obtain ⟨ws, hws⟩ := Clause.splitOn_every_iff.2 ⟨hspace, rest, hrest, rfl⟩
    exact ⟨_, ws, hws, by simp [Clause.isNumeric, hdigit, hcolon]⟩
  · rintro ⟨word, ws, hws, hnumeric⟩
    obtain ⟨hspace, rest, hrest, he⟩ := Clause.splitOn_every_iff.1 ⟨ws, hws⟩
    cases word with
    | nil => cases hnumeric
    | cons digit more =>
      rw [Clause.isNumeric, Bool.and_eq_true, Bool.not_eq_true', List.contains_eq_mem,
        decide_eq_false_iff_not] at hnumeric
      exact ⟨digit, more, rest, he, hrest, hnumeric.1, hspace, hnumeric.2⟩

end Grammar

namespace Clause

variable {c : Clause} {ws : List Word} {e : List Char} {p : Production}

theorem ofEveryDayWords?_iff : ofEveryDayWords? ws = some c ↔
    c.production = .everyDay ∧ c.words = "every".toList :: "day".toList :: ws := by
  rw [ofEveryDayWords?_eq_some_iff]
  constructor
  · rintro ⟨m, t, rfl, rfl⟩
    exact ⟨rfl, rfl⟩
  · rintro ⟨hp, hwords⟩
    cases c with
    | everyDay m t => exact ⟨m, t, rfl, (List.cons.inj (List.cons.inj hwords).2).2.symm⟩
    | interval _ _ _ => cases hp
    | calendar _ _ _ _ => cases hp

theorem ofIntervalWords?_iff : ofIntervalWords? ws = some c ↔
    c.production = .interval ∧ c.words = "every".toList :: ws := by
  rw [ofIntervalWords?_eq_some_iff]
  constructor
  · rintro ⟨n, u, pattern, rfl, rfl⟩
    exact ⟨rfl, rfl⟩
  · rintro ⟨hp, hwords⟩
    cases c with
    | everyDay _ _ => cases hp
    | interval n u pattern => exact ⟨n, u, pattern, rfl, (List.cons.inj hwords).2.symm⟩
    | calendar _ _ _ _ => cases hp

theorem ofCalendarWords?_iff : ofCalendarWords? ws = some c ↔
    c.production = .calendar ∧ c.words = ws := by
  rw [ofCalendarWords?_eq_some_iff]
  constructor
  · rintro ⟨o, d, m, t, rfl, rfl⟩
    exact ⟨rfl, rfl⟩
  · rintro ⟨hp, hwords⟩
    cases c with
    | everyDay _ _ => cases hp
    | interval _ _ _ => cases hp
    | calendar o d m t => exact ⟨o, d, m, t, rfl, hwords.symm⟩

/-- A clause is found if and only if it has the words, and the production that the beginning of the
expression calls for. -/
theorem ofText?_eq_some_iff (h : Selects e p) :
    ofText? e = some c ↔ c.production = p ∧ c.words = e.splitOn ' ' := by
  rw [ofText?_eq]
  cases h with
  | everyDay h =>
    obtain ⟨rest, hne, hsplit⟩ := beginsEveryDay_iff.1 h
    rw [hsplit, ← ofEveryDayWords?_iff]
    exact iff_of_eq (congrArg (· = some c) (if_pos ⟨rfl, rfl, hne⟩))
  | interval h =>
    obtain ⟨word, rest, hsplit, hnumeric⟩ := beginsInterval_iff.1 h
    have hday : word ≠ "day".toList := by
      rintro rfl
      cases hnumeric
    rw [hsplit, ← ofIntervalWords?_iff]
    exact iff_of_eq (congrArg (· = some c)
      ((if_neg fun h => hday h.2.1).trans (if_pos ⟨rfl, hnumeric⟩)))
  | calendar hday hinterval =>
    rw [← ofCalendarWords?_iff]
    refine iff_of_eq (congrArg (· = some c) ?_)
    rw [beginsEveryDay_iff] at hday
    rw [beginsInterval_iff] at hinterval
    generalize e.splitOn ' ' = ws at hday hinterval ⊢
    unfold ofWords?
    split
    · next first second rest =>
      rw [if_neg, if_neg]
      · rintro ⟨rfl, hnumeric⟩
        exact hinterval ⟨second, rest, rfl, hnumeric⟩
      · rintro ⟨rfl, rfl, hne⟩
        exact hday ⟨rest, hne, rfl⟩
    · rfl

end Clause

end Recurrence
