/-!
# Shapes of expressions

An expression is words with single spaces between them. Its first words decide which of three
shapes it must have, and a `Clause` says which word stands in which place. What the words mean
is not looked at.
-/

namespace Recurrence

abbrev Word := List Char

/-- How the pattern of an interval is written. -/
inductive PatternClause where
  | free
  | synchronized
  | between (start stop : Word)
  deriving DecidableEq

/-- The words of an expression by their places. -/
inductive Clause where
  /-- Written `every day [of MONTHS] TIME` -/
  | everyDay (months : Option Word) (time : Word)
  /-- Written `every LENGTH UNIT [synchronized | from START to STOP]` -/
  | interval (length unit : Word) (pattern : PatternClause)
  /-- Written `(every | ORDINALS) [WEEKDAYS] [of MONTHS] TIME` -/
  | calendar (ordinals : Word) (weekdays months : Option Word) (time : Word)
  deriving DecidableEq

namespace Clause

/-- The words after `every day`. -/
def ofEveryDayWords? : List Word → Option Clause
  | [time] => some (.everyDay none time)
  | [preposition, months, time] =>
    if preposition = "of".toList then some (.everyDay (some months) time) else none
  | _ => none

/-- The words after `every`, the first of which is a number. -/
def ofIntervalWords? : List Word → Option Clause
  | [length, unit] => some (.interval length unit .free)
  | [length, unit, keyword] =>
    if keyword = "synchronized".toList then some (.interval length unit .synchronized) else none
  | [length, unit, lead, start, link, stop] =>
    if lead = "from".toList ∧ link = "to".toList then
      some (.interval length unit (.between start stop))
    else none
  | _ => none

/-- All words of an expression. -/
def ofCalendarWords? : List Word → Option Clause
  | [ordinals, time] => some (.calendar ordinals none none time)
  | [ordinals, weekdays, time] => some (.calendar ordinals (some weekdays) none time)
  | [ordinals, preposition, months, time] =>
    if preposition = "of".toList then some (.calendar ordinals none (some months) time) else none
  | [ordinals, weekdays, preposition, months, time] =>
    if preposition = "of".toList then some (.calendar ordinals (some weekdays) (some months) time)
    else none
  | _ => none

/-- A word that begins with a digit and is not a time. -/
def isNumeric (word : Word) : Bool := word.head?.any Char.isDigit && !word.contains ':'

/-- The shape of an expression, if it has one. -/
def ofText? (expression : List Char) : Option Clause :=
  match "every day ".toList.isPrefixOf? expression with
  | some rest => ofEveryDayWords? (rest.splitOn ' ')
  | none =>
    let words := expression.splitOn ' '
    match words with
    | first :: second :: rest =>
      if first = "every".toList ∧ isNumeric second then ofIntervalWords? (second :: rest)
      else ofCalendarWords? words
    | _ => ofCalendarWords? words

end Clause

end Recurrence
