import Recurrence.Civil.Date
/-!
# Filters on dates

A `Selection lo hi` is a nonempty set of numbers from `lo` to `hi`, such as days of the month
from 1 to 31. Its members are listed once each and in ascending order, so equal sets are equal
lists. The set of the whole domain restricts nothing.

A `DateFilter` selects dates by month, day of the month, weekday and week of the month. Days of
the month are never combined with weekdays or weeks of the month: a filter is made by
`DateFilter.weekly` or `DateFilter.monthly`.
-/

namespace Recurrence

/-- A nonempty set of numbers from `lo` to `hi`. -/
@[ext] structure Selection (lo hi : Nat) where
  members : List Nat
  nonempty : members ≠ []
  ascending : members.Pairwise (· < ·)
  within : ∀ n ∈ members, lo ≤ n ∧ n ≤ hi

/-- Why a list of numbers is no selection. -/
inductive SelectionFault where
  | empty
  /-- The numbers outside the domain, in ascending order. -/
  | outside (numbers : List Nat)
  deriving DecidableEq

/-! ## Ascending lists without repeats -/

/-- An ascending list with one more member, if it is not there yet. -/
def insertAscending (n : Nat) : List Nat → List Nat
  | [] => [n]
  | m :: rest =>
    if n < m then n :: m :: rest
    else if n = m then m :: rest
    else m :: insertAscending n rest

/-- The members of a list, once each and in ascending order. -/
def ascendingOf (numbers : List Nat) : List Nat := numbers.foldr insertAscending []

@[simp] theorem mem_insertAscending {n k : Nat} {l : List Nat} :
    k ∈ insertAscending n l ↔ k = n ∨ k ∈ l := by
  induction l with
  | nil => simp [insertAscending]
  | cons m rest ih => grind [insertAscending]

theorem pairwise_insertAscending {n : Nat} {l : List Nat} (h : l.Pairwise (· < ·)) :
    (insertAscending n l).Pairwise (· < ·) := by
  induction l with
  | nil => simp [insertAscending]
  | cons m rest ih =>
    rw [List.pairwise_cons] at h
    unfold insertAscending
    split
    · simp only [List.pairwise_cons, List.mem_cons]
      exact ⟨fun k hk => by rcases hk with rfl | hk <;> grind, h⟩
    · split
      · exact List.pairwise_cons.2 h
      · refine List.pairwise_cons.2 ⟨fun k hk => ?_, ih h.2⟩
        rcases mem_insertAscending.1 hk with rfl | hk
        · omega
        · exact h.1 k hk

@[simp] theorem mem_ascendingOf {n : Nat} {l : List Nat} : n ∈ ascendingOf l ↔ n ∈ l := by
  induction l with
  | nil => simp [ascendingOf]
  | cons m rest ih => simp [ascendingOf] at ih ⊢; simp [ih]

theorem pairwise_ascendingOf (l : List Nat) : (ascendingOf l).Pairwise (· < ·) := by
  induction l with
  | nil => exact .nil
  | cons m rest ih => exact pairwise_insertAscending ih

/-! ## Selections -/

namespace Selection

variable {lo hi : Nat}

instance : DecidableEq (Selection lo hi) := fun _ _ => decidable_of_iff _ Selection.ext_iff.symm

/-- The set of the listed numbers, in any order and with any repeats. -/
def of? (numbers : List Nat) : Except SelectionFault (Selection lo hi) :=
  let members := ascendingOf numbers
  if nonempty : members = [] then .error .empty
  else if within : ∀ n ∈ members, lo ≤ n ∧ n ≤ hi then
    .ok ⟨members, nonempty, pairwise_ascendingOf numbers, within⟩
  else .error (.outside (members.filter fun n => ¬ (lo ≤ n ∧ n ≤ hi)))

/-- The whole domain. -/
def full (h : lo ≤ hi) : Selection lo hi where
  members := List.range' lo (hi + 1 - lo)
  nonempty := by simp; omega
  ascending := List.pairwise_lt_range'
  within := by simp only [List.mem_range'_1]; omega

instance : Membership Nat (Selection lo hi) := ⟨fun s n => n ∈ s.members⟩

instance (n : Nat) (s : Selection lo hi) : Decidable (n ∈ s) :=
  inferInstanceAs (Decidable (n ∈ s.members))

/-- Some number of the domain is no member. -/
def Restricts (s : Selection lo hi) : Prop := s.members.length < hi + 1 - lo

instance (s : Selection lo hi) : Decidable s.Restricts := inferInstanceAs (Decidable (_ < _))

/-- The smallest member. -/
def least (s : Selection lo hi) : Nat := s.members.head s.nonempty

/-- The smallest member from `n` on. -/
def from? (s : Selection lo hi) (n : Nat) : Option Nat := s.members.find? (n ≤ ·)

theorem not_restricts_full (h : lo ≤ hi) : ¬ (full h).Restricts := by simp [full, Restricts]

example : (of? [31, 1, 15, 1] : Except _ (Selection 1 31)).map (·.members) = .ok [1, 15, 31] :=
  rfl

example : (of? [6, 2, 0] : Except _ (Selection 1 5)) = .error (.outside [0, 6]) := rfl

end Selection

/-! ## Filters -/

/-- A date passes if its week of the month, weekday, day of the month and month are members. -/
@[ext] structure DateFilter where
  weeks : Selection 1 5
  weekdays : Selection 0 6
  days : Selection 1 31
  months : Selection 1 12
  apart : days.Restricts → ¬ weeks.Restricts ∧ ¬ weekdays.Restricts

namespace DateFilter

instance : DecidableEq DateFilter := fun _ _ => decidable_of_iff _ DateFilter.ext_iff.symm

def allWeeks : Selection 1 5 := .full (by decide)

def allWeekdays : Selection 0 6 := .full (by decide)

def allDays : Selection 1 31 := .full (by decide)

def allMonths : Selection 1 12 := .full (by decide)

/-- Some weeks and weekdays of some months. -/
def weekly (weeks : Selection 1 5) (weekdays : Selection 0 6) (months : Selection 1 12) :
    DateFilter :=
  ⟨weeks, weekdays, allDays, months, fun h => absurd h (Selection.not_restricts_full _)⟩

/-- Some days of some months. -/
def monthly (days : Selection 1 31) (months : Selection 1 12) : DateFilter :=
  ⟨allWeeks, allWeekdays, days, months,
    fun _ => ⟨Selection.not_restricts_full _, Selection.not_restricts_full _⟩⟩

/-- Every day of some months. -/
def everyDay (months : Selection 1 12) : DateFilter := monthly allDays months

/-- A date passes the filter. -/
def Accepts (f : DateFilter) (d : Date) : Prop :=
  d.month ∈ f.months ∧ d.day ∈ f.days ∧ d.weekday ∈ f.weekdays ∧ d.weekOfMonth ∈ f.weeks

instance (f : DateFilter) (d : Date) : Decidable (f.Accepts d) :=
  inferInstanceAs (Decidable (_ ∧ _))

/-- Some date passes the filter. Years differ, for a filter, in being leap years and in the
weekday that they begin with, and each of the fourteen kinds occurs from 2000 to 2027, so that
no other years need to be tried. -/
def Occurs (f : DateFilter) : Prop :=
  ∃ year ∈ List.range' 2000 28, ∃ month ∈ f.months.members, ∃ day ∈ List.range' 1 31,
    CivilDate.Valid ⟨year, month, day⟩ ∧ f.Accepts (Date.ofCivil ⟨year, month, day⟩)

instance (f : DateFilter) : Decidable f.Occurs := inferInstanceAs (Decidable (∃ _ ∈ _, _))

end DateFilter

end Recurrence
