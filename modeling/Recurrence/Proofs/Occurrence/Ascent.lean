import Recurrence.Occurrence.Cursor
import Recurrence.Proofs.Occurrence.Moves
/-!
# Cursors only go forward

In a zone of whole minutes whose transitions are at least three days apart, a cursor always gets an
answer, as long as its local date stays mild. A move to the next occurrence leads to a later
instant, and any other move to one that is not before the minute of the position
(`Schedule.Follows`). What a whole run gives never goes back (`Cursor.run_ascends`).
-/

namespace Recurrence

open Date DateSearch

variable {s : Schedule} {z : Zone} {p v w : Instant} {bound : StartBound}

theorem Instant.le_trans {a b c : Instant} (h : a ≤ b) (h' : b ≤ c) : a ≤ c := by
  have h : _ ∨ _ ∧ _ := h
  have h' : _ ∨ _ ∧ _ := h'
  show _ ∨ _ ∧ _
  omega

theorem Instant.le_of_lt {a b : Instant} (h : a < b) : a ≤ b :=
  h.imp_right fun ⟨he, hn⟩ => ⟨he, Nat.le_of_lt hn⟩

namespace Schedule

/-- The schedule repeats from wherever a search starts. -/
def IsFree : Schedule → Prop
  | interval rule => rule.pattern = .free
  | calendar _ => False

/-- What a cursor on `p` may move to: nothing before the local minute of `p` begins, and something later
than `p` if `p` itself does not count or the schedule has no window. -/
structure Follows (s : Schedule) (z : Zone) (p : Instant) (bound : StartBound) (v : Instant) :
    Prop where
  from_minute : ∃ m, z.startOfMinute p = .ok m ∧ z.BeginsMinute p m ∧ m ≤ v
  later : bound = .excluded ∨ s.IsFree → p < v

/-- A cursor on `p` that moves within the minute stays where it is. -/
def Settled (s : Schedule) (z : Zone) (p : Instant) : Prop := s.IsFree ∨ z.startOfMinute p = .ok p

theorem follows_of_second_lt (ht : z.SteadyMinute p.second) (hm : z.Mild p)
    (h : p.second < v.second) : s.Follows z p bound v := by
  obtain ⟨m, hm, -, -⟩ := ht.startOfMinute hm
  exact ⟨⟨m, hm, ht.beginsMinute hm, Instant.le_trans (Zone.startOfMinute_le hm) (.inl h)⟩,
    fun _ => .inl h⟩

theorem Follows.le (h : s.Follows z p bound v) (hp : s.Settled z p) : p ≤ v := by
  rcases hp with hfree | hself
  · exact Instant.le_of_lt (h.later (.inr hfree))
  · obtain ⟨m, hm, -, hmv⟩ := h.from_minute
    rw [hself, Except.ok.injEq] at hm
    rw [hm]; exact hmv

end Schedule

/-! ## One move -/

section Zone

variable (hw : z.WholeMinutes) (hs : z.Spaced) (hm : z.Mild p)
include hw hs hm

theorem CalendarRule.next_follows (r : CalendarRule) : ∃ v, r.next z p bound = .ok v ∧
    (Schedule.calendar r).Follows z p bound v ∧ (Schedule.calendar r).Settled z v := by
  have hz := hw.aligned
  have ht := hz.steadyMinute p.second
  obtain ⟨e, v, hv, hmove⟩ := r.next_move ht hm bound
  refine ⟨v, hv, ?_, .inr (Zone.startOfMinute_self (hmove.minute hz) hmove.nano)⟩
  by_cases hlt : z.localSecond p.second < 86400 * e.dayNumber + r.time.second
  · apply Schedule.follows_of_second_lt ht hm
    rw [hmove.second]
    exact hs.lt_resolveSecond hlt
  -- Only a move that counts the position itself stays within its minute.
  · cases bound with
    | excluded => exact absurd hmove.lt_of_excluded hlt
    | included =>
      obtain ⟨start, hstart, hsecond, hn, hl, -⟩ := ht.startOfMinute hm
      have hle := hmove.le_of_included
      have hmod := r.time.second_mod
      have hself : v.second = start.second := by
        rw [hmove.second, Zone.resolveSecond_congr ht.symm, ← hsecond]
        exact hs.resolveSecond_self (by omega)
      refine ⟨⟨start, hstart, ht.beginsMinute hstart, .inr ⟨hself.symm, by omega⟩⟩, ?_⟩
      rintro (h | h)
      · cases h
      · exact h.elim

theorem IntervalRule.next_follows (r : IntervalRule) : ∃ v, r.next z p bound = .ok v ∧
    (Schedule.interval r).Follows z p bound v ∧ (Schedule.interval r).Settled z v := by
  have ht := hw.aligned.steadyMinute p.second
  rcases r.free_or_grid with hfree | ⟨g, hg⟩
  · obtain ⟨v, hv, hvs, -⟩ := next_free hfree hm bound
    have := r.step_pos
    exact ⟨v, hv, Schedule.follows_of_second_lt ht hm (by omega), .inl hfree⟩
  · obtain ⟨v, hv, hvn, hmod, hmove⟩ := next_grid hw.aligned hg hm bound
    refine ⟨v, hv, ?_, .inr (Zone.startOfMinute_self hmod hvn)⟩
    generalize hu : v.second = u at hmove
    cases hmove with
    | first done =>
      apply Schedule.follows_of_second_lt ht hm
      rw [hu]
      exact hs.lt_resolveSecond ClockTime.lt_firstDate
    | stay more here =>
      obtain ⟨m, hpm, hms, hmn, -⟩ := ht.startOfMinute hm
      rw [hu] at hmod
      refine ⟨⟨m, hpm, ht.beginsMinute hpm, .inr ⟨by omega, by omega⟩⟩, ?_⟩
      rintro (h | h)
      · cases h
      · exact absurd h hg.pattern_ne_free
    | along more off =>
      apply Schedule.follows_of_second_lt ht hm
      have := g.ahead_pos (z.localSecond p.second)
      omega

theorem Schedule.nextFrom_follows (s : Schedule) (bound : StartBound) : ∃ v, s.nextFrom z p bound = .ok v ∧
    s.Follows z p bound v ∧ s.Settled z v := by
  cases s with
  | interval rule => exact IntervalRule.next_follows hw hs hm rule
  | calendar rule => exact CalendarRule.next_follows hw hs hm rule

end Zone

/-! ## Runs -/

/-- The local date of the position is mild at each move of the run. -/
def Cursor.StaysMild (c : Cursor) : List StartBound → Prop
  | [] => True
  | bound :: bounds => c.zone.Mild c.position ∧ (c.step bound).2.StaysMild bounds

def Cursor.decidableStaysMild (c : Cursor) : (bounds : List StartBound) → Decidable (c.StaysMild bounds)
  | [] => inferInstanceAs (Decidable True)
  | bound :: bounds =>
    have := (c.step bound).2.decidableStaysMild bounds
    inferInstanceAs (Decidable (_ ∧ _))

instance (c : Cursor) (bounds : List StartBound) : Decidable (c.StaysMild bounds) :=
  c.decidableStaysMild bounds

/-- Each of the instants follows, by its move, the one before it, and the first one follows `p`. -/
inductive Ascends (s : Schedule) (z : Zone) : Instant → List StartBound → List Instant → Prop
  | nil (p : Instant) : Ascends s z p [] []
  | cons {p v : Instant} {b : StartBound} {bounds : List StartBound} {vs : List Instant}
    (follows : s.Follows z p b v) (rest : Ascends s z v bounds vs) : Ascends s z p (b :: bounds) (v :: vs)

/-- Every move of a run has an answer that follows the position, and no answer is earlier than one
before it. -/
theorem Cursor.run_ascends (c : Cursor) (bounds : List StartBound) (hw : c.zone.WholeMinutes)
    (hs : c.zone.Spaced) (hm : c.StaysMild bounds) :
    ∃ vs : List Instant, (c.run bounds).1 = vs.map .ok ∧ Ascends c.schedule c.zone c.position bounds vs ∧
      vs.Pairwise (· ≤ ·) := by
  suffices ∃ vs : List Instant, (c.run bounds).1 = vs.map .ok ∧
      Ascends c.schedule c.zone c.position bounds vs ∧ vs.Pairwise (· ≤ ·) ∧
      (c.schedule.Settled c.zone c.position → ∀ v ∈ vs, c.position ≤ v) by
    obtain ⟨vs, hrun, hasc, hle, -⟩ := this
    exact ⟨vs, hrun, hasc, hle⟩
  induction bounds generalizing c with
  | nil => exact ⟨[], rfl, .nil _, .nil, fun _ v hv => absurd hv List.not_mem_nil⟩
  | cons bound bounds ih =>
    obtain ⟨hmild, hrest⟩ := hm
    obtain ⟨v, hv, hfollows, hsettled⟩ :=
      Schedule.nextFrom_follows hw hs hmild c.schedule bound
    have hstep : c.step bound = (.ok v, { c with position := v }) := by rw [step, hv]
    rw [hstep] at hrest
    obtain ⟨vs, hrun, hasc, hle, hfrom⟩ := ih { c with position := v } hw hs hrest
    have hvs := hfrom hsettled
    refine ⟨v :: vs, ?_, .cons hfollows hasc, List.pairwise_cons.2 ⟨hvs, hle⟩, fun hp w hw => ?_⟩
    · simp only [run, hstep, hrun, List.map_cons]
    · have hpv := hfollows.le hp
      rcases List.mem_cons.1 hw with rfl | hw
      · exact hpv
      · exact Instant.le_trans hpv (hvs w hw)

/-- At 02:30 on every day. -/
def nightly : CalendarRule where
  filter := .everyDay DateFilter.allMonths
  time := ⟨150, by decide⟩
  occurs := by decide +kernel

/-- A cursor on Saturday 2026-03-28, 20:00 UTC. In the night to Sunday, 02:30 is skipped. -/
def saturdayNight : Cursor where
  schedule := .calendar nightly
  zone := .summerTime
  position := (Instant.of? 1774728000 0).get (by decide)

theorem saturdayNight_ascends : saturdayNight.zone.WholeMinutes ∧ saturdayNight.zone.Spaced ∧
    saturdayNight.StaysMild [.excluded, .included, .excluded] ∧
    (∃ vs : List Instant, (saturdayNight.run [.excluded, .included, .excluded]).1 = vs.map .ok ∧
      Ascends saturdayNight.schedule saturdayNight.zone saturdayNight.position
        [.excluded, .included, .excluded] vs ∧ vs.Pairwise (· ≤ ·)) ∧
    (saturdayNight.run [.excluded, .included, .excluded]).1.map (·.toOption.map (·.second)) =
      [some 1774747800, some 1774830600, some 1774917000] := by
  have hw : saturdayNight.zone.WholeMinutes := by decide
  have hs : saturdayNight.zone.Spaced := by decide
  have hm : saturdayNight.StaysMild [.excluded, .included, .excluded] := by decide +kernel
  exact ⟨hw, hs, hm, saturdayNight.run_ascends _ hw hs hm, by decide +kernel⟩

end Recurrence
