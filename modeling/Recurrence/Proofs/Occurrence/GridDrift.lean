import Recurrence.Proofs.Occurrence.Moves
/-!
# When a rule on a grid leaves it

The slots of a grid are wall-clock times, but within a date a search adds what is missing to the
next slot to the instant. Where the clock is put forward or back on the way, it then shows another
time than that of the slot. With transitions three days apart, that is the only way off the grid:
the answer is a slot, or a skipped slot shifted forward by the length of the jump, exactly if the
search does not drift (`IntervalRule.next_onGrid_iff`).
-/

namespace Recurrence

open Date

variable {z : Zone} {t v : Instant} {l u : Int}

namespace SlotGrid

variable {g : SlotGrid}

/-- At the local second `l`, a slot of the grid begins. -/
def IsSlot (g : SlotGrid) (l : Int) : Prop :=
  ∃ d : Date, ∃ k : Nat, g.start.second + k * g.step ≤ g.stop ∧
    l = 86400 * d.dayNumber + (g.start.second + k * g.step : Nat)

/-- The wall clock shows a slot at the instant, or what a skipped slot is shifted forward to by the
length of the jump. -/
def OnGrid (g : SlotGrid) (z : Zone) (v : Instant) : Prop :=
  v.nano = 0 ∧ ∃ l, g.IsSlot l ∧
    (z.localSecond v.second = l ∨ ∃ u, z.JumpsOver u l ∧ z.localSecond v.second = l + z.jumpAt u)

/-- What the clock is put forward by until the time that is missing to the next slot is over, or
back by if it is negative. -/
def shift (g : SlotGrid) (z : Zone) (u : Int) : Int :=
  (z.offsetAt (u + g.ahead (z.localSecond u))).seconds - (z.offsetAt u).seconds

/-- The search from the UTC second `u` goes on to a slot of the same date that is shown, and the
clock is put forward or back on the way to what is no slot. -/
structure Drifts (g : SlotGrid) (z : Zone) (u : Int) : Prop where
  more : g.Continues (z.localSecond u)
  shown : ∃ w, z.localSecond w = z.localSecond u + g.ahead (z.localSecond u)
  missed : ¬ g.IsSlot (z.localSecond u + g.ahead (z.localSecond u) + g.shift z u)

theorem localSecond_ahead (g : SlotGrid) (z : Zone) (u : Int) :
    z.localSecond (u + g.ahead (z.localSecond u)) =
      z.localSecond u + g.ahead (z.localSecond u) + g.shift z u := by
  simp only [Zone.localSecond, shift]; omega

theorem isSlot_start (h : g.start.second ≤ g.stop) (d : Date) :
    g.IsSlot (86400 * d.dayNumber + g.start.second) :=
  ⟨d, 0, by omega, by omega⟩

/-- Slots are told by the time of day. -/
theorem isSlot_iff (hstop : g.stop < 86400) : g.IsSlot l ↔
    g.start.second ≤ l % 86400 ∧ l % 86400 ≤ g.stop ∧ (l % 86400 - g.start.second) % g.step = 0 := by
  have hpos := g.step_pos
  constructor
  · rintro ⟨d, k, hk, rfl⟩
    have htime : (86400 * d.dayNumber + (g.start.second + k * g.step : Nat)) % 86400 =
        g.start.second + ((k * g.step : Nat) : Int) := by
      generalize k * g.step = n at *
      omega
    rw [htime, Int.add_comm, Int.add_sub_cancel, Int.natCast_mul, Int.mul_emod_left, ← Int.natCast_mul]
    generalize k * g.step = n at *
    exact ⟨by omega, by omega, rfl⟩
  · rintro ⟨hstart, hle, hmod⟩
    obtain ⟨q, hq⟩ := Int.dvd_of_emod_eq_zero hmod
    have hq0 : 0 ≤ q := by
      by_contra hneg
      have := Int.mul_neg_of_pos_of_neg (a := g.step) (b := q) (by omega) (by omega)
      omega
    obtain ⟨k, rfl⟩ := Int.eq_ofNat_of_zero_le hq0
    rw [Int.mul_comm, ← Int.natCast_mul] at hq
    refine ⟨⟨l / 86400⟩, k, ?_, ?_⟩
    · generalize k * g.step = n at *
      omega
    · show l = 86400 * (l / 86400) + _
      generalize k * g.step = n at *
      omega

theorem isSlot_ahead (hstop : g.stop < 86400) (h : g.Continues l) : g.IsSlot (l + g.ahead l) := by
  obtain ⟨hstart, hfits⟩ := h
  have hpos := g.ahead_pos l
  have htime : (l + g.ahead l) % 86400 = l % 86400 + g.ahead l := by omega
  rw [isSlot_iff hstop, htime]
  refine ⟨by omega, hfits, Int.emod_eq_zero_of_dvd ?_⟩
  have hsplit : l % 86400 + g.ahead l - g.start.second =
      l % 86400 - g.start.second - g.past l + g.step := by rw [ahead]; omega
  rw [hsplit]
  exact Int.dvd_add (Int.dvd_self_sub_emod) (Int.dvd_refl _)

section Jump

variable (hs : z.Spaced) (hu : g.ahead (z.localSecond u) < 86400)
include hs hu

/-- A skipped slot is aimed at from before the jump, and the step ends after it. -/
theorem shift_of_jumpsOver {T : Int}
    (hT : z.JumpsOver T (z.localSecond u + g.ahead (z.localSecond u))) : g.shift z u = z.jumpAt T := by
  have hpos := g.ahead_pos (z.localSecond u)
  have hbefore := hs.around_jump hT (u := u)
  have hafter := hs.around_jump hT (u := u + g.ahead (z.localSecond u))
  have hlo := (z.offsetAt u).lower
  have hup := (z.offsetAt u).upper
  have hlo₁ := (z.offsetAt (T - 1)).lower
  have hup₂ := (z.offsetAt T).upper
  obtain ⟨hle, hlt⟩ := hT
  simp only [shift, Zone.jumpAt]
  generalize g.ahead (z.localSecond u) = n at *
  rw [Zone.localSecond] at hle hlt
  specialize hbefore (by omega) (by omega)
  specialize hafter (by omega) (by omega)
  by_cases huT : u < T
  · rw [if_pos huT] at hbefore
    rw [hbefore] at hle
    rw [hafter, hbefore, if_neg (by omega)]
  · rw [if_neg huT] at hbefore
    rw [hbefore] at hlt
    omega

/-- What shows the time that a skipped slot is shifted to was aimed at the skipped slot, unless the
clock was not put forward or back on the way. -/
theorem aimed_of_jumpsOver {T : Int} (hj : z.jumpAt T ≤ 86400) (hT : z.JumpsOver T l)
    (h : z.localSecond (u + g.ahead (z.localSecond u)) = l + z.jumpAt T) :
    g.shift z u = 0 ∨ z.localSecond u + g.ahead (z.localSecond u) = l := by
  have hpos := g.ahead_pos (z.localSecond u)
  have hbefore := hs.around_jump hT (u := u)
  have hafter := hs.around_jump hT (u := u + g.ahead (z.localSecond u))
  have hnear := z.localSecond_near (u + g.ahead (z.localSecond u))
  have hlo₁ := (z.offsetAt (T - 1)).lower
  have hup₂ := (z.offsetAt T).upper
  obtain ⟨hle, hlt⟩ := hT
  simp only [shift, Zone.jumpAt] at *
  generalize g.ahead (z.localSecond u) = n at *
  specialize hafter (by omega) (by omega)
  specialize hbefore (by omega) (by omega)
  unfold Zone.localSecond at h
  by_cases haT : u + n < T
  · rw [hafter, if_pos haT] at h
    omega
  · rw [if_neg haT] at hafter
    rw [hafter] at h ⊢
    by_cases huT : u < T
    · rw [if_pos huT] at hbefore
      rw [Zone.localSecond, hbefore]
      omega
    · rw [if_neg huT] at hbefore
      rw [hbefore]
      omega

end Jump

/-- A search that goes on within the date leads off the grid exactly if it drifts. -/
theorem onGrid_ahead_iff (hs : z.Spaced) (hj : ∀ u, z.jumpAt u ≤ 86400) (hstop : g.stop < 86400)
    (hc : g.Continues (z.localSecond u)) (hn : v.nano = 0)
    (hv : v.second = u + g.ahead (z.localSecond u)) : g.OnGrid z v ↔ ¬ g.Drifts z u := by
  have hslot := isSlot_ahead hstop hc
  have hu : g.ahead (z.localSecond u) < 86400 := by
    obtain ⟨hstart, hfits⟩ := hc
    omega
  have hshown := g.localSecond_ahead z u
  rw [← hv] at hshown
  constructor
  · rintro ⟨-, l, hl, hshow | ⟨T, hT, hshow⟩⟩ hdrift
    · rw [hshown] at hshow
      exact hdrift.missed (hshow ▸ hl)
    · rw [hv] at hshow
      rcases aimed_of_jumpsOver hs hu (hj T) hT hshow with hzero | haimed
      · apply hdrift.missed
        rw [hzero, Int.add_zero]
        exact hslot
      · obtain ⟨w, hw⟩ := hdrift.shown
        exact hs.not_shown hT (hw.trans haimed)
  · intro hno
    by_cases hex : ∃ w, z.localSecond w = z.localSecond u + g.ahead (z.localSecond u)
    · refine ⟨hn, _, ?_, .inl hshown⟩
      by_contra hmissed
      exact hno ⟨hc, hex, hmissed⟩
    · obtain ⟨T, hT⟩ := Zone.exists_jumpsOver (not_exists.1 hex)
      refine ⟨hn, _, hslot, .inr ⟨T, hT, ?_⟩⟩
      rw [hshown, shift_of_jumpsOver hs hu hT]

end SlotGrid

/-- A rule that is bound to a window or to the whole day has a grid, and its next occurrence is on it
exactly if the search does not drift. -/
theorem IntervalRule.next_onGrid_iff (r : IntervalRule) (hp : r.pattern ≠ .free)
    (hw : z.WholeMinutes) (hs : z.Spaced) (hj : ∀ u, z.jumpAt u ≤ 86400) (hm : z.Mild t) :
    ∃ g : SlotGrid, g.IsOf r ∧ ∃ v, (Schedule.interval r).next z t = .ok v ∧
      (g.OnGrid z v ↔ ¬ g.Drifts z t.second) := by
  obtain ⟨g, hg⟩ := r.free_or_grid.resolve_left hp
  obtain ⟨v, hv, hn, -, hmove⟩ := next_grid hw.aligned hg hm .excluded
  refine ⟨g, hg, v, hv, ?_⟩
  generalize hu : v.second = u at hmove
  cases hmove with
  | first done =>
    have hshows := hs.resolveSecond_shows hj t.second
      (86400 * (g.start.firstDate (z.localSecond t.second) .excluded).dayNumber + g.start.second)
    rw [← hu] at hshows
    exact ⟨fun _ hdrift => done hdrift.more,
      fun _ => ⟨hn, _, SlotGrid.isSlot_start hg.ordered _, hshows⟩⟩
  | along more off => exact SlotGrid.onGrid_ahead_iff hs hj hg.stop_lt more hn hu

/-- Every 6 hours, counted from midnight. -/
def sixHourly : IntervalRule where
  length := 6
  unit := .hours
  pattern := .synchronized
  length_pos := by decide
  step_le := by decide
  divides := fun _ => by decide

def sixHourGrid : SlotGrid where
  start := TimeOfDay.midnight.clockTime
  stop := 86399
  step := 21600
  step_pos := by decide

/-- 2026-03-29, 00:30, an hour ahead of UTC. -/
def halfPastMidnight : Instant := (Instant.of? 1774740600 0).get (by decide)

/-- Five and a half hours are missing to the slot at 06:00. The clock is put forward by an hour in
that time, and shows 07:00 at the end of it. -/
theorem sixHourly_leaves_grid : sixHourly.pattern ≠ .free ∧ sixHourGrid.IsOf sixHourly ∧
    Zone.summerTime.Mild halfPastMidnight ∧
    ∃ v, (Schedule.interval sixHourly).next .summerTime halfPastMidnight = .ok v ∧
      v.second = 1774760400 ∧ Zone.summerTime.localSecond v.second % 86400 = 3600 * 7 ∧
      ¬ sixHourGrid.OnGrid .summerTime v := by
  have hp : sixHourly.pattern ≠ .free := by decide
  have hg : sixHourGrid.IsOf sixHourly := ⟨.synchronized rfl, rfl⟩
  have hm : Zone.summerTime.Mild halfPastMidnight := by decide
  have hdrift : sixHourGrid.Drifts .summerTime halfPastMidnight.second := {
    more := by decide
    shown := ⟨1774756800, by decide⟩
    missed := by rw [SlotGrid.isSlot_iff (by decide)]; decide }
  obtain ⟨g, hg', v, hv, hiff⟩ := sixHourly.next_onGrid_iff hp (by decide) (by decide)
    (Zone.jumpAt_le (by decide)) hm
  obtain rfl := hg.eq hg'
  have hanswer : ∃ v, (Schedule.interval sixHourly).next .summerTime halfPastMidnight = .ok v ∧
      v.second = 1774760400 := ⟨_, rfl, rfl⟩
  obtain ⟨v', hv', hsecond⟩ := hanswer
  obtain rfl : v' = v := Except.ok.inj (hv'.symm.trans hv)
  refine ⟨hp, hg, hm, v', hv, hsecond, ?_, fun hon => hiff.1 hon hdrift⟩
  rw [hsecond]
  decide

end Recurrence
