import Recurrence.Proofs.Occurrence.FirstOccurrence
import Recurrence.Proofs.Occurrence.GridDrift
/-!
# When a rule on a grid gives the first slot

After a local second comes a further slot of its date, or else the first slot of the next date
(`SlotGrid.slotAfter`). In a zone without transitions, this is the next occurrence of a rule on the
grid, and so the first slot after the instant (`IntervalRule.next_slot_least`).

If the position counts, the rule should stay on a slot. It does so only while the date has a further
slot: from the last slot of a date it goes on to the next date, and everywhere else it gives the first
slot that counts (`IntervalRule.nextOrSame_slot_least_iff`).
-/

namespace Recurrence

open Date

variable {z : Zone} {t v w : Instant} {bound : StartBound} {l m u n : Int}

/-- The instant at the start of the second; a leap second belongs to the second that it follows. -/
def Instant.wholeSecond (t : Instant) : Instant where
  second := t.second
  nano := 0
  nano_lt := Nat.lt_of_le_of_lt (Nat.zero_le _) t.nano_lt
  leap := fun h => t.leap (Nat.le_trans h (Nat.zero_le _))
  first_le := t.first_le
  le_last := t.le_last

namespace SlotGrid

variable {g : SlotGrid}

/-- The wall clock shows the start of a slot. -/
def OccursAt (g : SlotGrid) (z : Zone) (v : Instant) : Prop :=
  v.nano = 0 ∧ g.IsSlot (z.localSecond v.second)

/-- At the local second `l`, the last slot of its date begins. -/
def IsLastSlot (g : SlotGrid) (l : Int) : Prop :=
  g.IsSlot l ∧ ∀ m, g.IsSlot m → m / 86400 = l / 86400 → m ≤ l

/-- The slot after the local second `l`. -/
def slotAfter (g : SlotGrid) (l : Int) : Int :=
  if g.Continues l then l + g.ahead l
  else 86400 * (g.start.firstDate l .excluded).dayNumber + g.start.second

/-- Where a search from the local second `l` goes if the position counts: nowhere from a slot that has
a further one after it on the same date. -/
def slotFrom (g : SlotGrid) (l : Int) : Int :=
  if g.Continues l ∧ g.past l = 0 then l else g.slotAfter l

/-! ## Slots on the wall clock -/

theorem lt_slotAfter (g : SlotGrid) (l : Int) : l < g.slotAfter l := by
  have hpos := g.ahead_pos l
  unfold slotAfter
  split
  · omega
  · exact ClockTime.lt_firstDate

section Ends

variable (hordered : g.start.second ≤ g.stop) (hstop : g.stop < 86400)

include hordered hstop in
theorem isSlot_slotAfter (l : Int) : g.IsSlot (g.slotAfter l) := by
  unfold slotAfter
  split
  · next hc => exact isSlot_ahead hstop hc
  · exact isSlot_start hordered _

include hstop

/-- The next slot is not further away than the next date. -/
theorem slotAfter_date (l : Int) : g.slotAfter l / 86400 ≤ l / 86400 + 1 := by
  have hstart := g.start.second_lt
  unfold slotAfter
  split
  · next hc =>
    have hfits := hc.2
    omega
  · simp only [ClockTime.firstDate]
    split <;> omega

/-- No slot of a date comes before what is missing to the next one has passed. -/
theorem ahead_le (hm : g.IsSlot m) (hlm : l < m) (hdate : m / 86400 = l / 86400) :
    l + g.ahead l ≤ m := by
  obtain ⟨-, -, hmod⟩ := (isSlot_iff hstop).1 hm
  have hbounds := g.past_bounds l
  have hlast : (g.step : Int) ∣ l % 86400 - g.start.second - g.past l := Int.dvd_self_sub_emod
  have hdvd := Int.dvd_sub (Int.dvd_of_emod_eq_zero hmod) hlast
  have hstep := Int.le_of_dvd (by omega) hdvd
  unfold ahead
  omega

theorem continues_of_isSlot (hm : g.IsSlot m) (hlm : l < m) (hdate : m / 86400 = l / 86400)
    (hstart : g.start.second ≤ l % 86400) : g.Continues l := by
  obtain ⟨-, hfits, -⟩ := (isSlot_iff hstop).1 hm
  have hle := ahead_le hstop hm hlm hdate
  exact ⟨hstart, by omega⟩

theorem slotAfter_le (hm : g.IsSlot m) (hlm : l < m) : g.slotAfter l ≤ m := by
  obtain ⟨hstart, -, -⟩ := (isSlot_iff hstop).1 hm
  unfold slotAfter
  split
  · next hc =>
    have hfits := hc.2
    by_cases hdate : m / 86400 = l / 86400
    · exact ahead_le hstop hm hlm hdate
    · omega
  · next hdone =>
    -- A slot before the first one of that date would be a further one on the date of `l`.
    have hfirst : (g.start.firstDate l .excluded).dayNumber ≤ m / 86400 ↔
        l < 86400 * (m / 86400) + g.start.second :=
      ClockTime.firstDate_excluded_le (d := ⟨m / 86400⟩)
    by_contra hlt
    have hdate : m / 86400 = l / 86400 := by omega
    exact hdone (continues_of_isSlot hstop hm hlm hdate (by omega))

/-- The last slot of a date is one that the grid does not continue from. -/
theorem isLastSlot_iff : g.IsLastSlot l ↔ g.IsSlot l ∧ ¬ g.Continues l := by
  constructor
  · rintro ⟨hl, hlast⟩
    refine ⟨hl, fun hc => ?_⟩
    have hpos := g.ahead_pos l
    have hstart := hc.1
    have hfits := hc.2
    have hle := hlast _ (isSlot_ahead hstop hc) (by omega)
    omega
  · rintro ⟨hl, hdone⟩
    obtain ⟨hstart, -, -⟩ := (isSlot_iff hstop).1 hl
    refine ⟨hl, fun m hm hdate => ?_⟩
    by_contra hlt
    exact hdone (continues_of_isSlot hstop hm (by omega) hdate hstart)

theorem isSlot_of_past (hc : g.Continues l) (hp : g.past l = 0) : g.IsSlot l := by
  have hpos := g.ahead_pos l
  have hfits := hc.2
  exact (isSlot_iff hstop).2 ⟨hc.1, by omega, hp⟩

/-- From a slot, a search goes nowhere unless it is the last one of its date. -/
theorem slotFrom_eq_self_iff (hl : g.IsSlot l) : g.slotFrom l = l ↔ ¬ g.IsLastSlot l := by
  have hpast : g.past l = 0 := ((isSlot_iff hstop).1 hl).2.2
  have hlater := g.lt_slotAfter l
  rw [isLastSlot_iff hstop, slotFrom]
  by_cases hc : g.Continues l
  · simp [hc, hpast]
  · rw [if_neg fun h => hc h.1]
    simp only [hl, hc, not_false_eq_true, and_true, not_true_eq_false, iff_false]
    omega

theorem slotFrom_of_isLastSlot (h : g.IsLastSlot l) : g.slotFrom l = g.slotAfter l := by
  rw [slotFrom, if_neg fun hc => ((isLastSlot_iff hstop).1 h).2 hc.1]

theorem slotFrom_le (hlast : ¬ g.IsLastSlot l) (hm : g.IsSlot m) (hlm : l ≤ m) : g.slotFrom l ≤ m := by
  by_cases he : l = m
  · subst he
    rw [(slotFrom_eq_self_iff hstop hm).2 hlast]
  · unfold slotFrom
    split
    · exact hlm
    · exact slotAfter_le hstop hm (by omega)

include hordered in
theorem slotFrom_spec (l : Int) : l ≤ g.slotFrom l ∧ g.IsSlot (g.slotFrom l) := by
  have hlater := g.lt_slotAfter l
  unfold slotFrom
  split
  · next h => exact ⟨Int.le_refl l, isSlot_of_past hstop h.1 h.2⟩
  · exact ⟨by omega, isSlot_slotAfter hordered hstop l⟩

include hordered in
theorem slotFrom_date (l : Int) :
    l / 86400 ≤ g.slotFrom l / 86400 ∧ g.slotFrom l / 86400 ≤ l / 86400 + 1 := by
  have hfrom := (slotFrom_spec hordered hstop l).1
  have hafter := slotAfter_date hstop (g := g) l
  refine ⟨by omega, ?_⟩
  unfold slotFrom
  split
  · omega
  · exact hafter

end Ends

end SlotGrid

/-! ## In a zone without transitions -/

/-- An instant on the local date of another one on a mild date, or on the next date. -/
theorem Zone.Mild.inner_of_near (h : z.Mild t)
    (hlo : z.localSecond t.second / 86400 ≤ z.localSecond v.second / 86400)
    (hhi : z.localSecond v.second / 86400 ≤ z.localSecond t.second / 86400 + 1) : z.Inner v := by
  have hfrom := year_mono (d := z.dateAt t) (e := z.dateAt v) hlo
  have hto := year_mono (d := z.dateAt v) (e := (z.dateAt t).plusDays 1) hhi
  have hnext := year_plusDays_one (z.dateAt t)
  have hmin := h.1
  have hmax := h.2
  exact ⟨by omega, by omega⟩

open Zone (localSecond_constant localSecond_lt_iff localSecond_le_iff)

variable {r : IntervalRule} {g : SlotGrid} {o : Offset}

/-- Without transitions, the wall clock tells slots apart. -/
theorem SlotGrid.OccursAt.eq_of_localSecond (h : g.OccursAt z v) (hz : ∀ u, z.offsetAt u = o)
    (h' : g.OccursAt z w) (hl : z.localSecond v.second = z.localSecond w.second) : v = w := by
  rw [localSecond_constant hz, localSecond_constant hz, Int.add_left_inj] at hl
  exact Instant.ext hl (h.1.trans h'.1.symm)

namespace IntervalRule

/-- A move on the grid as the wall clock shows it. -/
theorem localSecond_of_move (hz : ∀ u, z.offsetAt u = o) (h : GridMove g z u bound n) :
    z.localSecond n =
      if bound = .included then g.slotFrom (z.localSecond u) else g.slotAfter (z.localSecond u) := by
  have hshown (l : Int) : z.localSecond (l - o.seconds) = l := by
    rw [localSecond_constant hz]
    omega
  have hadd (k : Int) : z.localSecond (u + k) = z.localSecond u + k := by
    rw [localSecond_constant hz, localSecond_constant hz]
    omega
  cases h with
  | first done =>
    have hfrom : g.slotFrom (z.localSecond u) = g.slotAfter (z.localSecond u) :=
      if_neg fun h => done h.1
    rw [Zone.localSecond_resolveSecond (hshown _), hfrom, ite_self, SlotGrid.slotAfter, if_neg done]
  | stay more here => rw [if_pos rfl, SlotGrid.slotFrom, if_pos ⟨more, here⟩]
  | along more off =>
    have hafter : g.slotAfter (z.localSecond u) = z.localSecond u + g.ahead (z.localSecond u) :=
      if_pos more
    rw [hadd, ← hafter]
    split
    · next hb => exact (if_neg fun h => off hb h.2).symm
    · rfl

section Constant

variable (hg : g.IsOf r)
include hg

/-- Where a rule on a grid goes, and that it always gets there. -/
theorem next_slot (hz : z = .constant o) (hm : z.Inner t) (bound : StartBound) :
    ∃ v, r.next z t bound = .ok v ∧ g.OccursAt z v ∧ z.localSecond v.second =
      if bound = .included then g.slotFrom (z.localSecond t.second)
      else g.slotAfter (z.localSecond t.second) := by
  subst hz
  have hordered := hg.ordered
  have hstop := hg.stop_lt
  obtain ⟨v, hv, hn, -, hmove⟩ := next_grid_of_inner (Zone.aligned_constant o) hg hm bound
  have hl := localSecond_of_move (Zone.offsetAt_constant o) hmove
  refine ⟨v, hv, ⟨hn, ?_⟩, hl⟩
  rw [hl]
  split
  · exact (SlotGrid.slotFrom_spec hordered hstop _).2
  · exact SlotGrid.isSlot_slotAfter hordered hstop _

/-- Both moves of a rule on a grid end on the date of the position or the next one. -/
theorem inner_of_next (hz : z = .constant o) (hm : z.Mild t) (hv : r.next z t bound = .ok v) :
    g.OccursAt z v ∧ z.Inner v := by
  have hordered := hg.ordered
  have hstop := hg.stop_lt
  obtain ⟨v', hv', hocc, hl⟩ := next_slot hg hz hm.inner bound
  obtain rfl : v = v' := Except.ok.inj (hv.symm.trans hv')
  have hfrom := SlotGrid.slotFrom_date hordered hstop (z.localSecond t.second)
  have hafter := SlotGrid.slotAfter_date hstop (g := g) (z.localSecond t.second)
  have hlater := g.lt_slotAfter (z.localSecond t.second)
  refine ⟨hocc, ?_⟩
  split at hl
  · exact hm.inner_of_near (by omega) (by omega)
  · exact hm.inner_of_near (by omega) (by omega)

end Constant

/-- The slot that a search goes to if the position counts is the first one that counts, unless the
position is in the last slot of its date. -/
theorem least_iff_not_isLastSlot (hz : ∀ u, z.offsetAt u = o) (hstop : g.stop < 86400)
    (hocc : g.OccursAt z v) (hl : z.localSecond v.second = g.slotFrom (z.localSecond t.second)) :
    (∀ w, t.wholeSecond ≤ w → g.OccursAt z w → v ≤ w) ↔
      ¬ g.IsLastSlot (z.localSecond t.second) := by
  constructor
  · intro hleast hlast
    have hlater := g.lt_slotAfter (z.localSecond t.second)
    have hself := hleast t.wholeSecond ((Instant.le_iff_second rfl).2 (Int.le_refl _)) ⟨rfl, hlast.1⟩
    rw [Instant.le_iff_second hocc.1, ← localSecond_le_iff hz, hl,
      SlotGrid.slotFrom_of_isLastSlot hstop hlast] at hself
    exact absurd hself (Int.not_le.2 hlater)
  · rintro hlast w htw ⟨-, hslot⟩
    rw [Instant.le_iff_second rfl, ← localSecond_le_iff hz] at htw
    rw [Instant.le_iff_second hocc.1, ← localSecond_le_iff hz, hl]
    exact SlotGrid.slotFrom_le hstop hlast hslot htw

/-- In a zone without transitions, a rule that is bound to a window or to the whole day has a grid and a
next occurrence, and that is the first slot after the instant. -/
theorem next_slot_least (r : IntervalRule) (hp : r.pattern ≠ .free) (o : Offset) (t : Instant)
    (hm : (Zone.constant o).Mild t) :
    ∃ g : SlotGrid, g.IsOf r ∧ ∃ v, (Schedule.interval r).next (.constant o) t = .ok v ∧ t < v ∧
      g.OccursAt (.constant o) v ∧ ∀ w, t < w → g.OccursAt (.constant o) w → v ≤ w := by
  have hz := Zone.offsetAt_constant o
  obtain ⟨g, hg⟩ := r.free_or_grid.resolve_left hp
  obtain ⟨v, hv, hocc, hl⟩ := next_slot hg rfl hm.inner .excluded
  rw [if_neg (by decide)] at hl
  have hlater := g.lt_slotAfter ((Zone.constant o).localSecond t.second)
  rw [← hl, localSecond_lt_iff hz] at hlater
  refine ⟨g, hg, v, hv, .inl hlater, hocc, ?_⟩
  rintro w htw ⟨hwn, hslot⟩
  rw [Instant.lt_iff_second hwn, ← localSecond_lt_iff hz] at htw
  rw [Instant.le_iff_second hocc.1, ← localSecond_le_iff hz, hl]
  exact SlotGrid.slotAfter_le hg.stop_lt hslot htw

/-- Within the leap second at the end of 1896, which a zone a second ahead of UTC shows at midnight. -/
def leapMidnight : Instant := (Instant.of? (-2303596801) 1000000000).get (by decide)

/-- Every 5 hours from midnight to 22:10, from a leap second on the first slot. The next one is at
05:00. -/
theorem fiveHourly_next_slot : ∃ r,
    Schedule.everyBetween .midnight ⟨79800, 0, by decide, by decide⟩ 5 .hours = .ok (.interval r) ∧
    r.pattern ≠ .free ∧ (Zone.constant ⟨1, by decide, by decide⟩).Mild leapMidnight ∧
    ∃ g : SlotGrid, g.IsOf r ∧ ∃ v,
      (Schedule.interval r).next (.constant ⟨1, by decide, by decide⟩) leapMidnight = .ok v ∧
      v.second = -2303578801 ∧ v.nano = 0 ∧ leapMidnight < v ∧
      g.OccursAt (.constant ⟨1, by decide, by decide⟩) v ∧
      ∀ w, leapMidnight < w → g.OccursAt (.constant ⟨1, by decide, by decide⟩) w → v ≤ w := by
  obtain ⟨r, made, hp, v, hv, hsecond⟩ : ∃ r,
      Schedule.everyBetween .midnight ⟨79800, 0, by decide, by decide⟩ 5 .hours = .ok (.interval r) ∧
      r.pattern ≠ .free ∧ ∃ v, (Schedule.interval r).next (.constant ⟨1, by decide, by decide⟩)
        leapMidnight = .ok v ∧ v.second = -2303578801 := ⟨_, rfl, by decide, _, rfl, rfl⟩
  have hm : (Zone.constant ⟨1, by decide, by decide⟩).Mild leapMidnight := by decide
  obtain ⟨g, hg, v', hv', hlater, hocc, hleast⟩ := next_slot_least r hp _ _ hm
  obtain rfl : v = v' := Except.ok.inj (hv.symm.trans hv')
  exact ⟨r, made, hp, hm, g, hg, v, hv, hsecond, hocc.1, hlater, hocc, hleast⟩

/-- If the position counts, the answer is a slot, and it is the first one from the second of the
position on unless that is the last slot of its date; then the answer is the next occurrence. What
any search has given is kept by a search that counts it, again unless it is the last slot of its
date. -/
theorem nextOrSame_slot_least_iff (r : IntervalRule) (hp : r.pattern ≠ .free) (o : Offset) (t : Instant)
    (hm : (Zone.constant o).Mild t) : ∃ g : SlotGrid, g.IsOf r ∧
    (∃ v, (Schedule.interval r).nextOrSame (.constant o) t = .ok v ∧ t.wholeSecond ≤ v ∧
      g.OccursAt (.constant o) v ∧
      ((∀ w, t.wholeSecond ≤ w → g.OccursAt (.constant o) w → v ≤ w) ↔
        ¬ g.IsLastSlot ((Zone.constant o).localSecond t.second)) ∧
      (g.IsLastSlot ((Zone.constant o).localSecond t.second) →
        (Schedule.interval r).next (.constant o) t = .ok v)) ∧
    ∀ bound v, (Schedule.interval r).nextFrom (.constant o) t bound = .ok v →
      ∃ w, (Schedule.interval r).nextOrSame (.constant o) v = .ok w ∧
        (w = v ↔ ¬ g.IsLastSlot ((Zone.constant o).localSecond v.second)) := by
  have hz := Zone.offsetAt_constant o
  obtain ⟨g, hg⟩ := r.free_or_grid.resolve_left hp
  have hstop := hg.stop_lt
  refine ⟨g, hg, ?_, ?_⟩
  · obtain ⟨v, hv, hocc, hl⟩ := next_slot hg rfl hm.inner .included
    obtain ⟨v', hv', hocc', hl'⟩ := next_slot hg rfl hm.inner .excluded
    rw [if_pos rfl] at hl
    rw [if_neg (by decide)] at hl'
    have hfrom := (SlotGrid.slotFrom_spec hg.ordered hstop ((Zone.constant o).localSecond t.second)).1
    rw [← hl, localSecond_le_iff hz] at hfrom
    refine ⟨v, hv, (Instant.le_iff_second rfl).2 hfrom, hocc,
      least_iff_not_isLastSlot hz hstop hocc hl, fun hlast => ?_⟩
    rw [SlotGrid.slotFrom_of_isLastSlot hstop hlast, ← hl'] at hl
    rw [hocc.eq_of_localSecond hz hocc' hl]
    exact hv'
  · intro bound v hv
    obtain ⟨hocc, hinner⟩ := inner_of_next hg rfl hm hv
    obtain ⟨w, hw, hocc', hl⟩ := next_slot hg rfl hinner .included
    rw [if_pos rfl] at hl
    refine ⟨w, hw, ?_⟩
    rw [← SlotGrid.slotFrom_eq_self_iff hstop hocc.2, ← hl]
    exact ⟨fun h => by rw [h], hocc'.eq_of_localSecond hz hocc⟩

/-- Every hour from 10:00 to 18:00. -/
def officeHours : IntervalRule where
  length := 1
  unit := .hours
  pattern := .between ⟨600, by decide⟩ ⟨1080, by decide⟩ (by decide)
  length_pos := by decide
  step_le := by decide
  divides := fun h => nomatch h

def officeGrid : SlotGrid where
  start := ⟨600, by decide⟩
  stop := 64800
  step := 3600
  step_pos := by decide

/-- 2026-06-03, 18:00 UTC. -/
def closingTime : Instant := (Instant.of? 1780509600 0).get (by decide)

/-- The slot at 18:00 is the last one, and left out although it counts: the answer is 10:00 of the next
day. -/
theorem closingTime_left_out : officeHours.pattern ≠ .free ∧ officeGrid.IsOf officeHours ∧
    (Zone.constant ⟨0, by decide, by decide⟩).Mild closingTime ∧
    ∃ v, (Schedule.interval officeHours).nextOrSame (.constant ⟨0, by decide, by decide⟩) closingTime =
        .ok v ∧ v.second = 1780567200 ∧
      officeGrid.OccursAt (.constant ⟨0, by decide, by decide⟩) closingTime ∧
      ¬ ∀ w, closingTime.wholeSecond ≤ w →
        officeGrid.OccursAt (.constant ⟨0, by decide, by decide⟩) w → v ≤ w := by
  have hp : officeHours.pattern ≠ .free := by decide
  have hg : officeGrid.IsOf officeHours := ⟨.between _ _ (by decide), rfl⟩
  have hm : (Zone.constant ⟨0, by decide, by decide⟩).Mild closingTime := by decide
  obtain ⟨g, hg', ⟨v, hv, -, -, hiff, -⟩, -⟩ := nextOrSame_slot_least_iff officeHours hp _ _ hm
  obtain rfl := hg.eq hg'
  have hanswer : ∃ v, (Schedule.interval officeHours).nextOrSame
      (.constant ⟨0, by decide, by decide⟩) closingTime = .ok v ∧
      v.second = 1780567200 := ⟨_, rfl, rfl⟩
  obtain ⟨v', hv', hsecond⟩ := hanswer
  obtain rfl : v' = v := Except.ok.inj (hv'.symm.trans hv)
  have hslot : officeGrid.IsSlot
      ((Zone.constant ⟨0, by decide, by decide⟩).localSecond closingTime.second) := by
    rw [SlotGrid.isSlot_iff (by decide)]
    decide
  have hlast := (SlotGrid.isLastSlot_iff (g := officeGrid) (by decide)).2 ⟨hslot, by decide⟩
  exact ⟨hp, hg, hm, v', hv', hsecond, ⟨rfl, hslot⟩, fun hleast => hiff.1 hleast hlast⟩

end IntervalRule

end Recurrence
