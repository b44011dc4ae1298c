import Recurrence.Occurrence.Cursor
import Recurrence.Proofs.DateSearch.Settling
import Recurrence.Proofs.Timeline.Minutes
/-!
# What a search for the next occurrence does

Both kinds of rules look for the first date on which a time of day is still to come
(`ClockTime.firstDate`). A calendar rule resolves its time on the date that the date search gives from
there on (`CalendarMove`). A rule on a grid goes to the first slot of that date, or stays, or goes on
by adding to the instant what is missing to the next slot (`GridMove`). Which grid a rule has is said
by its window, its length and its unit (`SlotGrid.IsOf`). A rule without a grid adds its step.
-/

namespace Recurrence

open Date DateSearch

variable {z : Zone} {t start : Instant} {bound : StartBound} {d : Date} {l u c : Int}

/-! ## Until a time of day comes -/

namespace ClockTime

variable {c : ClockTime}

/-- The first date on which the time comes after the local second `l`, or at it if that counts:
the date of `l` until the time has come, and the next one from then on. -/
def firstDate (c : ClockTime) (l : Int) (bound : StartBound) : Date :=
  ⟨l / 86400 + if l % 86400 < c.second ∨ l % 86400 = c.second ∧ bound = .included then 0 else 1⟩

theorem second_mod (c : ClockTime) : c.second % 60 = 0 := Nat.mul_mod_right 60 _

theorem second_lt (c : ClockTime) : c.second < 86400 := c.timeOfDay.second_lt

theorem firstDate_excluded_le : c.firstDate l .excluded ≤ d ↔ l < 86400 * d.dayNumber + c.second := by
  have := c.second_lt
  simp only [firstDate, le_def, reduceCtorEq, and_false, or_false]
  split <;> omega

theorem firstDate_included_le : c.firstDate l .included ≤ d ↔ l ≤ 86400 * d.dayNumber + c.second := by
  have := c.second_lt
  simp only [firstDate, le_def, and_true]
  split <;> omega

theorem le_of_firstDate_le (h : c.firstDate l bound ≤ d) : l ≤ 86400 * d.dayNumber + c.second := by
  cases bound with
  | included => exact firstDate_included_le.1 h
  | excluded => exact Int.le_of_lt (firstDate_excluded_le.1 h)

theorem lt_firstDate : l < 86400 * (c.firstDate l .excluded).dayNumber + c.second :=
  firstDate_excluded_le.1 (Date.le_refl _)

/-- The first date after the start of a local minute is the one after any second of it. -/
theorem firstDate_excluded_minute : c.firstDate (l - l % 60) .excluded = c.firstDate l .excluded := by
  have hmod := c.second_mod
  have h₁ := firstDate_excluded_le (c := c) (l := l) (d := c.firstDate (l - l % 60) .excluded)
  have h₂ := firstDate_excluded_le (c := c) (l := l - l % 60) (d := c.firstDate l .excluded)
  have h₃ := lt_firstDate (c := c) (l := l)
  have h₄ := lt_firstDate (c := c) (l := l - l % 60)
  rw [le_def] at h₁ h₂
  exact Date.ext (by omega)

theorem year_firstDate (bound : StartBound) (h : d.dayNumber = l / 86400) :
    d.year ≤ (c.firstDate l bound).year ∧ (c.firstDate l bound).year ≤ d.year + 1 := by
  have hy := year_plusDays_one d
  obtain rfl : d = ⟨l / 86400⟩ := Date.ext h
  unfold firstDate
  split
  · rw [Int.add_zero]; omega
  · exact hy

end ClockTime

theorem Zone.timeAt_lt (z : Zone) (t : Instant) (c : ClockTime) :
    z.timeAt t < c.timeOfDay ↔ z.localSecond t.second % 86400 < c.second := by
  have hsecond := z.timeAt_second t
  show _ ∨ _ ↔ _
  simp only [ClockTime.timeOfDay]; omega

theorem Zone.timeAt_eq (z : Zone) (c : ClockTime) (hn : t.nano = 0) :
    z.timeAt t = c.timeOfDay ↔ z.localSecond t.second % 86400 = c.second := by
  have hsecond := z.timeAt_second t
  have hnano : (z.timeAt t).nano = 0 := hn
  simp only [TimeOfDay.ext_iff, ClockTime.timeOfDay]; omega

/-! ## Calendar rules -/

/-- From the start of a local minute, a calendar rule searches from the first date on which its time
is still to come, if that date lies in the range. -/
theorem CalendarRule.next_eq_search {r : CalendarRule} (hstart : z.startOfMinute t = .ok start)
    (hn : start.nano = 0) (hin : (z.dateAt start).InRange) :
    r.next z t bound = if (r.time.firstDate (z.localSecond start.second) bound).InRange then
      (firstAccepted r.filter (r.time.firstDate (z.localSecond start.second) bound)).bind
        fun d => z.resolve start (.of d r.time)
      else .error .dateOutOfRange := by
  have hiff := or_congr (z.timeAt_lt start r.time)
    (and_congr_left' (z.timeAt_eq r.time hn) (c := bound = .included))
  rw [next, hstart]
  simp only [bind, Except.bind, Zone.dateInRangeAt, if_pos hin]
  by_cases hnow : z.timeAt start < r.time.timeOfDay ∨
      z.timeAt start = r.time.timeOfDay ∧ bound = .included
  · have htoday : r.time.firstDate (z.localSecond start.second) bound = z.dateAt start := by
      rw [ClockTime.firstDate, if_pos (hiff.1 hnow), Int.add_zero]; rfl
    rw [htoday, if_pos hin]
    simp only [if_pos hnow]
  · have htomorrow : r.time.firstDate (z.localSecond start.second) bound =
        (z.dateAt start).plusDays 1 := by
      rw [ClockTime.firstDate, if_neg (mt hiff.2 hnow)]; rfl
    rw [htomorrow]
    by_cases hnext : ((z.dateAt start).plusDays 1).InRange
    · simp only [if_neg hnow, Date.advance, Int.natCast_one, if_pos hnext]
    · simp only [if_neg hnow, Date.advance, Int.natCast_one, if_neg hnext]

/-- Well within the range, it goes to its time on the date that the search gives. -/
theorem CalendarRule.next_eq {r : CalendarRule} (hstart : z.startOfMinute t = .ok start)
    (hn : start.nano = 0) (hr : Roomy (z.dateAt start))
    (hd : firstAccepted r.filter (r.time.firstDate (z.localSecond start.second) bound) = .ok d) :
    r.next z t bound = z.resolve start (.of d r.time) := by
  obtain ⟨hlo, hhi⟩ := hr
  have hyear := ClockTime.year_firstDate (c := r.time) (d := z.dateAt start)
    (l := z.localSecond start.second) bound rfl
  rw [next_eq_search hstart hn (inRange_iff.2 (by omega)), if_pos (inRange_iff.2 (by omega)), hd]
  rfl

/-- Where a calendar rule goes from an instant: to its time on the date `e` that the search from the
start of the local minute gives. -/
structure CalendarMove (r : CalendarRule) (z : Zone) (t : Instant) (bound : StartBound) (e : Date)
    (v : Instant) : Prop where
  search : firstAccepted r.filter (r.time.firstDate
    (z.localSecond t.second - z.localSecond t.second % 60) bound) = .ok e
  from_first : r.time.firstDate (z.localSecond t.second - z.localSecond t.second % 60) bound ≤ e
  accepts : r.filter.Accepts e
  second : v.second = z.resolveSecond t.second (86400 * e.dayNumber + r.time.second)
  nano : v.nano = 0

theorem CalendarRule.next_move (r : CalendarRule) (ht : z.SteadyMinute t.second) (hm : z.Mild t)
    (bound : StartBound) : ∃ e v, r.next z t bound = .ok v ∧ CalendarMove r z t bound e v := by
  obtain ⟨start, hstart, hsecond, hn, hl, hdate⟩ := ht.startOfMinute hm
  have hlo := hm.1
  have hhi := hm.2
  have hyear := ClockTime.year_firstDate (c := r.time) (d := z.dateAt start)
    (l := z.localSecond start.second) bound rfl
  rw [hdate] at hyear
  obtain ⟨e, he, hfe, hacc, hey⟩ := firstAccepted_accepts r.occurs
    (d := r.time.firstDate (z.localSecond start.second) bound) (by omega)
  have hye := year_mono hfe
  obtain ⟨v, hv, hvs, hvn⟩ := Zone.resolve_of_date (z := z) (d := e) (by omega) r.time start
  have hnext := next_eq hstart hn (hdate ▸ hm.roomy) he
  rw [hl] at he hfe
  refine ⟨e, v, hnext.trans hv, he, hfe, hacc, ?_, hvn⟩
  rw [hvs]
  apply Zone.resolveSecond_congr
  rw [hsecond]
  exact ht

namespace CalendarMove

variable {r : CalendarRule} {e : Date} {v : Instant}

/-- A search past the position may as well begin at the position itself. -/
theorem of_excluded (h : CalendarMove r z t .excluded e v) :
    firstAccepted r.filter (r.time.firstDate (z.localSecond t.second) .excluded) = .ok e ∧
      r.time.firstDate (z.localSecond t.second) .excluded ≤ e := by
  rw [← ClockTime.firstDate_excluded_minute]
  exact ⟨h.search, h.from_first⟩

theorem lt_of_excluded (h : CalendarMove r z t .excluded e v) :
    z.localSecond t.second < 86400 * e.dayNumber + r.time.second :=
  ClockTime.firstDate_excluded_le.1 h.of_excluded.2

theorem le_of_included (h : CalendarMove r z t .included e v) :
    z.localSecond t.second - z.localSecond t.second % 60 ≤ 86400 * e.dayNumber + r.time.second :=
  ClockTime.firstDate_included_le.1 h.from_first

theorem minute (h : CalendarMove r z t bound e v) (hz : z.AlignedMinutes c) :
    z.localSecond v.second % 60 = 0 := by
  have hmod := r.time.second_mod
  rw [h.second]
  exact hz.resolveSecond_mod (by omega)

end CalendarMove

/-! ## What an interval rule counts from -/

/-- The part of each date that a pattern leaves to occurrences, from a first minute to a last second:
the whole day, or a window. -/
inductive Pattern.Spans : Pattern → ClockTime → Nat → Prop
  | synchronized {start : ClockTime} (midnight : start.minuteOfDay = 0) :
    Spans .synchronized start 86399
  | between (start stop : ClockTime) (ordered : start ≤ stop) :
    Spans (.between start stop ordered) start (60 * stop.minuteOfDay)

/-- The grid of a rule begins with that part of each date and ends with it, and its slots are as far
apart as the rule repeats. -/
structure SlotGrid.IsOf (g : SlotGrid) (r : IntervalRule) : Prop where
  spans : r.pattern.Spans g.start g.stop
  step : g.step = r.length * r.unit.seconds

namespace SlotGrid.IsOf

variable {g g' : SlotGrid} {r : IntervalRule}

theorem pattern_ne_free (h : g.IsOf r) : r.pattern ≠ .free := by
  intro hp
  have hspans := h.spans
  rw [hp] at hspans
  cases hspans

theorem step_mod (h : g.IsOf r) : g.step % 60 = 0 := by
  have hstep := h.step
  cases hu : r.unit with
  | minutes => rw [hstep, hu]; exact Nat.mul_mod_left _ _
  | hours => rw [hstep, hu]; simp only [TimeUnit.seconds]; omega

theorem ordered (h : g.IsOf r) : g.start.second ≤ g.stop := by
  have hspans := h.spans
  generalize r.pattern = p, g.start = start, g.stop = stop at hspans ⊢
  cases hspans with
  | synchronized midnight => rw [ClockTime.second, midnight]; omega
  | between start stop ordered => exact Nat.mul_le_mul_left 60 ordered

theorem stop_lt (h : g.IsOf r) : g.stop < 86400 := by
  have hspans := h.spans
  generalize r.pattern = p, g.start = start, g.stop = stop at hspans ⊢
  cases hspans with
  | synchronized => omega
  | between start stop => exact stop.second_lt

/-- A rule has one grid at most. -/
theorem eq (h : g.IsOf r) (h' : g'.IsOf r) : g = g' := by
  obtain ⟨start, stop, step, _⟩ := g
  obtain ⟨start', stop', step', _⟩ := g'
  obtain rfl : step = step' := h.step.trans h'.step.symm
  have hspans := h.spans
  have hspans' := h'.spans
  simp only at hspans hspans'
  generalize r.pattern = p at hspans hspans'
  cases hspans with
  | synchronized midnight =>
    cases hspans' with
    | synchronized midnight' =>
      obtain rfl : start = start' := ClockTime.ext (midnight.trans midnight'.symm)
      rfl
  | between => cases hspans'; rfl

end SlotGrid.IsOf

namespace IntervalRule

variable {r : IntervalRule} {g : SlotGrid}

theorem grid?_spec (r : IntervalRule) :
    r.pattern = .free ∧ r.grid? = none ∨ ∃ g, r.grid? = some g ∧ g.IsOf r := by
  unfold grid?
  cases hp : r.pattern with
  | free => exact .inl ⟨rfl, rfl⟩
  | synchronized => exact .inr ⟨_, rfl, hp ▸ .synchronized rfl, rfl⟩
  | between start stop ordered => exact .inr ⟨_, rfl, hp ▸ .between start stop ordered, rfl⟩

/-- A rule counts from wherever the search starts, or on its grid. -/
theorem free_or_grid (r : IntervalRule) : r.pattern = .free ∨ ∃ g : SlotGrid, g.IsOf r :=
  r.grid?_spec.imp And.left fun ⟨g, _, hg⟩ => ⟨g, hg⟩

theorem next_of_free (hp : r.pattern = .free) : r.next z t bound = t.plus r.step := by
  obtain ⟨-, hnone⟩ | ⟨g, -, hg⟩ := r.grid?_spec
  · simp only [next, hnone]
  · exact absurd hp hg.pattern_ne_free

theorem next_of_grid (hg : g.IsOf r) :
    r.next z t bound = (g.nextSlot z t bound).bind z.startOfMinute := by
  obtain ⟨hp, -⟩ | ⟨g', hsome, hg'⟩ := r.grid?_spec
  · exact absurd hp hg.pattern_ne_free
  · obtain rfl := hg.eq hg'
    simp only [next, hsome]
    rfl

theorem next_free (hp : r.pattern = .free) (hm : z.Mild t) (bound : StartBound) :
    ∃ v, r.next z t bound = .ok v ∧ v.second = t.second + r.step ∧ v.nano = t.nano % 1000000000 := by
  have hpos := r.step_pos
  have hle : r.step ≤ maxStep := r.step_le
  have hbounds := hm.bounds
  obtain ⟨v, hv, hs, hn⟩ := Instant.plus_of_pos (t := t) (n := r.step) (by omega)
    (by simp only [maxStep] at hle; omega)
  exact ⟨v, (next_of_free hp).trans hv, hs, hn⟩

end IntervalRule

/-! ## Rules on a grid -/

namespace SlotGrid

variable {g : SlotGrid}

/-- How long ago the last slot was at the local second `l`, counted from the start of the grid. -/
def past (g : SlotGrid) (l : Int) : Int := (l % 86400 - g.start.second) % g.step

/-- How far ahead the next slot is at the local second `l`. -/
def ahead (g : SlotGrid) (l : Int) : Int := g.step - g.past l

/-- At the local second `l`, the grid of the date has begun and has a further slot. -/
def Continues (g : SlotGrid) (l : Int) : Prop :=
  g.start.second ≤ l % 86400 ∧ l % 86400 + g.ahead l ≤ g.stop

instance (g : SlotGrid) (l : Int) : Decidable (g.Continues l) := inferInstanceAs (Decidable (_ ∧ _))

theorem past_bounds (g : SlotGrid) (l : Int) : 0 ≤ g.past l ∧ g.past l < g.step := by
  have := g.step_pos
  exact ⟨Int.emod_nonneg _ (by omega), Int.emod_lt_of_pos _ (by omega)⟩

theorem ahead_pos (g : SlotGrid) (l : Int) : 0 < g.ahead l := by
  have := g.past_bounds l
  unfold ahead
  omega

/-- On a grid of whole minutes, the next slot is at a whole minute. -/
theorem ahead_mod (hstep : g.step % 60 = 0) : (l + g.ahead l) % 60 = 0 := by
  have hstart := g.start.second_mod
  have hdvd : (60 : Int) ∣ g.step := by omega
  have hpast : g.past l % 60 = (l % 86400 - g.start.second) % 60 := Int.emod_emod_of_dvd _ hdvd
  unfold ahead
  omega

end SlotGrid

/-- Where a rule on a grid goes from the UTC second `u`: to the first slot of a date when no slot is
left on the present one, nowhere when it stands on a slot that counts, and otherwise by what is
missing to the next slot. -/
inductive GridMove (g : SlotGrid) (z : Zone) (u : Int) : StartBound → Int → Prop
  | first {b : StartBound} (done : ¬ g.Continues (z.localSecond u)) :
    GridMove g z u b (z.resolveSecond u
      (86400 * (g.start.firstDate (z.localSecond u) .excluded).dayNumber + g.start.second))
  | stay (more : g.Continues (z.localSecond u)) (here : g.past (z.localSecond u) = 0) :
    GridMove g z u .included u
  | along {b : StartBound} (more : g.Continues (z.localSecond u))
      (off : b = .included → g.past (z.localSecond u) ≠ 0) :
    GridMove g z u b (u + g.ahead (z.localSecond u))

namespace SlotGrid

variable {g : SlotGrid}

/-- Once the grid of the date has begun, the search counts back to the last slot in natural
numbers. -/
theorem past_eq (hstart : (g.start.second : Int) ≤ z.localSecond t.second % 86400) :
    (((z.timeAt t).second - g.start.second) % g.step : Nat) = g.past (z.localSecond t.second) := by
  have hsecond := z.timeAt_second t
  rw [past, ← hsecond, Int.natCast_mod, Int.natCast_sub (by omega)]

theorem past_le (hstart : (g.start.second : Int) ≤ z.localSecond t.second % 86400) :
    g.past (z.localSecond t.second) ≤ z.localSecond t.second % 86400 - g.start.second := by
  have hsecond := z.timeAt_second t
  have hle := Nat.mod_le ((z.timeAt t).second - g.start.second) g.step
  rw [← past_eq hstart]; omega

theorem nextSlot_first (hm : z.Inner t) (h : ¬ g.Continues (z.localSecond t.second)) :
    g.nextSlot z t bound =
      z.resolve t (.of (g.start.firstDate (z.localSecond t.second) .excluded) g.start) := by
  have hnow := z.timeAt_lt t g.start
  have hsecond := z.timeAt_second t
  rw [nextSlot, ClockTime.firstDate]
  simp only [bind, Except.bind, Zone.dateInRangeAt_eq hm.roomy, reduceCtorEq, and_false, or_false]
  by_cases hlt : z.timeAt t < g.start.timeOfDay
  · rw [if_pos hlt, if_pos (hnow.1 hlt), Int.add_zero]; rfl
  · have hstart : (g.start.second : Int) ≤ z.localSecond t.second % 86400 :=
      Int.not_lt.1 (mt hnow.2 hlt)
    have hpast := past_eq hstart
    have hbounds := g.past_bounds (z.localSecond t.second)
    have hdone : g.stop < z.localSecond t.second % 86400 + (g.step - g.past (z.localSecond t.second)) := by
      rw [Continues, ahead] at h; omega
    rw [if_neg hlt, if_neg (mt hnow.2 hlt), if_pos (by omega)]
    simp only [hm.roomy.advance (n := 1) (by decide)]; rfl

/-- While the grid goes on, the search goes back to the last slot and from there, unless it stays,
one step ahead. -/
theorem nextSlot_of_continues (hm : z.Inner t) (h : g.Continues (z.localSecond t.second)) :
    g.nextSlot z t bound = (t.plus (-g.past (z.localSecond t.second))).bind fun slot =>
      if g.past (z.localSecond t.second) = 0 ∧ bound = .included then .ok slot
      else slot.plus g.step := by
  have hnow := z.timeAt_lt t g.start
  have hsecond := z.timeAt_second t
  obtain ⟨hstart, hfits⟩ := h
  have hp := past_eq hstart
  have hbounds := g.past_bounds (z.localSecond t.second)
  unfold ahead at hfits
  unfold nextSlot
  simp only [bind, Except.bind, Zone.dateInRangeAt_eq hm.roomy]
  rw [if_neg (by rw [hnow]; omega), if_neg (by omega), hp]
  simp only [← hp, Int.natCast_eq_zero]

theorem nextSlot_stay (hm : z.Inner t) (h : g.Continues (z.localSecond t.second))
    (hpast : g.past (z.localSecond t.second) = 0) : g.nextSlot z t .included = .ok t := by
  rw [nextSlot_of_continues hm h, hpast, Int.neg_zero, Instant.plus_zero]
  simp only [Except.bind, if_pos, true_and]

/-- A leap second that is not on a slot is left behind by one second more. -/
theorem nextSlot_along (hm : z.Inner t) (hstop : g.stop < 86400)
    (h : g.Continues (z.localSecond t.second))
    (hoff : bound = .included → g.past (z.localSecond t.second) ≠ 0) :
    ∃ v, g.nextSlot z t bound = .ok v ∧
      v.second = t.second + g.ahead (z.localSecond t.second) +
        if t.IsLeap ∧ g.past (z.localSecond t.second) ≠ 0 then 1 else 0 := by
  have hrange := hm.bounds
  have hbounds := g.past_bounds (z.localSecond t.second)
  have hle := past_le h.1
  have hfits := h.2
  rw [nextSlot_of_continues hm h]
  simp only [if_neg (fun hb : _ ∧ _ => hoff hb.2 hb.1)]
  unfold ahead at *
  by_cases hpast : g.past (z.localSecond t.second) = 0
  · obtain ⟨v, hv, hs, -⟩ := Instant.plus_of_pos (t := t) (n := g.step) (by omega) (by omega)
    refine ⟨v, ?_, by rw [hs, hpast, if_neg (fun hl => hl.2 rfl)]; omega⟩
    rw [hpast, Int.neg_zero, Instant.plus_zero]
    exact hv
  · obtain ⟨w, hw, hws, -⟩ := Instant.plus_of_neg (t := t) (n := -g.past (z.localSecond t.second))
      (by omega) (by omega)
    obtain ⟨v, hv, hs, -⟩ := Instant.plus_of_pos (t := w) (n := g.step) (by omega)
      (by rw [hws]; split <;> omega)
    refine ⟨v, ?_, ?_⟩
    · rw [hw]
      exact hv
    · rw [hs, hws]
      by_cases hl : t.IsLeap
      · rw [if_pos hl, if_pos ⟨hl, hpast⟩]; omega
      · rw [if_neg hl, if_neg (fun h => hl h.1)]; omega

end SlotGrid

/-- The slot that a search goes to, or the second after it that a leap second leads to, is cut down to
the minute of the slot. -/
theorem IntervalRule.next_of_nextSlot {r : IntervalRule} {g : SlotGrid} {w : Instant}
    (hz : z.AlignedMinutes c) (hg : g.IsOf r) (hw : g.nextSlot z t bound = .ok w)
    (hl : z.localSecond l % 60 = 0) (hlw : l ≤ w.second ∧ w.second ≤ l + 1)
    (hlo : firstSecond + 60 ≤ w.second) :
    ∃ v, r.next z t bound = .ok v ∧ v.nano = 0 ∧ z.localSecond v.second % 60 = 0 ∧ v.second = l := by
  obtain ⟨v, hv, hs, hn⟩ := Zone.startOfMinute_ok (z := z) hlo
  have hvl : v.second = l := by
    rw [hz.localSecond_mod] at hl hs
    omega
  refine ⟨v, ?_, hn, by rw [hvl]; exact hl, hvl⟩
  rw [next_of_grid hg, hw]
  exact hv

/-- A rule on a grid goes to the start of a local minute, by one of the moves. -/
theorem IntervalRule.next_grid_of_inner {r : IntervalRule} {g : SlotGrid} (hz : z.AlignedMinutes c)
    (hg : g.IsOf r) (hm : z.Inner t) (bound : StartBound) :
    ∃ v, r.next z t bound = .ok v ∧ v.nano = 0 ∧ z.localSecond v.second % 60 = 0 ∧
      GridMove g z t.second bound v.second := by
  have hstep := hg.step_mod
  have hstop := hg.stop_lt
  have hrange := hm.bounds
  have hahead := g.ahead_mod (l := z.localSecond t.second) hstep
  have hpos := g.ahead_pos (z.localSecond t.second)
  have haligned := hz.localSecond_mod t.second
  by_cases hc : g.Continues (z.localSecond t.second)
  · by_cases hstay : bound = .included ∧ g.past (z.localSecond t.second) = 0
    · obtain ⟨rfl, hpast⟩ := hstay
      obtain ⟨v, hv, hn, hl, hs⟩ := next_of_nextSlot (l := t.second) hz hg
        (SlotGrid.nextSlot_stay hm hc hpast) (by rw [SlotGrid.ahead, hpast] at hahead; omega)
        (by omega) (by omega)
      exact ⟨v, hv, hn, hl, by rw [hs]; exact .stay hc hpast⟩
    · have hoff : bound = .included → g.past (z.localSecond t.second) ≠ 0 := fun hb hp => hstay ⟨hb, hp⟩
      obtain ⟨w, hw, hws⟩ := SlotGrid.nextSlot_along hm hstop hc hoff
      have hnear : t.second + g.ahead (z.localSecond t.second) ≤ w.second ∧
          w.second ≤ t.second + g.ahead (z.localSecond t.second) + 1 := by
        rw [hws]; split <;> omega
      obtain ⟨v, hv, hn, hl, hs⟩ := next_of_nextSlot hz hg hw (by rw [hz.localSecond_mod]; omega)
        hnear (by omega)
      exact ⟨v, hv, hn, hl, by rw [hs]; exact .along hc hoff⟩
  · have hyear := ClockTime.year_firstDate (c := g.start) (d := z.dateAt t) .excluded rfl
    obtain ⟨w, hw, hws, hwn⟩ := Zone.resolve_of_date (z := z)
      (d := g.start.firstDate (z.localSecond t.second) .excluded)
      (by have := hm.1; have := hm.2; omega) g.start t
    have hmod := g.start.second_mod
    have hlater := ClockTime.lt_firstDate (c := g.start) (l := z.localSecond t.second)
    have hnear := Zone.localSecond_near z t.second
    have hwnear := Zone.resolveSecond_near z t.second
      (86400 * (g.start.firstDate (z.localSecond t.second) .excluded).dayNumber + g.start.second)
    obtain ⟨v, hv, hn, hl, hs⟩ := next_of_nextSlot (l := w.second) hz hg
      ((SlotGrid.nextSlot_first hm hc).trans hw)
      (by rw [hws]; exact hz.resolveSecond_mod (by omega)) (by omega) (by omega)
    exact ⟨v, hv, hn, hl, by rw [hs, hws]; exact .first hc⟩

theorem IntervalRule.next_grid {r : IntervalRule} {g : SlotGrid} (hz : z.AlignedMinutes c)
    (hg : g.IsOf r) (hm : z.Mild t) (bound : StartBound) :
    ∃ v, r.next z t bound = .ok v ∧ v.nano = 0 ∧ z.localSecond v.second % 60 = 0 ∧
      GridMove g z t.second bound v.second :=
  next_grid_of_inner hz hg hm.inner bound

end Recurrence
