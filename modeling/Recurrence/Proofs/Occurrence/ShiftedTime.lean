import Recurrence.Proofs.Occurrence.Ascent
import Recurrence.Proofs.Occurrence.FirstOccurrence
import Recurrence.Proofs.Occurrence.Itinerary
import Recurrence.Proofs.Schedule.Making
/-!
# Occurrences at skipped times

A skipped time is shifted forward by the length of the jump. A search compares the time of the rule
with the one that the wall clock shows, and does not see that an occurrence was shifted. So a cursor on
an occurrence stays there, if its position counts, exactly if the clock shows the time of the rule
(`CalendarRule.nextOrSame_eq_self_iff`). A shifted occurrence is seen from before the jump, and passed
over from after it (`Schedule.daily_next_of_skipped`).
-/

namespace Recurrence

open Date DateSearch

variable {r : CalendarRule} {z : Zone} {t v : Instant} {bound : StartBound} {d e : Date}

/-! ## Staying on an occurrence -/

/-- A cursor that a move leaves where it is stays there. -/
theorem Cursor.run_of_nextFrom_self {s : Schedule} (h : s.nextFrom z v bound = .ok v) (n : Nat) :
    (⟨s, z, v⟩ : Cursor).run (List.replicate n bound) = (List.replicate n (.ok v), ⟨s, z, v⟩) := by
  have hstep : (⟨s, z, v⟩ : Cursor).step bound = (.ok v, ⟨s, z, v⟩) := by
    rw [step]
    simp only [h]
  induction n with
  | zero => rfl
  | succ n ih => simp only [List.replicate_succ, run, hstep, ih]

namespace CalendarRule

/-- On an accepted date the time of the rule is skipped, and the wall clock shows what it is shifted
forward to. -/
def ShiftedTo (r : CalendarRule) (z : Zone) (v : Instant) : Prop :=
  ∃ d u, r.filter.Accepts d ∧ z.JumpsOver u (WallTime.of d r.time).second ∧
    z.localSecond v.second = (WallTime.of d r.time).second + z.jumpAt u

/-- From the start of a local minute, a search that is on course and counts it stays there exactly if
the rule occurs there. -/
theorem next_included_of_onCourse (hs : z.Spaced) (hl : z.localSecond v.second % 60 = 0)
    (hn : v.nano = 0) (hy : -262142 ≤ (z.dateAt v).year ∧ (z.dateAt v).year ≤ 262077)
    (hon : ¬ OffCourse r.filter (r.time.firstDate (z.localSecond v.second) .included)) :
    ∃ w, r.next z v .included = .ok w ∧ v ≤ w ∧ (w = v ↔ r.OccursAt z v) := by
  have hyear := ClockTime.year_firstDate (c := r.time) (d := z.dateAt v)
    (l := z.localSecond v.second) .included rfl
  obtain ⟨e, he, hfirst, hey⟩ := firstAccepted_isFirst r.occurs hon (by omega)
  have hye := year_mono hfirst.le
  obtain ⟨w, hw, hws, hwn⟩ := Zone.resolve_of_date (z := z) (d := e) (by omega) r.time v
  have hnext := next_eq (Zone.startOfMinute_self hl hn) hn ⟨by omega, by omega⟩ he
  refine ⟨w, hnext.trans hw, ?_⟩
  by_cases hshown : z.localSecond v.second = 86400 * e.dayNumber + r.time.second
  · have hself : w = v := Instant.ext (hws.trans (hs.resolveSecond_self hshown)) (hwn.trans hn.symm)
    refine ⟨.inr ?_, ?_⟩
    · rw [hself]
      exact ⟨rfl, Nat.le_refl _⟩
    · exact iff_of_true hself (occursAt_iff.2 ⟨hn, e, hfirst.holds, hshown⟩)
  · have hle := ClockTime.firstDate_included_le.1 hfirst.le
    have hlater := hs.lt_resolveSecond (a := v.second) (l := 86400 * e.dayNumber + r.time.second)
      (by omega)
    rw [← hws] at hlater
    refine ⟨.inl hlater, iff_of_false (fun h => ?_) (fun hocc => ?_)⟩
    · rw [h] at hlater
      exact Int.lt_irrefl _ hlater
    · obtain ⟨-, d, hd, hdl⟩ := occursAt_iff.1 hocc
      have hed := hfirst.le_of_holds (ClockTime.firstDate_included_le.2 (Int.le_of_eq hdl)) hd
      rw [le_def] at hed
      omega

end CalendarRule

namespace CalendarMove

theorem shows (h : CalendarMove r z t bound e v) (hs : z.Spaced) (hj : ∀ u, z.jumpAt u ≤ 86400) :
    z.localSecond v.second = (WallTime.of e r.time).second ∨
      ∃ u, z.JumpsOver u (WallTime.of e r.time).second ∧
        z.localSecond v.second = (WallTime.of e r.time).second + z.jumpAt u := by
  rw [h.second]
  exact hs.resolveSecond_shows hj t.second _

/-- No move is shifted by more than a day. -/
theorem within_day (h : CalendarMove r z t bound e v) (hs : z.Spaced) (hj : ∀ u, z.jumpAt u ≤ 86400) :
    86400 * e.dayNumber + r.time.second ≤ z.localSecond v.second ∧
      z.localSecond v.second ≤ 86400 * e.dayNumber + r.time.second + 86400 := by
  rw [h.second]
  exact hs.resolveSecond_within (by decide) hj t.second _

/-- A move from a mild date leaves room for a further search. -/
theorem year_bounds (h : CalendarMove r z t bound e v) (hs : z.Spaced) (hj : ∀ u, z.jumpAt u ≤ 86400)
    (hm : z.Mild t) : -262142 ≤ (z.dateAt v).year ∧ (z.dateAt v).year ≤ 262077 := by
  have hlo := hm.1
  have hhi := hm.2
  have hT := r.time.second_lt
  have hyear := ClockTime.year_firstDate (c := r.time) (d := z.dateAt t)
    (l := z.localSecond t.second - z.localSecond t.second % 60) bound
    (by simp only [Zone.dateAt]; omega)
  obtain ⟨e', he', -, -, hey⟩ := firstAccepted_accepts r.occurs
    (d := r.time.firstDate (z.localSecond t.second - z.localSecond t.second % 60) bound) (by omega)
  obtain rfl : e = e' := Except.ok.inj (h.search.symm.trans he')
  have hye := year_mono h.from_first
  have hwithin := h.within_day hs hj
  have hfrom := year_mono (d := e) (e := z.dateAt v) (by simp only [le_def, Zone.dateAt]; omega)
  have hto := year_mono (d := z.dateAt v) (e := e.plusDays 1)
    (by simp only [le_def, Zone.dateAt, dayNumber_plusDays]; omega)
  have hnext := year_plusDays_one e
  omega

/-- A further search begins on the accepted date of the move, or on the date after it. -/
theorem on_course (h : CalendarMove r z t bound e v) (hs : z.Spaced) (hj : ∀ u, z.jumpAt u ≤ 86400) :
    ¬ OffCourse r.filter (r.time.firstDate (z.localSecond v.second) .included) := by
  have hwithin := h.within_day hs hj
  have hto := ClockTime.firstDate_included_le (c := r.time) (l := z.localSecond v.second)
    (d := e.plusDays 1)
  have hfrom := ClockTime.firstDate_included_le (c := r.time) (l := z.localSecond v.second)
    (d := e.plusDays (-1))
  simp only [le_def, dayNumber_plusDays] at hto hfrom
  by_cases he : r.time.firstDate (z.localSecond v.second) .included = e
  · rw [he]
    exact not_offCourse_of_accepts h.accepts
  · have hnext : r.time.firstDate (z.localSecond v.second) .included = e.plusDays 1 := by
      rw [Date.ext_iff] at he ⊢
      rw [dayNumber_plusDays]
      omega
    rw [hnext]
    exact not_offCourse_after h.accepts

end CalendarMove

namespace CalendarRule

/-- Any search of a calendar rule ends where the clock shows the time of the rule on an accepted date,
or what that time is shifted forward to. A search from there that counts it stays exactly if the
rule occurs there, and so does any number of them. -/
theorem nextOrSame_eq_self_iff (r : CalendarRule) (hw : z.WholeMinutes) (hs : z.Spaced)
    (hj : ∀ u, z.jumpAt u ≤ 86400) (hm : z.Mild t) (bound : StartBound) :
    ∃ v, (Schedule.calendar r).nextFrom z t bound = .ok v ∧ (r.OccursAt z v ∨ r.ShiftedTo z v) ∧
      (∃ w, (Schedule.calendar r).nextOrSame z v = .ok w ∧ v ≤ w ∧ (w = v ↔ r.OccursAt z v)) ∧
      (r.OccursAt z v → ∀ n, (⟨.calendar r, z, v⟩ : Cursor).run (List.replicate n .included) =
        (List.replicate n (.ok v), ⟨.calendar r, z, v⟩)) := by
  obtain ⟨e, v, hv, hmove⟩ := r.next_move (hw.aligned.steadyMinute t.second) hm bound
  obtain ⟨w, hvw, hle, hiff⟩ := next_included_of_onCourse hs (hmove.minute hw.aligned) hmove.nano
    (hmove.year_bounds hs hj hm) (hmove.on_course hs hj)
  refine ⟨v, hv, ?_, ⟨w, hvw, hle, hiff⟩, fun hocc => ?_⟩
  · rcases hmove.shows hs hj with hshown | ⟨u, hu, hshown⟩
    · exact .inl (occursAt_iff.2 ⟨hmove.nano, e, hmove.accepts, hshown⟩)
    · exact .inr ⟨e, u, hmove.accepts, hu, hshown⟩
  · rw [hiff.2 hocc] at hvw
    exact Cursor.run_of_nextFrom_self hvw

/-- 2026-03-29, 03:30, two hours ahead of UTC. -/
def halfPastThree : Instant := (Instant.of? 1774747800 0).get (by decide)

/-- In the night to 2026-03-29, 02:30 is skipped, and the clock shows 03:30 at the occurrence. -/
theorem halfPastThree_not_kept : Zone.summerTime.WholeMinutes ∧ Zone.summerTime.Spaced ∧
    (∀ u, Zone.summerTime.jumpAt u ≤ 86400) ∧ Zone.summerTime.Mild saturdayNight.position ∧
    ∃ v, (Schedule.calendar nightly).nextFrom .summerTime saturdayNight.position .included = .ok v ∧
      ∃ w, (Schedule.calendar nightly).nextOrSame .summerTime v = .ok w ∧ v ≤ w ∧ w ≠ v := by
  have hw : Zone.summerTime.WholeMinutes := by decide
  have hs : Zone.summerTime.Spaced := by decide
  have hj (u : Int) : Zone.summerTime.jumpAt u ≤ 86400 := by
    have := Zone.jumpAt_le (z := .summerTime) (n := 3600) (by decide) u
    omega
  have hm : Zone.summerTime.Mild saturdayNight.position := by decide
  obtain ⟨v, hv, -, ⟨w, hvw, hle, hiff⟩, -⟩ := nightly.nextOrSame_eq_self_iff hw hs hj hm .included
  have hshifted : (Schedule.calendar nightly).nextFrom .summerTime saturdayNight.position .included =
      .ok halfPastThree := by decide +kernel
  obtain rfl : v = halfPastThree := Except.ok.inj (hv.symm.trans hshifted)
  exact ⟨hw, hs, hj, hm, _, hv, w, hvw, hle, fun hself => absurd (hiff.1 hself).2 (by decide)⟩

end CalendarRule

/-! ## A daily time that is skipped -/

theorem DateFilter.accepts_everyDay (d : Date) : (everyDay allMonths).Accepts d := by
  have hmonth := monthIndex_spec d
  have hdays := monthDays_bounds d.monthIndex
  exact ⟨Selection.mem_full (by decide) (by omega), Selection.mem_full (by decide) (by omega),
    Selection.mem_full (by decide) ⟨Nat.zero_le _, weekday_le d⟩,
    Selection.mem_full (by decide) (weekOfMonth_bounds d)⟩

/-- On every day, a search ends on the date that it begins on. -/
theorem CalendarMove.eq_firstDate (h : CalendarMove r z t .excluded e v) (hm : z.Mild t)
    (hday : r.filter = .everyDay DateFilter.allMonths) :
    e = r.time.firstDate (z.localSecond t.second) .excluded := by
  have hlo := hm.1
  have hhi := hm.2
  have hyear := ClockTime.year_firstDate (c := r.time) (d := z.dateAt t)
    (l := z.localSecond t.second) .excluded rfl
  have hself := settle_accepted (f := r.filter) (n := 4095)
    (d := r.time.firstDate (z.localSecond t.second) .excluded) ⟨by omega, by omega⟩
    (by rw [hday]; exact DateFilter.accepts_everyDay _)
  exact Except.ok.inj (h.of_excluded.1.symm.trans hself)

theorem ClockTime.firstDate_excluded_eq {c : ClockTime} {l : Int} (hd : d.dayNumber = l / 86400) :
    c.firstDate l .excluded =
      if l < 86400 * d.dayNumber + c.second then d else d.plusDays 1 := by
  have hc := c.second_lt
  obtain rfl : d = ⟨l / 86400⟩ := Date.ext hd
  simp only [firstDate, reduceCtorEq, and_false, or_false]
  by_cases hlt : l < 86400 * (l / 86400) + c.second
  · rw [if_pos hlt, if_pos (by omega), Int.add_zero]
  · rw [if_neg hlt, if_neg (by omega)]
    rfl

/-- A rule of every day goes to its time on the present date until that has come, and to its time on
the next date from then on. -/
theorem CalendarRule.next_everyDay (hday : r.filter = .everyDay DateFilter.allMonths)
    (ht : z.SteadyMinute t.second) (hm : z.Mild t)
    (hd : d = r.time.firstDate (z.localSecond t.second) .excluded) :
    ∃ w, r.next z t .excluded = .ok w ∧ z.resolve t (.of d r.time) = .ok w ∧ w.nano = 0 ∧
      w.second = z.resolveSecond t.second (WallTime.of d r.time).second := by
  have hlo := hm.1
  have hhi := hm.2
  have hyear := ClockTime.year_firstDate (c := r.time) (d := z.dateAt t)
    (l := z.localSecond t.second) .excluded rfl
  rw [← hd] at hyear
  obtain ⟨e, w, hw, hmove⟩ := r.next_move ht hm .excluded
  obtain rfl : e = d := (hmove.eq_firstDate hm hday).trans hd.symm
  obtain ⟨w', hw', hws', hwn'⟩ := Zone.resolve_of_date (z := z) (d := e) (by omega) r.time t
  obtain rfl : w' = w :=
    Instant.ext (hws'.trans hmove.second.symm) (hwn'.trans hmove.nano.symm)
  exact ⟨w', hw, hw', hwn', hws'⟩

namespace Zone

section Skipped

variable {T l : Int} (hs : z.Spaced) (hT : z.JumpsOver T l)
  (hl : 86400 * (z.dateAt t).dayNumber ≤ l ∧ l < 86400 * (z.dateAt t).dayNumber + 86400)
include hs hT hl

/-- On the date of a skipped time, the offset changes only where the clock jumps over it. -/
theorem offsetAt_of_dateAt :
    z.offsetAt t.second = if t.second < T then z.offsetAt (T - 1) else z.offsetAt T := by
  have hlo := (z.offsetAt (T - 1)).lower
  have hhi := (z.offsetAt T).upper
  have hnear := z.localSecond_near t.second
  have hlocal := z.localSecond_eq t
  have hday := (z.timeAt t).second_lt
  apply hs.around_jump hT
  · obtain ⟨hle, hlt⟩ := hT
    omega
  · obtain ⟨hle, hlt⟩ := hT
    omega

/-- On the date of a skipped time, the clock shows less before the jump, and more after it. -/
theorem localSecond_lt_iff_of_jumpsOver : z.localSecond t.second < l ↔ t.second < T := by
  have hoffset := offsetAt_of_dateAt hs hT hl
  obtain ⟨hle, hlt⟩ := hT
  rw [Zone.localSecond, hoffset]
  split <;> omega

end Skipped

/-- The instant that a skipped time is shifted forward to. -/
theorem exists_shifted {c : ClockTime} {T : Int} (hs : z.Spaced) (hj : z.jumpAt T ≤ 86400)
    (hd : d.Mild) (hT : z.JumpsOver T (WallTime.of d c).second) :
    ∃ v : Instant, v.nano = 0 ∧
      v.second = (WallTime.of d c).second - (z.offsetAt (T - 1)).seconds ∧
      z.localSecond v.second = (WallTime.of d c).second + z.jumpAt T := by
  have hlo := hd.1
  have hhi := hd.2
  obtain ⟨hfirst, hlast⟩ := Zone.resolvable_of_date (d := d) (by omega) c
  have hlower := (z.offsetAt (T - 1)).lower
  have hupper := (z.offsetAt (T - 1)).upper
  obtain ⟨v, -, hvs, hvn⟩ := Zone.ofSecond_ok (n := 0) (by decide)
    (u := (WallTime.of d c).second - (z.offsetAt (T - 1)).seconds) (by omega)
  obtain ⟨hshift, hshown⟩ := hs.resolveSecond_of_jumpsOver (a := 0) hT hj
  refine ⟨v, hvn, hvs, ?_⟩
  rw [hvs, ← hshift]
  exact hshown

end Zone

namespace Schedule

/-- A skipped daily time is an occurrence at the instant that it is shifted forward to. It is the next
one from all instants of its date before the jump, and from none after the jump: from there, the next
occurrence is that of the date after, even while the shifted one is still ahead. -/
theorem daily_next_of_skipped {time : TimeOfDay} {s : Schedule} (made : daily time = .ok s)
    (hw : z.WholeMinutes) (hs : z.Spaced) (hj : ∀ u, z.jumpAt u < 86400) (hd : d.Mild) {T : Int}
    (hT : z.JumpsOver T (WallTime.of d time.clockTime).second) :
    ∃ v : Instant, v.nano = 0 ∧
      v.second = (WallTime.of d time.clockTime).second - (z.offsetAt (T - 1)).seconds ∧
      z.localSecond v.second = (WallTime.of d time.clockTime).second + z.jumpAt T ∧
      ∀ t, z.dateAt t = d →
        (t.second < T → s.next z t = .ok v) ∧
        (T ≤ t.second → ∃ w, z.resolve t (.of (d.plusDays 1) time.clockTime) = .ok w ∧
          s.next z t = .ok w ∧ v < w) := by
  obtain ⟨r, rfl, hday, htime⟩ := daily_eq_ok made
  rw [← htime] at hT ⊢
  have hjump := hj T
  obtain ⟨v, hvn, hvs, hvl⟩ := Zone.exists_shifted hs (Int.le_of_lt hjump) hd hT
  refine ⟨v, hvn, hvs, hvl, ?_⟩
  rintro t rfl
  have hclock := r.time.second_lt
  have hdate : 86400 * (z.dateAt t).dayNumber ≤ (WallTime.of (z.dateAt t) r.time).second ∧
      (WallTime.of (z.dateAt t) r.time).second < 86400 * (z.dateAt t).dayNumber + 86400 := by
    simp only [WallTime.of]
    omega
  have hside : z.localSecond t.second < 86400 * (z.dateAt t).dayNumber + r.time.second ↔ t.second < T :=
    Zone.localSecond_lt_iff_of_jumpsOver hs hT hdate
  have hfirst := ClockTime.firstDate_excluded_eq (c := r.time) (d := z.dateAt t)
    (l := z.localSecond t.second) rfl
  have hnext {e : Date} := CalendarRule.next_everyDay (d := e) hday
    (hw.aligned.steadyMinute t.second) hd
  constructor
  · intro hbefore
    rw [if_pos (hside.2 hbefore)] at hfirst
    obtain ⟨w, hnext, -, hwn, hws⟩ := hnext hfirst.symm
    obtain ⟨hshift, -⟩ := hs.resolveSecond_of_jumpsOver (a := t.second) hT (Int.le_of_lt hjump)
    obtain rfl : w = v := Instant.ext (hws.trans (hshift.trans hvs.symm)) (hwn.trans hvn.symm)
    exact hnext
  · intro hafter
    rw [if_neg (mt hside.1 (Int.not_lt.2 hafter))] at hfirst
    obtain ⟨w, hnext, hresolve, -, hws⟩ := hnext hfirst.symm
    refine ⟨w, hresolve, hnext, .inl ?_⟩
    have hoffset : z.offsetAt t.second = z.offsetAt v.second := by
      rw [Zone.offsetAt_of_dateAt hs hT hdate, if_neg (Int.not_lt.2 hafter)]
      apply Offset.ext
      simp only [Zone.localSecond, Zone.jumpAt] at hvl
      omega
    rw [hws, Zone.resolveSecond_congr hoffset]
    apply hs.lt_resolveSecond
    rw [hvl]
    simp only [WallTime.of, dayNumber_plusDays]
    omega

/-- 2026-03-29, 03:10, two hours ahead of UTC. -/
def tenPastThree : Instant := (Instant.of? 1774746600 0).get (by decide)

/-- After 02:30 was skipped, the occurrence at 03:30 is passed over from 03:10. -/
theorem tenPastThree_passes_over : ∃ s, daily ⟨9000, 0, by decide, by decide⟩ = .ok s ∧
    Zone.summerTime.WholeMinutes ∧ Zone.summerTime.Spaced ∧ (∀ u, Zone.summerTime.jumpAt u < 86400) ∧
    Mild ⟨20541⟩ ∧ Zone.summerTime.JumpsOver 1774746000 (WallTime.of ⟨20541⟩ nightly.time).second ∧
    ∃ v : Instant, Zone.summerTime.localSecond v.second =
        (WallTime.of ⟨20541⟩ nightly.time).second + Zone.summerTime.jumpAt 1774746000 ∧
      tenPastThree < v ∧ ∃ w, s.next .summerTime tenPastThree = .ok w ∧ v < w := by
  obtain ⟨s, made⟩ : ∃ s, daily ⟨9000, 0, by decide, by decide⟩ = .ok s := ⟨_, rfl⟩
  have hw : Zone.summerTime.WholeMinutes := by decide
  have hs : Zone.summerTime.Spaced := by decide
  have hj (u : Int) : Zone.summerTime.jumpAt u < 86400 := by
    have := Zone.jumpAt_le (z := .summerTime) (n := 3600) (by decide) u
    omega
  have hd : Mild ⟨20541⟩ := by decide
  have hT : Zone.summerTime.JumpsOver 1774746000 (WallTime.of ⟨20541⟩ nightly.time).second := by
    unfold Zone.JumpsOver
    decide
  obtain ⟨v, -, hvs, hvl, hall⟩ := daily_next_of_skipped made hw hs hj hd hT
  have hlater : tenPastThree < v := .inl (by rw [hvs]; decide)
  obtain ⟨-, hafter⟩ := hall tenPastThree (by decide)
  obtain ⟨w, -, hnext, hvw⟩ := hafter (by decide)
  exact ⟨s, made, hw, hs, hj, hd, hT, v, hvl, hlater, w, hnext, hvw⟩

end Schedule

end Recurrence
