import Recurrence.Proofs.Occurrence.Ascent
import Recurrence.Proofs.Occurrence.FirstSlot
import Recurrence.Proofs.Timeline.Readings
/-!
# A constant offset does not show on the wall clock

In a zone without transitions, a move depends only on what the wall clock shows, and so does what it
shows at the answer. From two instants that show the same time, each in a zone of its own, a schedule
goes to two instants that show the same time again (`Schedule.nextFrom_alike`), and two cursors that
make the same moves stay alike all along (`Cursor.run_alike`).
-/

namespace Recurrence

open Date DateSearch

variable {o p : Offset} {s : Schedule} {t u : Instant} {w : WallTime}

namespace Zone

/-- The wall clocks of the zones `y` and `z` show the same time, one at `t` and the other one at `u`. -/
def ShowAlike (y z : Zone) (t u : Instant) : Prop := ∃ w, y.Shows t w ∧ z.Shows u w

theorem showAlike_iff {y z : Zone} : y.ShowAlike z t u ↔
    y.localSecond t.second = z.localSecond u.second ∧ t.nano = u.nano ∧ t.nano < 1000000000 := by
  constructor
  · rintro ⟨w, ⟨ht, htn⟩, hu, hun⟩
    exact ⟨ht.trans hu.symm, htn.trans hun.symm, htn ▸ w.nano_lt⟩
  · rintro ⟨hl, hn, hlt⟩
    exact ⟨⟨_, t.nano, hlt⟩, ⟨rfl, rfl⟩, hl.symm, hn.symm⟩

/-- Instants at the start of a second are alike if the clocks show the same second. -/
theorem showAlike_of_second {y z : Zone} (ht : t.nano = 0) (hu : u.nano = 0)
    (hl : y.localSecond t.second = z.localSecond u.second) : y.ShowAlike z t u :=
  showAlike_iff.2 ⟨hl, ht.trans hu.symm, by omega⟩

theorem ShowAlike.dateAt {y z : Zone} (h : y.ShowAlike z t u) : z.dateAt u = y.dateAt t := by
  obtain ⟨hl, -⟩ := showAlike_iff.1 h
  rw [Zone.dateAt, Zone.dateAt, hl]

theorem ShowAlike.mild {y z : Zone} (h : y.ShowAlike z t u) (hm : y.Mild t) : z.Mild u := by
  rw [Mild, h.dateAt]
  exact hm

/-- Without transitions, every wall-clock time away from the ends of the range is shown at one
instant. -/
theorem exists_unique_shows (o : Offset) (hm : (⟨w.second / 86400⟩ : Date).Mild) :
    ∃ t, ∀ x, (constant o).Shows x w ↔ x = t := by
  have hl := localSecond_constant (offsetAt_constant o)
  obtain ⟨t, -, ht⟩ := exists_shows (z := constant o) (u := w.second - o.seconds)
    (resolvable_of_mild hm) (by rw [hl]; omega)
  refine ⟨t, fun x => ⟨fun hx => ?_, ?_⟩⟩
  · have hxl := hx.1
    have htl := ht.1
    rw [hl] at hxl htl
    exact hx.eq ht (by omega)
  · rintro rfl
    exact ht

end Zone

open Zone (ShowAlike showAlike_iff showAlike_of_second localSecond_constant offsetAt_constant
  aligned_constant)

/-! ## One move -/

section Move

variable (h : (Zone.constant o).ShowAlike (.constant p) t u) (hm : (Zone.constant o).Mild t)
  (bound : StartBound)
include h hm

theorem CalendarRule.next_alike (r : CalendarRule) : ∃ v x, r.next (.constant o) t bound = .ok v ∧
    r.next (.constant p) u bound = .ok x ∧ (Zone.constant o).ShowAlike (.constant p) v x := by
  obtain ⟨hl, -⟩ := showAlike_iff.1 h
  obtain ⟨d, v, hv, hmove⟩ := r.next_move ((aligned_constant o).steadyMinute t.second) hm bound
  obtain ⟨e, x, hx, hmove'⟩ := r.next_move ((aligned_constant p).steadyMinute u.second) (h.mild hm) bound
  have hsearch := hmove.search
  rw [hl, hmove'.search, Except.ok.injEq] at hsearch
  subst hsearch
  refine ⟨v, x, hv, hx, showAlike_of_second hmove.nano hmove'.nano ?_⟩
  rw [second_of_move (offsetAt_constant o) hmove, second_of_move (offsetAt_constant p) hmove']

theorem IntervalRule.next_alike (r : IntervalRule) : ∃ v x, r.next (.constant o) t bound = .ok v ∧
    r.next (.constant p) u bound = .ok x ∧ (Zone.constant o).ShowAlike (.constant p) v x := by
  obtain ⟨hl, hn, hlt⟩ := showAlike_iff.1 h
  rcases r.free_or_grid with hfree | ⟨g, hg⟩
  · obtain ⟨v, hv, hvs, hvn⟩ := next_free hfree hm bound
    obtain ⟨x, hx, hxs, hxn⟩ := next_free hfree (h.mild hm) bound
    refine ⟨v, x, hv, hx, showAlike_iff.2 ⟨?_, by rw [hvn, hxn, hn], by omega⟩⟩
    rw [localSecond_constant (offsetAt_constant _), localSecond_constant (offsetAt_constant _)] at hl ⊢
    omega
  · obtain ⟨v, hv, ⟨hvn, -⟩, hvl⟩ := next_slot hg rfl hm.inner bound
    obtain ⟨x, hx, ⟨hxn, -⟩, hxl⟩ := next_slot hg rfl (h.mild hm).inner bound
    exact ⟨v, x, hv, hx, showAlike_of_second hvn hxn (by rw [hvl, hxl, hl])⟩

theorem Schedule.nextFrom_alike (s : Schedule) : ∃ v x, s.nextFrom (.constant o) t bound = .ok v ∧
    s.nextFrom (.constant p) u bound = .ok x ∧ (Zone.constant o).ShowAlike (.constant p) v x := by
  cases s with
  | interval rule => exact rule.next_alike h hm bound
  | calendar rule => exact rule.next_alike h hm bound

end Move

/-! ## Runs -/

namespace Cursor

/-- Two cursors that are alike and make the same moves give answers that are alike, one for each move. -/
theorem run_forall₂_showAlike (bounds : List StartBound)
    (h : (Zone.constant o).ShowAlike (.constant p) t u)
    (hm : (⟨s, .constant o, t⟩ : Cursor).StaysMild bounds) :
    ∃ vs xs : List Instant, ((⟨s, .constant o, t⟩ : Cursor).run bounds).1 = vs.map .ok ∧
      ((⟨s, .constant p, u⟩ : Cursor).run bounds).1 = xs.map .ok ∧ vs.length = bounds.length ∧
      List.Forall₂ ((Zone.constant o).ShowAlike (.constant p)) vs xs := by
  induction bounds generalizing t u with
  | nil => exact ⟨[], [], rfl, rfl, rfl, .nil⟩
  | cons bound bounds ih =>
    obtain ⟨hmild, hrest⟩ := hm
    obtain ⟨v, x, hv, hx, halike⟩ := s.nextFrom_alike h hmild bound
    have hstep : (⟨s, .constant o, t⟩ : Cursor).step bound = (.ok v, ⟨s, .constant o, v⟩) := by
      rw [step, hv]
    have hstep' : (⟨s, .constant p, u⟩ : Cursor).step bound = (.ok x, ⟨s, .constant p, x⟩) := by
      rw [step, hx]
    rw [hstep] at hrest
    obtain ⟨vs, xs, hvs, hxs, hlength, hall⟩ := ih halike hrest
    refine ⟨v :: vs, x :: xs, ?_, ?_, congrArg (· + 1) hlength, .cons halike hall⟩
    · simp only [run, hstep, hvs, List.map_cons]
    · simp only [run, hstep', hxs, List.map_cons]

/-- In any two zones without transitions there is one instant each at which the wall clock shows a given
time. From these, a schedule goes to instants at which the wall clocks show the same time, and the
answers of two cursors that make the same moves do so throughout. -/
theorem run_alike (s : Schedule) (o p : Offset) (hm : (⟨w.second / 86400⟩ : Date).Mild) :
    ∃ t u, (∀ x, (Zone.constant o).Shows x w ↔ x = t) ∧ (∀ x, (Zone.constant p).Shows x w ↔ x = u) ∧
      (∀ bound, ∃ v x, s.nextFrom (.constant o) t bound = .ok v ∧
        s.nextFrom (.constant p) u bound = .ok x ∧ (Zone.constant o).ShowAlike (.constant p) v x) ∧
      ∀ bounds, (⟨s, .constant o, t⟩ : Cursor).StaysMild bounds →
        ∃ vs xs : List Instant, ((⟨s, .constant o, t⟩ : Cursor).run bounds).1 = vs.map .ok ∧
          ((⟨s, .constant p, u⟩ : Cursor).run bounds).1 = xs.map .ok ∧ vs.length = bounds.length ∧
          List.Forall₂ ((Zone.constant o).ShowAlike (.constant p)) vs xs := by
  obtain ⟨t, ht⟩ := Zone.exists_unique_shows o hm
  obtain ⟨u, hu⟩ := Zone.exists_unique_shows p hm
  have halike : (Zone.constant o).ShowAlike (.constant p) t u := ⟨w, (ht t).2 rfl, (hu u).2 rfl⟩
  have hmild : (Zone.constant o).Mild t := by
    rw [Zone.Mild, Zone.dateAt, ((ht t).2 rfl).1]
    exact hm
  exact ⟨t, u, ht, hu, fun bound => s.nextFrom_alike halike hmild bound,
    fun bounds hstays => run_forall₂_showAlike bounds halike hstays⟩

/-- Half past ten on 2026-03-16, in zones five and a half hours and half a minute ahead of UTC and ten
hours behind it. -/
theorem nightly_alike : Mild ⟨(1773657000 : Int) / 86400⟩ ∧
    ∃ t u, (Zone.constant ⟨19830, by decide, by decide⟩).Shows t ⟨1773657000, 500000000, by decide⟩ ∧
      (Zone.constant ⟨-36000, by decide, by decide⟩).Shows u ⟨1773657000, 500000000, by decide⟩ ∧
      (⟨.calendar nightly, .constant ⟨19830, by decide, by decide⟩, t⟩ : Cursor).StaysMild
        [.excluded, .included, .excluded] ∧
      (∃ vs xs : List Instant,
        ((⟨.calendar nightly, .constant ⟨19830, by decide, by decide⟩, t⟩ : Cursor).run
          [.excluded, .included, .excluded]).1 = vs.map .ok ∧
        ((⟨.calendar nightly, .constant ⟨-36000, by decide, by decide⟩, u⟩ : Cursor).run
          [.excluded, .included, .excluded]).1 = xs.map .ok ∧ vs.length = 3 ∧
        List.Forall₂ ((Zone.constant ⟨19830, by decide, by decide⟩).ShowAlike
          (.constant ⟨-36000, by decide, by decide⟩)) vs xs) ∧
      ((⟨.calendar nightly, .constant ⟨19830, by decide, by decide⟩, t⟩ : Cursor).run
          [.excluded, .included, .excluded]).1.map (·.toOption.map (·.second)) =
        [some 1773694770, some 1773694770, some 1773781170] := by
  have hm : Mild ⟨(1773657000 : Int) / 86400⟩ := by decide
  obtain ⟨t, u, ht, hu, -, hrun⟩ := run_alike (w := ⟨1773657000, 500000000, by decide⟩)
    (.calendar nightly) ⟨19830, by decide, by decide⟩ ⟨-36000, by decide, by decide⟩ hm
  obtain rfl : (Instant.of? 1773637170 500000000).get (by decide) = t :=
    (ht _).1 ⟨by decide, by decide⟩
  have hstays : (⟨.calendar nightly, .constant ⟨19830, by decide, by decide⟩,
      (Instant.of? 1773637170 500000000).get (by decide)⟩ : Cursor).StaysMild
      [.excluded, .included, .excluded] := by decide +kernel
  exact ⟨hm, _, u, (ht _).2 rfl, (hu u).2 rfl, hstays, hrun _ hstays, by decide +kernel⟩

end Cursor

end Recurrence
