import Recurrence.Proofs.Months
import Recurrence.Proofs.Timeline.Resolution
/-!
# What a wall-clock time resolves to

A time that is shown once resolves to that instant, one that is shown twice to the one with the offset
of the anchor, or else to the earlier one, and a skipped one is read with the offset from before the
transition that skips it (`resolve_reads`). The same time on the next day resolves to a later instant,
unless a jump of a day or more comes in between (`Spaced.resolveSecond_day`).
-/

namespace Recurrence.Zone

variable {z : Zone} {a u v l x : Int} {anchor t : Instant} {w : WallTime}

/-! ## Times that are shown twice -/

theorem Spaced.resolveSecond_of_repeated (h : z.Spaced) (hu : z.localSecond u = l)
    (hv : z.localSecond v = l) (huv : u < v) :
    z.resolveSecond a l = if z.offsetAt v = z.offsetAt a then v else u := by
  have hr := locate_spec z l
  unfold resolveSecond
  generalize z.locate l = r at hr ⊢
  cases hr with
  | skipped none => exact absurd hu (none u)
  | once c shown only =>
    have hcu := only u hu
    have hcv := only v hv
    omega
  | repeated c d lt first last between =>
    have hc := between u hu
    have hd := between v hv
    obtain rfl : c = u := by
      rcases h.eq_or_eq_of_shown hu hv huv first with hc' | hc'
      · exact hc'
      · omega
    obtain rfl : d = v := by
      rcases h.eq_or_eq_of_shown hu hv huv last with hd' | hd'
      · omega
      · exact hd'
    rfl

/-! ## The same time a day later -/

/-- On two days in a row on which a time is shown, resolving it does not go from the second of two
readings to the first one. -/
theorem Spaced.resolveSecond_side (h : z.Spaced) {T : Int} {o₁ o₂ : Offset}
    (hT : z.OffsetsAround (l - 86400) T o₁ o₂) (hx : z.localSecond (z.resolveSecond a l) = l)
    (hy : z.localSecond (z.resolveSecond a (l + 86400)) = l + 86400)
    (hxT : T ≤ z.resolveSecond a l) : T ≤ z.resolveSecond a (l + 86400) := by
  have hxn := resolveSecond_near z a l
  have hyn := resolveSecond_near z a (l + 86400)
  have hlower := o₁.lower
  have hupper := o₁.upper
  have hlower₂ := o₂.lower
  by_contra hyT
  have hTx := hT (z.resolveSecond a l) (by omega) (by omega)
  have hTy := hT (z.resolveSecond a (l + 86400)) (by omega) (by omega)
  rw [if_neg (by omega)] at hTx
  rw [if_pos (by omega)] at hTy
  have hxo : z.resolveSecond a l = l - o₂.seconds := by
    simp only [localSecond, hTx] at hx; omega
  have hyo : z.resolveSecond a (l + 86400) = l + 86400 - o₁.seconds := by
    simp only [localSecond, hTy] at hy; omega
  have hbefore := hT (l - o₁.seconds) (by omega) (by omega)
  have hafter := hT (l + 86400 - o₂.seconds) (by omega) (by omega)
  rw [if_pos (by omega)] at hbefore
  rw [if_neg (by omega)] at hafter
  have hfirst := h.resolveSecond_of_repeated (a := a) (u := l - o₁.seconds)
    (by rw [localSecond, hbefore]; omega) hx (by omega)
  have hnext := h.resolveSecond_of_repeated (a := a) hy (v := l + 86400 - o₂.seconds)
    (by rw [localSecond, hafter]; omega) (by omega)
  rw [hTx] at hfirst
  rw [hafter] at hnext
  by_cases ho : o₂ = z.offsetAt a
  · rw [if_pos ho] at hnext
    omega
  · rw [if_neg ho] at hfirst
    omega

/-- The same time a day later, if it is shown on both days. -/
theorem Spaced.resolveSecond_day_of_shown (h : z.Spaced) {n : Int} (hn : 0 ≤ n)
    (hj : ∀ T, z.jumpAt T ≤ n) (hu : z.localSecond u = l) (hv : z.localSecond v = l + 86400) :
    z.resolveSecond a l + 86400 ≤ z.resolveSecond a (l + 86400) + n := by
  have hx := localSecond_resolveSecond (a := a) hu
  have hy := localSecond_resolveSecond (a := a) hv
  have hxn := resolveSecond_near z a l
  have hyn := resolveSecond_near z a (l + 86400)
  obtain ⟨T, o₁, o₂, hT⟩ := h.window (l - 86400)
  have hside := h.resolveSecond_side hT hx hy
  generalize z.resolveSecond a l = x at *
  generalize z.resolveSecond a (l + 86400) = y at *
  rw [localSecond, hT x (by omega) (by omega)] at hx
  rw [localSecond, hT y (by omega) (by omega)] at hy
  by_cases hxT : x < T
  · rw [if_pos hxT] at hx
    by_cases hyT : y < T
    · rw [if_pos hyT] at hy
      omega
    · rw [if_neg hyT] at hy
      have hjump := hj T
      rw [jumpAt, hT T (by omega) (by omega), hT (T - 1) (by omega) (by omega), if_neg (by omega),
        if_pos (by omega)] at hjump
      omega
  · rw [if_neg hxT] at hx
    rw [if_neg (by omega)] at hy
    omega

/-- From one day to the next, the instants of a time move on by a day, less the longest jump. -/
theorem Spaced.resolveSecond_day (h : z.Spaced) {n : Int} (hn : 0 ≤ n ∧ n ≤ 86400)
    (hj : ∀ T, z.jumpAt T ≤ n) (a l : Int) :
    z.resolveSecond a l + 86400 ≤ z.resolveSecond a (l + 86400) + n := by
  have hjump (T : Int) : z.jumpAt T ≤ 86400 := Int.le_trans (hj T) hn.2
  by_cases hu : ∃ u, z.localSecond u = l
  · obtain ⟨u, hu⟩ := hu
    by_cases hv : ∃ v, z.localSecond v = l + 86400
    · obtain ⟨v, hv⟩ := hv
      exact h.resolveSecond_day_of_shown hn.1 hj hu hv
    · obtain ⟨T, hT⟩ := exists_jumpsOver (not_exists.1 hv)
      have hread := (h.resolveSecond_of_jumpsOver (a := a) hT (hjump T)).1
      have hx := localSecond_resolveSecond (a := a) hu
      have hxn := resolveSecond_near z a l
      have haround := h.around_jump hT (u := z.resolveSecond a l)
      have hlower := (z.offsetAt (T - 1)).lower
      have hupper := (z.offsetAt T).upper
      obtain ⟨hle, hlt⟩ := hT
      rw [localSecond, haround (by omega) (by omega)] at hx
      split at hx
      · omega
      · omega
  · obtain ⟨T, hT⟩ := exists_jumpsOver (not_exists.1 hu)
    have hread := (h.resolveSecond_of_jumpsOver (a := a) hT (hjump T)).1
    have hjT := hj T
    have haround (v : Int) := h.around_jump hT (u := v)
    have hlower := (z.offsetAt (T - 1)).lower
    have hupper := (z.offsetAt T).upper
    obtain ⟨hle, hlt⟩ := hT
    rw [jumpAt] at hjT
    have hv : z.localSecond (l + 86400 - (z.offsetAt T).seconds) = l + 86400 := by
      rw [localSecond, haround (l + 86400 - (z.offsetAt T).seconds) (by omega) (by omega),
        if_neg (by omega)]
      omega
    have hy := localSecond_resolveSecond (a := a) hv
    have hyn := resolveSecond_near z a (l + 86400)
    rw [localSecond, haround (z.resolveSecond a (l + 86400)) (by omega) (by omega)] at hy
    split at hy
    · omega
    · omega

/-- So it is with any number of days. -/
theorem Spaced.resolveSecond_days (h : z.Spaced) {n : Int} (hn : 0 ≤ n ∧ n ≤ 86400)
    (hj : ∀ T, z.jumpAt T ≤ n) (a l : Int) (k : Nat) :
    z.resolveSecond a l + (86400 - n) * k ≤ z.resolveSecond a (l + 86400 * k) := by
  induction k with
  | zero => simp
  | succ k ih =>
    have hday := h.resolveSecond_day hn hj a (l + 86400 * k)
    have hl : l + 86400 * (k + 1 : Nat) = l + 86400 * k + 86400 := by omega
    rw [hl, Int.natCast_add, Int.natCast_one, Int.mul_add, Int.mul_one]
    omega

/-! ## The transition that skips a time -/

theorem exists_transition_of_offsetAfter {o : Offset} {ts : List Transition}
    (h : offsetAfter o ts (u - 1) ≠ offsetAfter o ts u) : ∃ c ∈ ts, c.start = u := by
  induction ts generalizing o with
  | nil => exact absurd rfl h
  | cons c rest ih =>
    rw [offsetAfter, offsetAfter] at h
    by_cases hc : c.start = u
    · exact ⟨c, List.mem_cons_self, hc⟩
    · by_cases hu : u < c.start
      · rw [if_pos hu, if_pos (by omega)] at h
        exact absurd rfl h
      · rw [if_neg hu, if_neg (by omega)] at h
        obtain ⟨r, hr, hru⟩ := ih h
        exact ⟨r, List.mem_cons_of_mem _ hr, hru⟩

/-- The wall clock jumps only at transitions. -/
theorem JumpsOver.exists_transition {T : Int} (h : z.JumpsOver T l) :
    ∃ c ∈ z.transitions, c.start = T := by
  obtain ⟨hle, hlt⟩ := h
  apply exists_transition_of_offsetAfter
  intro he
  have he : z.offsetAt (T - 1) = z.offsetAt T := he
  rw [he] at hle
  omega

/-! ## The instant of a wall-clock time -/

/-- The wall clock shows the time at the instant. -/
def Shows (z : Zone) (v : Instant) (w : WallTime) : Prop :=
  z.localSecond v.second = w.second ∧ v.nano = w.nano

/-- The instant that a wall-clock time belongs to, as seen from the anchor. -/
inductive Reads (z : Zone) (anchor : Instant) (w : WallTime) (v : Instant) : Prop
  /-- The time is shown at this instant only. -/
  | once (shown : z.Shows v w) (only : ∀ x, z.Shows x w → x = v)
  /-- The time is shown at two instants, and this is the one with the offset of the anchor, or the
  earlier one if neither has it. -/
  | repeated (earlier later : Instant) (lt : earlier < later)
    (shown : ∀ x, z.Shows x w ↔ x = earlier ∨ x = later)
    (kept : ∀ x, z.Shows x w → z.offsetAt x.second = z.offsetAt anchor.second → v = x)
    (first : (∀ x, z.Shows x w → z.offsetAt x.second ≠ z.offsetAt anchor.second) → v = earlier)
  /-- The time is never shown, since a transition skips it, and this is the instant at which it would
  have come with the offset from before. The clock then shows it shifted forward by the jump. -/
  | skipped (c : Transition) (mem : c ∈ z.transitions) (jumps : z.JumpsOver c.start w.second)
    (none : ∀ x, ¬ z.Shows x w)
    (second : v.second = w.second - (z.offsetAt (c.start - 1)).seconds) (nano : v.nano = w.nano)
    (shifted : z.localSecond v.second = w.second + z.jumpAt c.start)

theorem resolvable_of_mild (h : (⟨l / 86400⟩ : Date).Mild) : Resolvable l := by
  obtain ⟨hlo, hhi⟩ := Date.year_bounds_iff.1 h
  have hfirst : Date.first.dayNumber + 300 ≤ Date.monthBegin (12 * -262000) := by decide
  have hlast : Date.monthBegin (12 * (262000 + 1)) + 300 ≤ Date.last.dayNumber := by decide
  simp only [Resolvable, firstSecond, lastSecond] at hlo hhi ⊢
  omega

/-- All UTC seconds that show a time within the range are seconds of instants. -/
theorem exists_shows (hw : Resolvable w.second) (hu : z.localSecond u = w.second) :
    ∃ x : Instant, x.second = u ∧ z.Shows x w := by
  obtain ⟨hlo, hhi⟩ := hw
  have hn := localSecond_near z u
  obtain ⟨x, -, hx, hnano⟩ := ofSecond_ok (u := u) w.nano_lt (by omega)
  exact ⟨x, hx, by rw [hx]; exact hu, hnano⟩

theorem Shows.eq (h : z.Shows t w) (hx : z.Shows anchor w) (hs : t.second = anchor.second) :
    t = anchor :=
  Instant.ext hs (h.2.trans hx.2.symm)

/-- A wall-clock time resolves to the instant that it belongs to. -/
theorem resolve_reads (hs : z.Spaced) (hj : ∀ u, z.jumpAt u ≤ 86400)
    (hm : (⟨w.second / 86400⟩ : Date).Mild) (anchor : Instant) :
    ∃ v, z.resolve anchor w = .ok v ∧ z.Reads anchor w v := by
  have hw := resolvable_of_mild hm
  obtain ⟨v, hv, hsecond, hnano⟩ := resolve_ok (z := z) anchor hw
  refine ⟨v, hv, ?_⟩
  have hr := locate_spec z w.second
  generalize z.locate w.second = r at hr
  cases hr with
  | skipped none =>
    obtain ⟨T, hT⟩ := exists_jumpsOver none
    obtain ⟨c, hc, rfl⟩ := hT.exists_transition
    obtain ⟨hread, hshifted⟩ := hs.resolveSecond_of_jumpsOver (a := anchor.second) hT (hj _)
    rw [← hsecond] at hread hshifted
    exact .skipped c hc hT (fun x hx => none _ hx.1) hread hnano hshifted
  | once u shown only =>
    have hshown : z.Shows v w := ⟨by rw [hsecond]; exact localSecond_resolveSecond shown, hnano⟩
    refine .once hshown fun x hx => hx.eq hshown ?_
    rw [only _ hx.1, only _ hshown.1]
  | repeated c d lt first last between =>
    obtain ⟨earlier, hc, hearlier⟩ := exists_shows hw first
    obtain ⟨later, hd, hlater⟩ := exists_shows hw last
    have hread := hs.resolveSecond_of_repeated (a := anchor.second) first last lt
    rw [← hsecond, ← hc, ← hd] at hread
    have hshown : z.Shows v w := ⟨by rw [hsecond]; exact localSecond_resolveSecond first, hnano⟩
    have htwo (x : Instant) : z.Shows x w ↔ x = earlier ∨ x = later := by
      constructor
      · intro hx
        rcases hs.eq_or_eq_of_shown first last lt hx.1 with hxc | hxd
        · exact .inl (hx.eq hearlier (hxc.trans hc.symm))
        · exact .inr (hx.eq hlater (hxd.trans hd.symm))
      · rintro (rfl | rfl)
        · exact hearlier
        · exact hlater
    refine .repeated earlier later (.inl (by omega)) htwo (fun x hx hoffset => ?_) fun hne => ?_
    · rcases (htwo x).1 hx with rfl | rfl
      · rw [if_neg fun he => ?_] at hread
        · exact hshown.eq hx hread
        · have := eq_of_offsetAt_eq hearlier.1 hlater.1 (hoffset.trans he.symm)
          omega
      · rw [if_pos hoffset] at hread
        exact hshown.eq hx hread
    · rw [if_neg (hne later hlater)] at hread
      exact hshown.eq hearlier hread

/-- 2026-03-28, 20:01 UTC. -/
def saturdayEvening : Instant := (Instant.of? 1774728060 0).get (by decide)

/-- Half a second after 02:30 on 2026-03-29, which is skipped. -/
theorem skippedNight_reads : summerTime.Spaced ∧ (∀ u, summerTime.jumpAt u ≤ 86400) ∧
    (⟨(1774751400 : Int) / 86400⟩ : Date).Mild ∧
    ∃ v, summerTime.resolve saturdayEvening ⟨1774751400, 500000000, by decide⟩ = .ok v ∧
      v.second = 1774747800 ∧ v.nano = 500000000 ∧
      summerTime.Reads saturdayEvening ⟨1774751400, 500000000, by decide⟩ v := by
  have hs : summerTime.Spaced := by decide
  have hj (u : Int) : summerTime.jumpAt u ≤ 86400 := by
    have := jumpAt_le (z := summerTime) (n := 3600) (by decide) u
    omega
  have hm : (⟨(1774751400 : Int) / 86400⟩ : Date).Mild := by decide
  obtain ⟨v, hv, hsecond, hnano⟩ : ∃ v,
      summerTime.resolve saturdayEvening ⟨1774751400, 500000000, by decide⟩ = .ok v ∧
      v.second = 1774747800 ∧ v.nano = 500000000 := ⟨_, rfl, rfl, rfl⟩
  obtain ⟨v', hv', hreads⟩ :=
    resolve_reads (w := ⟨1774751400, 500000000, by decide⟩) hs hj hm saturdayEvening
  obtain rfl : v = v' := Except.ok.inj (hv.symm.trans hv')
  exact ⟨hs, hj, hm, v, hv, hsecond, hnano, hreads⟩

end Recurrence.Zone
