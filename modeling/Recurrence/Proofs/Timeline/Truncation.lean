import Recurrence.Occurrence.Cursor
import Recurrence.Proofs.Timeline.Minutes
/-!
# Cutting down to the minute

The start of a minute is reached by going back: an instant by its local seconds and its fraction at
once, a time of day by the one and then by the other. Going back is not subtraction in a leap second,
which has no number of its own (`goBack`), but both ways end at the same place: the start of the minute
that the wall clock shows, on the same date (`Zone.truncations_agree`). In a local minute that begins
before the first instant of the range, cutting down fails, even when the occurrence that it is done for
is in the range.
-/

namespace Recurrence

/-! ## Going back by a duration -/

/-- The second and the nanoseconds on top of it that lie `n` nanoseconds earlier. Less than a second
does not leave a leap second for another one; anything more takes it for the second that follows its
own. -/
def goBack (second : Int) (nano n : Nat) : Int × Nat :=
  if 1000000000 ≤ nano ∧ n < 1000000000 then (second, nano - n)
  else
    let start := if 1000000000 ≤ nano then second + 1 else second
    let total := 1000000000 * start + (nano % 1000000000 : Nat) - n
    (total / 1000000000, (total % 1000000000).toNat)

variable {second : Int} {nano n s : Nat}

/-- Where a leap second is left or there is none, nothing but the sum of seconds and nanoseconds
counts. -/
theorem goBack_of_leaves (hnano : nano < 2000000000) (h : nano < 1000000000 ∨ 1000000000 ≤ n) :
    goBack second nano n = ((1000000000 * second + nano - n) / 1000000000,
      ((1000000000 * second + nano - n) % 1000000000).toNat) := by
  have htotal : 1000000000 * (if 1000000000 ≤ nano then second + 1 else second) +
      (nano % 1000000000 : Nat) - n = 1000000000 * second + nano - n := by
    split <;> omega
  rw [goBack, if_neg (by omega)]
  simp only [htotal]

/-- Seconds and fraction, taken off at once. -/
theorem goBack_both (hnano : nano < 2000000000) :
    goBack second nano (1000000000 * s + nano) = (second - s, 0) := by
  rw [goBack_of_leaves hnano (by omega)]
  ext
  · simp only
    omega
  · simp only
    omega

/-- Seconds taken off alone: a leap second is left for the second after it, unless there are none to take
off. -/
theorem goBack_seconds (hnano : nano < 2000000000) : goBack second nano (1000000000 * s) =
    if 1000000000 ≤ nano ∧ 0 < s then (second + 1 - s, nano - 1000000000) else (second - s, nano) := by
  by_cases hstays : 1000000000 ≤ nano ∧ s = 0
  · rw [goBack, if_pos (by omega), if_neg (by omega), hstays.2]
    simp only [Nat.mul_zero, Nat.sub_zero, Int.natCast_zero, Int.sub_zero]
  · rw [goBack_of_leaves hnano (by omega)]
    split <;> ext <;> simp only <;> omega

theorem goBack_nano_lt (second : Int) (hnano : nano < 2000000000) (n : Nat) :
    (goBack second nano n).2 < 2000000000 := by
  unfold goBack
  split
  · exact Nat.lt_of_le_of_lt (Nat.sub_le nano n) hnano
  · simp only
    omega

/-- The instant `n` nanoseconds earlier. -/
def Instant.minus (t : Instant) (n : Nat) : Except RollError Instant :=
  match Instant.of? (goBack t.second t.nano n).1 (goBack t.second t.nano n).2 with
  | some v => .ok v
  | none => .error .instantOutOfRange

/-- The time of day `n` nanoseconds earlier, going round at midnight. -/
def TimeOfDay.minus (time : TimeOfDay) (n : Nat) : TimeOfDay where
  second := ((goBack time.second time.nano n).1 % 86400).toNat
  nano := (goBack time.second time.nano n).2
  second_lt := by omega
  nano_lt := goBack_nano_lt _ time.nano_lt n

/-! ## The two ways down to the minute -/

/-- What an instant is past the start of its local minute, in nanoseconds. -/
def Zone.pastMinute (z : Zone) (t : Instant) : Nat :=
  1000000000 * (z.timeAt t).secondOfMinute + (z.timeAt t).nano

/-- The time of day without its seconds, and then without its fraction. -/
def TimeOfDay.truncate (time : TimeOfDay) : TimeOfDay :=
  (time.minus (1000000000 * time.secondOfMinute)).minus time.nano

namespace Zone

variable (z : Zone) (t : Instant)

theorem secondOfMinute_timeAt : ((z.timeAt t).secondOfMinute : Int) = z.localSecond t.second % 60 := by
  have hsecond := z.timeAt_second t
  unfold TimeOfDay.secondOfMinute
  omega

/-- The start of a local minute is an instant unless it lies before the first one of the range. -/
theorem startOfMinute_cases :
    (firstSecond ≤ t.second - z.localSecond t.second % 60 ∧ ∃ m, z.startOfMinute t = .ok m ∧
      m.second = t.second - z.localSecond t.second % 60 ∧ m.nano = 0) ∨
    (t.second - z.localSecond t.second % 60 < firstSecond ∧
      z.startOfMinute t = .error .instantOutOfRange) := by
  have hlast := t.le_last
  by_cases hin : firstSecond ≤ t.second - z.localSecond t.second % 60
  · exact .inl ⟨hin, ofSecond_ok (by decide) ⟨hin, by omega⟩⟩
  · exact .inr ⟨by omega, dif_neg fun h => hin h.1⟩

theorem startOfMinute_eq_minus : z.startOfMinute t = t.minus (z.pastMinute t) := by
  have hback : goBack t.second t.nano (z.pastMinute t) =
      (t.second - z.localSecond t.second % 60, 0) := by
    rw [← z.secondOfMinute_timeAt]
    exact goBack_both t.nano_lt
  unfold Instant.minus Instant.of?
  rw [hback]
  rcases z.startOfMinute_cases t with ⟨hin, m, hm, hs, hn⟩ | ⟨hout, herror⟩
  · rw [dif_pos ⟨Nat.succ_pos _, by omega, hin, by have := t.le_last; omega⟩, hm]
    exact congrArg Except.ok (Instant.ext hs hn)
  · rw [dif_neg (by omega), herror]

end Zone

namespace TimeOfDay

variable (time : TimeOfDay)

/-- Without its seconds, a time of day is its fraction past the start of its minute. -/
theorem minus_secondOfMinute : 1000000000 * (time.minus (1000000000 * time.secondOfMinute)).second +
      (time.minus (1000000000 * time.secondOfMinute)).nano =
        1000000000 * (time.second - time.secondOfMinute) + time.nano ∧
    ((time.minus (1000000000 * time.secondOfMinute)).nano < 1000000000 ∨ 1000000000 ≤ time.nano) := by
  have hsecond := time.second_lt
  have hle : time.secondOfMinute ≤ time.second := Nat.mod_le _ _
  simp only [minus, goBack_seconds time.nano_lt]
  split
  · simp only
    omega
  · simp only
    omega

theorem truncate_eq : time.truncate = time.clockTime.timeOfDay := by
  obtain ⟨hsum, hleaves⟩ := time.minus_secondOfMinute
  have hsecond := time.second_lt
  have hmod : time.second - time.secondOfMinute = 60 * (time.second / 60) := by
    unfold secondOfMinute
    omega
  rw [truncate, minus]
  generalize time.minus (1000000000 * time.secondOfMinute) = q at *
  have hback := @goBack_of_leaves q.second _ _ q.nano_lt hleaves
  ext
  · simp only [hback, clockTime, ClockTime.timeOfDay, ClockTime.second]
    omega
  · simp only [hback, clockTime, ClockTime.timeOfDay]
    omega

theorem truncate_truncate : time.truncate.truncate = time.truncate := by
  rw [truncate_eq time, truncate_eq, ClockTime.clockTime_timeOfDay]

end TimeOfDay

namespace Zone

variable {z : Zone} {t : Instant}

/-- The offset does not change from the start of the local minute on, as far as the instant. -/
def SteadyUpTo (z : Zone) (t : Instant) : Prop :=
  ∀ u, t.second - z.localSecond t.second % 60 ≤ u → u ≤ t.second → z.offsetAt u = z.offsetAt t.second

theorem SteadyUpTo.steadyMinute (h : z.SteadyUpTo t) : z.SteadyMinute t.second :=
  h _ (Int.le_refl _) (by omega)

/-- An instant is cut down to the start of the minute that the wall clock shows, on the same date, and
that is what its time of day is cut down to, leap seconds included. Either way nothing is left to cut
down the second time. Cutting an instant down fails if its local minute begins before the range, and
only then. -/
theorem truncations_agree (h : z.SteadyUpTo t) :
    ((∃ m, z.startOfMinute t = .ok m) ↔ firstSecond ≤ t.second - z.localSecond t.second % 60) ∧
    (∀ m, z.startOfMinute t = .ok m →
      t.minus (z.pastMinute t) = .ok m ∧ z.BeginsMinute t m ∧
        z.timeAt m = (z.timeAt t).truncate ∧ z.startOfMinute m = .ok m) ∧
    ∀ time : TimeOfDay, time.truncate = time.clockTime.timeOfDay ∧ time.truncate.StartsMinuteOf time ∧
      time.truncate.truncate = time.truncate := by
  refine ⟨?_, fun m hm => ?_, fun time =>
    ⟨time.truncate_eq, TimeOfDay.startsMinuteOf_iff.2 time.truncate_eq, time.truncate_truncate⟩⟩
  · rcases z.startOfMinute_cases t with ⟨hin, m, hm, -⟩ | ⟨hout, herror⟩
    · exact ⟨fun _ => hin, fun _ => ⟨m, hm⟩⟩
    · simp only [herror, reduceCtorEq, exists_false, false_iff]
      omega
  · have hbegins := h.steadyMinute.beginsMinute hm
    obtain ⟨hl, hn⟩ := beginsMinute_iff.1 hbegins
    refine ⟨z.startOfMinute_eq_minus t ▸ hm, hbegins, ?_, startOfMinute_self (by omega) hn⟩
    rw [TimeOfDay.startsMinuteOf_iff.1 hbegins.2, TimeOfDay.truncate_eq]

/-- Within the leap second at the end of 2016. -/
def endOf2016 : Instant := (Instant.of? 1483228799 1500000000).get (by decide)

/-- The first instant of the range. -/
def firstInstant : Instant := (Instant.of? firstSecond 0).get (by decide)

/-- One second ahead of UTC, that leap second is in the first second of a local minute, and is cut down
to its start. Half a minute ahead of UTC, the first instant lies in a local minute that begins before
the range. A daily schedule fails there, though its occurrence at 10:00 on that date is in the range. -/
theorem endOf2016_truncated_firstInstant_not :
    (constant ⟨1, by decide, by decide⟩).SteadyUpTo endOf2016 ∧
    (∃ m, (constant ⟨1, by decide, by decide⟩).startOfMinute endOf2016 = .ok m ∧
      m.second = 1483228799 ∧ m < endOf2016 ∧
      (constant ⟨1, by decide, by decide⟩).BeginsMinute endOf2016 m) ∧
    (constant ⟨30, by decide, by decide⟩).SteadyUpTo firstInstant ∧
    (¬ ∃ m, (constant ⟨30, by decide, by decide⟩).startOfMinute firstInstant = .ok m) ∧
    ∃ s, Schedule.daily ⟨36000, 0, by decide, by decide⟩ = .ok s ∧
      (¬ ∃ v, s.next (constant ⟨30, by decide, by decide⟩) firstInstant = .ok v) ∧
      ∃ v, firstInstant < v ∧ (constant ⟨30, by decide, by decide⟩).dateAt v =
          (constant ⟨30, by decide, by decide⟩).dateAt firstInstant ∧
        ((constant ⟨30, by decide, by decide⟩).timeAt v).second = 36000 ∧ v.nano = 0 := by
  have hleap : (constant ⟨1, by decide, by decide⟩).SteadyUpTo endOf2016 := fun _ _ _ => rfl
  have hfirst : (constant ⟨30, by decide, by decide⟩).SteadyUpTo firstInstant := fun _ _ _ => rfl
  have hbefore : ¬ firstSecond ≤ firstInstant.second -
      (constant ⟨30, by decide, by decide⟩).localSecond firstInstant.second % 60 := by decide
  obtain ⟨m, hm, hs, hlt⟩ : ∃ m, (constant ⟨1, by decide, by decide⟩).startOfMinute endOf2016 = .ok m ∧
      m.second = 1483228799 ∧ m < endOf2016 := ⟨_, rfl, rfl, by decide⟩
  obtain ⟨s, made, hfails⟩ : ∃ s, Schedule.daily ⟨36000, 0, by decide, by decide⟩ = .ok s ∧
      s.next (constant ⟨30, by decide, by decide⟩) firstInstant = .error .instantOutOfRange :=
    ⟨_, rfl, rfl⟩
  refine ⟨hleap, ⟨m, hm, hs, hlt, ((truncations_agree hleap).2.1 m hm).2.1⟩, hfirst,
    fun h => hbefore ((truncations_agree hfirst).1.1 h), s, made, ?_,
    (Instant.of? (firstSecond + 35970) 0).get (by decide), by decide, by decide, by decide, rfl⟩
  rw [hfails]
  rintro ⟨v, hv⟩
  cases hv

end Zone

end Recurrence
