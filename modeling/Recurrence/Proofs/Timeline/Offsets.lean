import Mathlib
import Recurrence.Timeline.Zone
/-!
# Offsets over time

In a zone whose transitions are at least three days apart, the offset changes at most once within
any three days (`Spaced.window`). As offsets are shorter than a day, all that a wall clock shows
around a local time lies within such a window. The wall clock skips a local time only where it
jumps over it (`exists_jumpsOver`). Without transitions it runs along with UTC
(`localSecond_constant`).
-/

namespace Recurrence.Zone

variable {z : Zone} {u v l c : Int}

/-- Consecutive transitions are at least three days apart. -/
def Spaced (z : Zone) : Prop := z.transitions.Pairwise fun a b => a.start + 259200 ≤ b.start

/-- Offsets and transitions are whole minutes. -/
def WholeMinutes (z : Zone) : Prop :=
  (∀ o ∈ z.offsets, o.seconds % 60 = 0) ∧ ∀ t ∈ z.transitions, t.start % 60 = 0

instance (z : Zone) : Decidable z.Spaced := inferInstanceAs (Decidable (List.Pairwise _ _))

instance (z : Zone) : Decidable z.WholeMinutes := inferInstanceAs (Decidable (_ ∧ _))

/-- Local minutes begin `c` seconds before those of UTC, and transitions are between two local
minutes. -/
def AlignedMinutes (z : Zone) (c : Int) : Prop :=
  (∀ o ∈ z.offsets, (o.seconds - c) % 60 = 0) ∧ ∀ t ∈ z.transitions, (t.start + c) % 60 = 0

/-- What the wall clock jumps forward by at a UTC second, if that is positive, and back by if it
is negative. -/
def jumpAt (z : Zone) (u : Int) : Int := (z.offsetAt u).seconds - (z.offsetAt (u - 1)).seconds

/-- At the UTC second `u`, the wall clock jumps forward past the local second `l`. -/
def JumpsOver (z : Zone) (u l : Int) : Prop :=
  u + (z.offsetAt (u - 1)).seconds ≤ l ∧ l < u + (z.offsetAt u).seconds

/-! ## The offset in force -/

theorem offsetAfter_of_lt {o : Offset} {ts : List Transition} (h : ∀ t ∈ ts, u < t.start) :
    offsetAfter o ts u = o := by
  cases ts with
  | nil => rfl
  | cons t rest => rw [offsetAfter, if_pos (h t List.mem_cons_self)]

theorem offsetAfter_mem (o : Offset) (ts : List Transition) (u : Int) :
    offsetAfter o ts u ∈ o :: ts.map (·.offset) := by
  induction ts generalizing o with
  | nil => exact List.mem_cons_self
  | cons t rest ih =>
    unfold offsetAfter
    split
    · exact List.mem_cons_self
    · exact List.mem_cons_of_mem _ (ih t.offset)

theorem offsetAt_mem (z : Zone) (u : Int) : z.offsetAt u ∈ z.offsets := offsetAfter_mem _ _ _

/-! ## Local minutes -/

theorem offsetAfter_congr {o : Offset} {ts : List Transition} (h : ∀ t ∈ ts, (t.start + c) % 60 = 0)
    (huv : (u + c) / 60 = (v + c) / 60) : offsetAfter o ts u = offsetAfter o ts v := by
  induction ts generalizing o with
  | nil => rfl
  | cons t rest ih =>
    have ht := h t List.mem_cons_self
    rw [offsetAfter, offsetAfter, ih fun r hr => h r (List.mem_cons_of_mem _ hr)]
    by_cases hu : u < t.start
    · rw [if_pos hu, if_pos (by omega)]
    · rw [if_neg hu, if_neg (by omega)]

/-- The offset does not change within a local minute. -/
theorem AlignedMinutes.offsetAt_eq (h : z.AlignedMinutes c) (huv : (u + c) / 60 = (v + c) / 60) :
    z.offsetAt u = z.offsetAt v := offsetAfter_congr h.2 huv

theorem AlignedMinutes.localSecond_mod (h : z.AlignedMinutes c) (u : Int) :
    z.localSecond u % 60 = (u + c) % 60 := by
  have := h.1 _ (offsetAt_mem z u)
  unfold localSecond
  omega

theorem WholeMinutes.aligned (h : z.WholeMinutes) : z.AlignedMinutes 0 :=
  ⟨fun o ho => by rw [Int.sub_zero]; exact h.1 o ho, fun t ht => by rw [Int.add_zero]; exact h.2 t ht⟩

@[simp] theorem offsetAt_constant (o : Offset) (u : Int) : (constant o).offsetAt u = o := rfl

theorem aligned_constant (o : Offset) : (constant o).AlignedMinutes o.seconds := by
  refine ⟨fun o' ho => ?_, fun t ht => absurd ht List.not_mem_nil⟩
  obtain rfl : o' = o := List.mem_singleton.1 ho
  rw [Int.sub_self]; rfl

/-! ## Zones without transitions -/

section Constant

variable {o : Offset} (hz : ∀ u, z.offsetAt u = o)
include hz

theorem localSecond_constant (u : Int) : z.localSecond u = u + o.seconds := by
  unfold localSecond
  rw [hz]

theorem localSecond_lt_iff : z.localSecond u < z.localSecond v ↔ u < v := by
  rw [localSecond_constant hz, localSecond_constant hz]
  omega

theorem localSecond_le_iff : z.localSecond u ≤ z.localSecond v ↔ u ≤ v := by
  rw [localSecond_constant hz, localSecond_constant hz]
  omega

end Constant

/-! ## Three days -/

/-- From `a` on, for three days, the offset is `o₁` before `T` and `o₂` from then on. -/
def OffsetsAround (z : Zone) (a T : Int) (o₁ o₂ : Offset) : Prop :=
  ∀ u, a ≤ u → u < a + 259200 → z.offsetAt u = if u < T then o₁ else o₂

theorem offsetAfter_window (o : Offset) {ts : List Transition}
    (h : ts.Pairwise fun a b => a.start + 259200 ≤ b.start) (a : Int) :
    ∃ T o₁ o₂, ∀ u, a ≤ u → u < a + 259200 → offsetAfter o ts u = if u < T then o₁ else o₂ := by
  induction ts generalizing o with
  | nil => exact ⟨0, o, o, fun u _ _ => by rw [offsetAfter, ite_self]⟩
  | cons t rest ih =>
    rw [List.pairwise_cons] at h
    by_cases ha : t.start ≤ a
    · obtain ⟨T, o₁, o₂, hT⟩ := ih t.offset h.2
      refine ⟨T, o₁, o₂, ?_⟩
      intro u hau hu
      rw [offsetAfter, if_neg (by omega), hT u hau hu]
    · refine ⟨t.start, o, t.offset, ?_⟩
      intro u hau hu
      unfold offsetAfter
      split
      · rfl
      · exact offsetAfter_of_lt fun r hr => by have := h.1 r hr; omega

theorem Spaced.window (h : z.Spaced) (a : Int) : ∃ T o₁ o₂, z.OffsetsAround a T o₁ o₂ :=
  offsetAfter_window z.base h a

/-! ## Skipped local times -/

/-- A local time that the wall clock never shows is one that it jumps over. -/
theorem exists_jumpsOver (h : ∀ u, z.localSecond u ≠ l) : ∃ u, z.JumpsOver u l := by
  classical
  have hex : ∃ n : Nat, l < z.localSecond (l - 86400 + n) := by
    refine ⟨172800, ?_⟩
    have := (z.offsetAt (l - 86400 + (172800 : Nat))).lower
    unfold localSecond
    omega
  have hpos : 0 < Nat.find hex := by
    rw [Nat.find_pos]
    have := (z.offsetAt (l - 86400 + (0 : Nat))).upper
    unfold localSecond
    omega
  have hbefore := Nat.find_min hex (m := Nat.find hex - 1) (by omega)
  have hafter := Nat.find_spec hex
  rw [show l - 86400 + ((Nat.find hex - 1 : Nat) : Int) = l - 86400 + (Nat.find hex : Int) - 1 by omega]
    at hbefore
  have hne := h (l - 86400 + (Nat.find hex : Int) - 1)
  generalize l - 86400 + (Nat.find hex : Int) = u at *
  exact ⟨u, by simp only [localSecond] at hbefore hne; omega, hafter⟩

/-- No jump is longer than any two offsets are apart. -/
theorem jumpAt_le {n : Int} (h : ∀ o ∈ z.offsets, ∀ o' ∈ z.offsets, o.seconds - o'.seconds ≤ n)
    (u : Int) : z.jumpAt u ≤ n :=
  h _ (offsetAt_mem z u) _ (offsetAt_mem z (u - 1))

/-- One hour ahead of UTC, and two hours from 2026-03-29 to 2026-10-25, each time at 01:00 UTC. -/
def summerTime : Zone where
  base := ⟨3600, by decide, by decide⟩
  transitions := [⟨1774746000, 7200, by decide, by decide⟩, ⟨1792890000, 3600, by decide, by decide⟩]
  ascending := by decide

end Recurrence.Zone
