import Mathlib
import Recurrence.Schedule.DateFilter
/-!
# Looking up members of a selection

Members are listed in ascending order, so the first one found from a number on is the smallest
(`from?_eq_some_iff`), and a selection that restricts nothing has every number of its domain.
-/

namespace Recurrence.Selection

variable {lo hi : Nat} {s : Selection lo hi} {m n : Nat}

theorem mem_def : n ∈ s ↔ n ∈ s.members := Iff.rfl

theorem bounds_of_mem (h : n ∈ s) : lo ≤ n ∧ n ≤ hi := s.within n h

private theorem find?_ascending {l : List Nat} (h : l.Pairwise (· < ·)) :
    l.find? (n ≤ ·) = some m ↔ m ∈ l ∧ n ≤ m ∧ ∀ k ∈ l, n ≤ k → m ≤ k := by
  induction l with
  | nil => simp
  | cons a rest ih =>
    rw [List.pairwise_cons] at h
    by_cases ha : n ≤ a
    · rw [List.find?_cons_of_pos (by simpa using ha)]
      constructor
      · rintro ⟨rfl⟩
        refine ⟨List.mem_cons_self, ha, ?_⟩
        intro k hk _
        rcases List.mem_cons.1 hk with rfl | hk
        · exact Nat.le_refl _
        · exact Nat.le_of_lt (h.1 k hk)
      · rintro ⟨hm, -, hle⟩
        have hma := hle a List.mem_cons_self ha
        rcases List.mem_cons.1 hm with rfl | hm
        · rfl
        · have := h.1 m hm; omega
    · rw [List.find?_cons_of_neg (by simpa using ha), ih h.2]
      constructor
      · rintro ⟨hm, hn, hle⟩
        refine ⟨List.mem_cons_of_mem _ hm, hn, ?_⟩
        intro k hk hnk
        rcases List.mem_cons.1 hk with rfl | hk
        · exact absurd hnk ha
        · exact hle k hk hnk
      · rintro ⟨hm, hn, hle⟩
        refine ⟨?_, hn, fun k hk => hle k (List.mem_cons_of_mem _ hk)⟩
        rcases List.mem_cons.1 hm with rfl | hm
        · exact absurd hn ha
        · exact hm

theorem from?_eq_some_iff : s.from? n = some m ↔ m ∈ s ∧ n ≤ m ∧ ∀ k ∈ s, n ≤ k → m ≤ k :=
  find?_ascending s.ascending

theorem from?_eq_none_iff : s.from? n = none ↔ ∀ k ∈ s, k < n := by
  simp only [from?, List.find?_eq_none, decide_eq_true_eq, Nat.not_le, mem_def]

theorem least_mem (s : Selection lo hi) : s.least ∈ s := List.head_mem s.nonempty

private theorem head_le {l : List Nat} (hne : l ≠ []) (hasc : l.Pairwise (· < ·)) (h : n ∈ l) :
    l.head hne ≤ n := by
  cases l with
  | nil => exact absurd rfl hne
  | cons a rest =>
    rcases List.mem_cons.1 h with rfl | hr
    · exact Nat.le_refl _
    · exact Nat.le_of_lt ((List.pairwise_cons.1 hasc).1 n hr)

theorem least_le (h : n ∈ s) : s.least ≤ n := head_le s.nonempty s.ascending h

/-- An unrestricting selection is the whole domain. -/
theorem mem_of_not_restricts (h : ¬ s.Restricts) (hn : lo ≤ n ∧ n ≤ hi) : n ∈ s := by
  have hnodup : s.members.Nodup := s.ascending.imp Nat.ne_of_lt
  have hsub : s.members.toFinset ⊆ Finset.Icc lo hi := fun k hk =>
    Finset.mem_Icc.2 (s.within k (List.mem_toFinset.1 hk))
  have hcard : (Finset.Icc lo hi).card ≤ s.members.toFinset.card := by
    rw [Nat.card_Icc, List.toFinset_card_of_nodup hnodup]
    simpa only [Restricts, Nat.not_lt] using h
  have hall := Finset.eq_of_subset_of_card_le hsub hcard
  rw [mem_def, ← List.mem_toFinset, hall, Finset.mem_Icc]
  exact hn

theorem mem_full (h : lo ≤ hi) (hn : lo ≤ n ∧ n ≤ hi) : n ∈ full h :=
  mem_of_not_restricts (not_restricts_full h) hn

end Recurrence.Selection
