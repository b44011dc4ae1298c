import Recurrence.Proofs.Timeline.Offsets
import Recurrence.Timeline.Stamp
/-!
# From wall-clock time to instants

`Zone.locate` tells the UTC seconds that show a local second (`locate_spec`). Away from the ends of
the range, resolving a wall-clock time is arithmetic on seconds, `resolveSecond` (`resolve_ok`).
With transitions three days apart, a time is shown at most twice (`eq_or_eq_of_shown`). One that is
later on the wall clock than the anchor resolves to a later instant (`lt_resolveSecond`), the anchor's
own time to the anchor (`resolveSecond_self`), and a skipped time to the instant that it would have
been before the jump (`resolveSecond_of_jumpsOver`). No time is shifted by more than the longest jump
(`resolveSecond_within`).
-/

namespace Recurrence.Zone

variable {z : Zone} {a u v l : Int}

/-! ## Readings -/

theorem mem_readings : u ∈ z.readings l ↔ z.localSecond u = l := by
  simp only [readings, List.mem_map, List.mem_filter, decide_eq_true_eq, localSecond]
  constructor
  · rintro ⟨o, ⟨-, ho⟩, rfl⟩
    rw [ho]; omega
  · intro h
    have e : l - (z.offsetAt u).seconds = u := by omega
    exact ⟨z.offsetAt u, ⟨offsetAt_mem z u, by rw [e]⟩, e⟩

/-- What a reading says about the UTC seconds that show the local second `l`. -/
inductive Locates (z : Zone) (l : Int) : Reading → Prop
  | skipped (none : ∀ u, z.localSecond u ≠ l) : Locates z l .skipped
  | once (u : Int) (shown : z.localSecond u = l) (only : ∀ v, z.localSecond v = l → v = u) :
    Locates z l (.once u)
  | repeated (a b : Int) (lt : a < b) (first : z.localSecond a = l) (last : z.localSecond b = l)
      (between : ∀ v, z.localSecond v = l → a ≤ v ∧ v ≤ b) : Locates z l (.repeated a b)

theorem locate_spec (z : Zone) (l : Int) : Locates z l (z.locate l) := by
  unfold locate
  cases h : z.readings l with
  | nil =>
    refine .skipped fun u hu => ?_
    rw [← mem_readings, h] at hu
    exact absurd hu List.not_mem_nil
  | cons c rest =>
    have hmem (v : Int) : v ∈ c :: rest ↔ z.localSecond v = l := h ▸ mem_readings
    have hmin := List.min?_eq_some_iff.1 (show (c :: rest).min? = some _ from List.min?_cons')
    have hmax := List.max?_eq_some_iff.1 (show (c :: rest).max? = some _ from List.max?_cons')
    simp only [hmem] at hmin hmax
    simp only
    split
    · next he =>
      have hc := (hmem c).1 List.mem_cons_self
      have := hmin.2 c hc
      have := hmax.2 c hc
      refine .once _ hc fun v hv => ?_
      have := hmin.2 v hv
      have := hmax.2 v hv
      omega
    · next hne =>
      have := hmin.2 _ hmax.1
      exact .repeated _ _ (by omega) hmin.1 hmax.1 fun v hv => ⟨hmin.2 v hv, hmax.2 v hv⟩

/-- A UTC second and the local second that it shows are less than a day apart. -/
theorem localSecond_near (z : Zone) (u : Int) :
    u - 86400 < z.localSecond u ∧ z.localSecond u < u + 86400 := by
  have := (z.offsetAt u).lower
  have := (z.offsetAt u).upper
  unfold localSecond
  omega

theorem earliest?_eq_some (h : z.earliest? l = some u) :
    z.localSecond u = l ∧ ∀ v, z.localSecond v = l → u ≤ v := by
  have hr := locate_spec z l
  unfold earliest? at h
  generalize z.locate l = r at h hr
  cases hr with
  | skipped none => cases h
  | once c shown only =>
    cases h
    exact ⟨shown, fun v hv => Int.le_of_eq (only v hv).symm⟩
  | repeated a b lt first last between =>
    cases h
    exact ⟨first, fun v hv => (between v hv).1⟩

theorem exists_earliest (h : z.localSecond v = l) : ∃ u, z.earliest? l = some u := by
  have hr := locate_spec z l
  unfold earliest?
  generalize z.locate l = r at hr ⊢
  cases hr with
  | skipped none => exact absurd h (none v)
  | once c shown only => exact ⟨c, rfl⟩
  | repeated a b lt first last between => exact ⟨a, rfl⟩

/-! ## Resolving in seconds -/

/-- The UTC second of a local second, as seen from the UTC second of the anchor. -/
def resolveSecond (z : Zone) (anchor l : Int) : Int :=
  match z.locate l with
  | .skipped =>
    match z.earliest? (l - 86400) with
    | some u => l - (z.offsetAt u).seconds
    | none => l - (z.offsetAt anchor).seconds
  | .once u => u
  | .repeated earliest latest =>
    if z.offsetAt latest = z.offsetAt anchor then latest else earliest

/-- Resolving moves by less than a day. -/
theorem resolveSecond_near (z : Zone) (a l : Int) :
    l - 86400 < z.resolveSecond a l ∧ z.resolveSecond a l < l + 86400 := by
  have near {u : Int} (hu : z.localSecond u = l) : l - 86400 < u ∧ u < l + 86400 := by
    have := localSecond_near z u
    omega
  have hr := locate_spec z l
  unfold resolveSecond
  generalize z.locate l = r at hr ⊢
  cases hr with
  | skipped none =>
    simp only
    split
    · next u _ =>
      have := (z.offsetAt u).lower
      have := (z.offsetAt u).upper
      omega
    · have := (z.offsetAt a).lower
      have := (z.offsetAt a).upper
      omega
  | once u shown only => exact near shown
  | repeated c d lt first last between =>
    simp only
    split
    · exact near last
    · exact near first

/-- Only the offset of the anchor counts. -/
theorem resolveSecond_congr {b : Int} (h : z.offsetAt a = z.offsetAt b) (l : Int) :
    z.resolveSecond a l = z.resolveSecond b l := by
  unfold resolveSecond
  rw [h]

theorem ofSecond_ok {n : Nat} (hn : n < 1000000000) (h : firstSecond ≤ u ∧ u ≤ lastSecond) :
    ∃ t, Instant.ofSecond u n hn = .ok t ∧ t.second = u ∧ t.nano = n := by
  rw [Instant.ofSecond, dif_pos h]
  exact ⟨_, rfl, rfl, rfl⟩

theorem eq_of_ofSecond {u : Int} {n : Nat} {hn : n < 1000000000} (h : Instant.ofSecond u n hn = .ok t) :
    t.second = u ∧ t.nano = n := by
  unfold Instant.ofSecond at h
  split at h
  · cases h
    exact ⟨rfl, rfl⟩
  · cases h

/-- The second lies two days after the first one of the range at least, and a day before the last
one. -/
def Resolvable (l : Int) : Prop := firstSecond + 172800 ≤ l ∧ l + 86400 ≤ lastSecond

theorem resolve_ok (t : Instant) {w : WallTime} (h : Resolvable w.second) :
    ∃ v, z.resolve t w = .ok v ∧ v.second = z.resolveSecond t.second w.second ∧ v.nano = w.nano := by
  obtain ⟨hlo, hhi⟩ := h
  have near {u : Int} (hu : z.localSecond u = w.second) : firstSecond ≤ u ∧ u ≤ lastSecond := by
    have := localSecond_near z u
    omega
  have hr := locate_spec z w.second
  rw [resolve, resolveSecond]
  generalize z.locate w.second = r at hr ⊢
  cases hr with
  | skipped none =>
    simp only
    rw [resolveSkipped, if_neg (by omega)]
    cases hb : z.earliest? (w.second - 86400) with
    | some u =>
      have := (z.offsetAt u).lower
      have := (z.offsetAt u).upper
      exact ofSecond_ok w.nano_lt (by simp only; omega)
    | none =>
      have := (z.offsetAt t.second).lower
      have := (z.offsetAt t.second).upper
      exact ofSecond_ok w.nano_lt (by simp only; omega)
  | once u shown only =>
    obtain ⟨v, hv, hs, hn⟩ := ofSecond_ok w.nano_lt (near shown)
    exact ⟨v, by simp only [hv], hs, hn⟩
  | repeated a b lt first last between =>
    obtain ⟨v₁, hv₁, hs₁, hn₁⟩ := ofSecond_ok w.nano_lt (near first)
    obtain ⟨v₂, hv₂, hs₂, hn₂⟩ := ofSecond_ok w.nano_lt (near last)
    simp only [hv₁, hv₂]
    split
    · exact ⟨v₂, rfl, hs₂, hn₂⟩
    · exact ⟨v₁, rfl, hs₁, hn₁⟩

/-- A local time that is shown resolves to an instant that shows it. -/
theorem localSecond_resolveSecond (h : z.localSecond v = l) :
    z.localSecond (z.resolveSecond a l) = l := by
  have hr := locate_spec z l
  unfold resolveSecond
  generalize z.locate l = r at hr ⊢
  cases hr with
  | skipped none => exact absurd h (none v)
  | once u shown only => exact shown
  | repeated c d lt first last between =>
    simp only
    split
    · exact last
    · exact first

/-! ## With transitions three days apart -/

theorem eq_of_offsetAt_eq (hu : z.localSecond u = l) (hv : z.localSecond v = l)
    (h : z.offsetAt u = z.offsetAt v) : u = v := by
  simp only [localSecond, h] at hu hv; omega

/-- Of two UTC seconds that show the same time, one is before a transition and one after it, and
there are no others. -/
theorem Spaced.eq_or_eq_of_shown (h : z.Spaced) (hu : z.localSecond u = l) (hv : z.localSecond v = l)
    (huv : u < v) (hx : z.localSecond x = l) : x = u ∨ x = v := by
  obtain ⟨T, o₁, o₂, hT⟩ := h.window (l - 86400)
  have hun := localSecond_near z u
  have hvn := localSecond_near z v
  have hxn := localSecond_near z x
  have hTu := hT u (by omega) (by omega)
  have hTv := hT v (by omega) (by omega)
  have hTx := hT x (by omega) (by omega)
  have hne : z.offsetAt u ≠ z.offsetAt v := fun he => by
    have := eq_of_offsetAt_eq hu hv he
    omega
  have hsides : u < T ∧ T ≤ v := by
    rw [hTu, hTv] at hne
    by_contra hn
    by_cases huT : u < T
    · exact hne (by rw [if_pos huT, if_pos (by omega)])
    · exact hne (by rw [if_neg huT, if_neg (by omega)])
  rw [if_pos hsides.1] at hTu
  rw [if_neg (by omega)] at hTv
  by_cases hxT : x < T
  · rw [if_pos hxT] at hTx
    exact .inl (eq_of_offsetAt_eq hx hu (hTx.trans hTu.symm))
  · rw [if_neg hxT] at hTx
    exact .inr (eq_of_offsetAt_eq hx hv (hTx.trans hTv.symm))

/-- The anchor's own wall-clock time resolves to the anchor. -/
theorem Spaced.resolveSecond_self (h : z.Spaced) (ha : z.localSecond a = l) :
    z.resolveSecond a l = a := by
  have hr := locate_spec z l
  unfold resolveSecond
  generalize z.locate l = r at hr ⊢
  cases hr with
  | skipped none => exact absurd ha (none a)
  | once u shown only => exact (only a ha).symm
  | repeated c d lt first last =>
    simp only
    rcases h.eq_or_eq_of_shown first last lt ha with rfl | rfl
    · refine if_neg fun he => ?_
      have := eq_of_offsetAt_eq last first he
      omega
    · exact if_pos rfl

/-- Where the wall clock jumps over a time, the offset changes only there, for three days before and
after it. -/
theorem Spaced.around_jump (h : z.Spaced) {T : Int} (hT : z.JumpsOver T l) (hlo : T - 259200 < u)
    (hhi : u < T + 259199) : z.offsetAt u = if u < T then z.offsetAt (T - 1) else z.offsetAt T := by
  obtain ⟨hle, hlt⟩ := hT
  obtain ⟨S, o₁, o₂, hS⟩ := h.window (min u (T - 1))
  have h₁ := hS (T - 1) (by omega) (by omega)
  have h₂ := hS T (by omega) (by omega)
  have hu := hS u (by omega) (by omega)
  have hTS : S = T := by
    by_contra hne
    have he : z.offsetAt T = z.offsetAt (T - 1) := by
      by_cases hST : S < T
      · rw [h₁, h₂, if_neg (by omega), if_neg (by omega)]
      · rw [h₁, h₂, if_pos (by omega), if_pos (by omega)]
    rw [he] at hlt
    omega
  subst hTS
  rw [if_pos (by omega)] at h₁
  rw [if_neg (Int.lt_irrefl _)] at h₂
  rw [h₁, h₂]
  exact hu

/-- A time of which a reading is at or before the anchor, though it is later on the wall clock, is
read once more after the anchor, with the anchor's offset. -/
theorem Spaced.exists_later (h : z.Spaced) (ha : z.localSecond a < l) (hu : z.localSecond u = l)
    (hua : u ≤ a) : ∃ v, a < v ∧ z.localSecond v = l ∧
      ∀ w, v ≤ w → z.localSecond w = l → z.offsetAt w = z.offsetAt a := by
  obtain ⟨T, o₁, o₂, hT⟩ := h.window (l - 86400)
  have hun := localSecond_near z u
  have han := localSecond_near z a
  have hTu := hT u (by omega) (by omega)
  have hTa := hT a (by omega) (by omega)
  have hsplit : u < T ∧ T ≤ a := by
    by_contra hn
    have he : z.offsetAt u = z.offsetAt a := by
      by_cases huT : u < T
      · rw [hTu, hTa, if_pos huT, if_pos (by omega)]
      · rw [hTu, hTa, if_neg huT, if_neg (by omega)]
    simp only [localSecond, he] at hu ha; omega
  rw [if_neg (by omega)] at hTa
  have hl := o₂.lower
  have hlater : a < l - o₂.seconds := by simp only [localSecond, hTa] at ha; omega
  refine ⟨l - o₂.seconds, hlater, ?_, fun w hvw hw => ?_⟩
  · rw [localSecond, hT _ (by omega) (by omega), if_neg (by omega)]; omega
  · have hwn := localSecond_near z w
    rw [hT w (by omega) (by omega), if_neg (by omega), hTa]

/-- What is later on the wall clock than the anchor resolves to a later instant. -/
theorem Spaced.lt_resolveSecond (h : z.Spaced) (ha : z.localSecond a < l) :
    a < z.resolveSecond a l := by
  have hr := locate_spec z l
  unfold resolveSecond
  generalize z.locate l = r at hr ⊢
  cases hr with
  | skipped none =>
    simp only
    cases hb : z.earliest? (l - 86400) with
    | some u =>
      obtain ⟨T, hT⟩ := exists_jumpsOver none
      obtain ⟨hu, -⟩ := earliest?_eq_some hb
      have hun := localSecond_near z u
      have han := localSecond_near z a
      have hlo := (z.offsetAt (T - 1)).lower
      have hup := (z.offsetAt T).upper
      have haround (v : Int) := h.around_jump hT (u := v)
      obtain ⟨hle, hlt⟩ := hT
      have hTu := haround u (by omega) (by omega)
      have huT : u < T := by
        by_contra hn
        rw [if_neg hn] at hTu
        simp only [localSecond, hTu] at hu; omega
      rw [if_pos huT] at hTu
      simp only [hTu]
      by_contra hn
      have hup := (z.offsetAt (T - 1)).upper
      have hTa := haround a (by omega) (by omega)
      rw [if_neg (by omega)] at hTa
      simp only [localSecond, hTa] at ha; omega
    | none => simp only [localSecond] at ha ⊢; omega
  | once u shown only =>
    simp only
    by_contra hn
    obtain ⟨v, hav, hv, -⟩ := h.exists_later ha shown (by omega)
    have := only v hv
    omega
  | repeated c d lt first last between =>
    simp only
    split
    · next he => simp only [localSecond, he] at ha last; omega
    · next hne =>
      by_contra hn
      obtain ⟨v, hav, hv, hlater⟩ := h.exists_later ha first (by omega)
      exact hne (hlater d (between v hv).2 last)

/-- A local time that the wall clock jumps over is never shown. -/
theorem Spaced.not_shown (h : z.Spaced) {T : Int} (hT : z.JumpsOver T l) : z.localSecond u ≠ l := by
  intro hu
  have hn := localSecond_near z u
  have hlo := (z.offsetAt (T - 1)).lower
  have hup := (z.offsetAt T).upper
  have hTu := h.around_jump hT (u := u)
  obtain ⟨hle, hlt⟩ := hT
  specialize hTu (by omega) (by omega)
  by_cases huT : u < T
  · rw [if_pos huT] at hTu
    simp only [localSecond, hTu] at hu; omega
  · rw [if_neg huT] at hTu
    simp only [localSecond, hTu] at hu; omega

/-- A skipped time resolves with the offset from before the jump. The wall clock then shows it
shifted forward by the length of the jump. -/
theorem Spaced.resolveSecond_of_jumpsOver (h : z.Spaced) {T : Int} (hT : z.JumpsOver T l)
    (hj : z.jumpAt T ≤ 86400) : z.resolveSecond a l = l - (z.offsetAt (T - 1)).seconds ∧
      z.localSecond (z.resolveSecond a l) = l + z.jumpAt T := by
  have haround (v : Int) := h.around_jump hT (u := v)
  have hnone : ∀ u, z.localSecond u ≠ l := fun u => h.not_shown hT
  obtain ⟨hle, hlt⟩ := hT
  have hlo := (z.offsetAt (T - 1)).lower
  have hup := (z.offsetAt (T - 1)).upper
  have hup' := (z.offsetAt T).upper
  simp only [jumpAt] at hj ⊢
  have hr := locate_spec z l
  have he : z.resolveSecond a l = l - (z.offsetAt (T - 1)).seconds := by
    unfold resolveSecond
    generalize z.locate l = r at hr ⊢
    cases hr with
    | once u shown only => exact absurd shown (hnone u)
    | repeated c d lt first last between => exact absurd first (hnone c)
    | skipped none =>
      have hday : z.localSecond (l - 86400 - (z.offsetAt (T - 1)).seconds) = l - 86400 := by
        rw [localSecond, haround (l - 86400 - (z.offsetAt (T - 1)).seconds) (by omega) (by omega),
          if_pos (by omega)]
        omega
      obtain ⟨u, hu⟩ := exists_earliest hday
      obtain ⟨hshown, hmin⟩ := earliest?_eq_some hu
      have hle' := hmin _ hday
      have hn := localSecond_near z u
      simp only [hu]
      rw [haround u (by omega) (by omega), if_pos (by omega)]
  refine ⟨he, ?_⟩
  rw [he, localSecond, haround (l - (z.offsetAt (T - 1)).seconds) (by omega) (by omega),
    if_neg (by omega)]
  omega

/-- A local time resolves to an instant that shows it, or shows it shifted forward by the length of
the jump that skips it. -/
theorem Spaced.resolveSecond_shows (h : z.Spaced) (hj : ∀ u, z.jumpAt u ≤ 86400) (a l : Int) :
    z.localSecond (z.resolveSecond a l) = l ∨
      ∃ u, z.JumpsOver u l ∧ z.localSecond (z.resolveSecond a l) = l + z.jumpAt u := by
  by_cases hex : ∃ v, z.localSecond v = l
  · obtain ⟨v, hv⟩ := hex
    exact .inl (localSecond_resolveSecond hv)
  · obtain ⟨T, hT⟩ := exists_jumpsOver (not_exists.1 hex)
    exact .inr ⟨T, hT, (h.resolveSecond_of_jumpsOver hT (hj T)).2⟩

/-- A local time resolves to an instant that shows it, or something later by no more than the longest
jump. -/
theorem Spaced.resolveSecond_within (h : z.Spaced) {n : Int} (hn : 0 ≤ n ∧ n ≤ 86400)
    (hj : ∀ u, z.jumpAt u ≤ n) (a l : Int) :
    l ≤ z.localSecond (z.resolveSecond a l) ∧ z.localSecond (z.resolveSecond a l) ≤ l + n := by
  rcases h.resolveSecond_shows (fun u => Int.le_trans (hj u) hn.2) a l with
    hshown | ⟨u, ⟨hle, hlt⟩, hshown⟩
  · omega
  · have hjump := hj u
    unfold jumpAt at hshown hjump
    omega

end Recurrence.Zone
