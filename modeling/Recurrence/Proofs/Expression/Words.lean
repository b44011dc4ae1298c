import Recurrence.Proofs.Expression.Grammar
import Recurrence.Proofs.Schedule.Making
/-!
# Words are read as the language has them

For each kind of word there is one function that reads it, and it succeeds on the words of that kind
alone, with the value that the language gives them. Lists are read by splitting them at commas, which
no item contains.
-/

namespace Recurrence.Grammar

variable {w : Word} {n : Nat}

theorem elim_eq_ok_iff {ε α : Type} {o : Option α} {e : ε} {a : α} :
    o.elim (.error e) .ok = (.ok a : Except ε α) ↔ o = some a := by
  cases o with
  | none => simp
  | some b => simp

/-! ## Names -/

theorem isName_iff {name : Word} (h : 3 ≤ name.length) :
    (name == w || w.length == 3 && w.isPrefixOf name) = true ↔ w = name ∨ w = name.take 3 := by
  simp only [Bool.or_eq_true, beq_iff_eq, Bool.and_eq_true, List.isPrefixOf_iff_prefix,
    List.prefix_iff_eq_take]
  constructor
  · rintro (rfl | ⟨hlen, htake⟩)
    · exact .inl rfl
    · exact .inr (by rwa [hlen] at htake)
  · rintro (rfl | rfl)
    · exact .inl rfl
    · exact .inr ⟨by simp [h], by simp [h]⟩

/-- No two names begin with the same three letters, so at most one of them is meant. -/
theorem nameIndex?_eq_some_iff {names : List Word} (hlength : ∀ name ∈ names, 3 ≤ name.length)
    (hdistinct : (names.map (·.take 3)).Nodup) {i : Nat} :
    Token.nameIndex? names w = some i ↔ Name names w i := by
  rw [Token.nameIndex?, List.findIdx?_eq_some_iff_getElem]
  constructor
  · rintro ⟨hi, hmatch, -⟩
    exact ⟨names[i], List.getElem?_eq_getElem hi, (isName_iff (hlength _ (List.getElem_mem hi))).1 hmatch⟩
  · rintro ⟨name, hname, hw⟩
    obtain ⟨hi, rfl⟩ := List.getElem?_eq_some_iff.1 hname
    refine ⟨hi, (isName_iff (hlength _ (List.getElem_mem hi))).2 hw, ?_⟩
    intro j hji hmatch
    -- An earlier match would have the same first three letters.
    have hj : j < names.length := by omega
    have hw' := (isName_iff (hlength _ (List.getElem_mem hj))).1 hmatch
    have htake {k : Nat} {hk : k < names.length} (h : w = names[k] ∨ w = names[k].take 3) :
        (names.map (·.take 3))[k]? = some (w.take 3) := by
      rw [List.getElem?_map, List.getElem?_eq_getElem hk, Option.map_some]
      rcases h with rfl | rfl
      · rfl
      · rw [List.take_take, Nat.min_self]
    have hij := (List.getElem?_inj (by simpa using hj) hdistinct).1 ((htake hw').trans (htake hw).symm)
    omega

theorem weekday_eq_ok_iff : Token.weekday w = .ok n ↔ Weekday w n := by
  rw [Token.weekday, elim_eq_ok_iff, Token.weekday?, Weekday,
    nameIndex?_eq_some_iff (by decide) (by decide)]

theorem month_eq_ok_iff : Token.month w = .ok n ↔ Month w n := by
  have hname (i : Nat) : Token.nameIndex? monthNames w = some i ↔ Name monthNames w i :=
    nameIndex?_eq_some_iff (by decide) (by decide)
  rw [Token.month, elim_eq_ok_iff, Token.month?, Month, Option.map_eq_some_iff]
  simp only [hname, eq_comm]

/-! ## Ordinals -/

theorem append_eq_of_ending {digits ending t e : Word} (hdigits : Digits digits)
    (hending : ending = [] ∨ ending ∈ Token.ordinalEndings) (he : e ∈ Token.ordinalEndings)
    (h : t ++ e = digits ++ ending) : t = digits := by
  have hlength : ∀ e ∈ Token.ordinalEndings, e.length = 2 := by decide
  have hletter : ∀ e ∈ Token.ordinalEndings, e.all Char.isDigit = false := by decide
  rcases hending with rfl | hending
  · rw [List.append_nil] at h
    have hall := List.all_eq_true.2 fun c hc => hdigits c (h ▸ List.mem_append_right t hc)
    rw [hletter e he] at hall
    cases hall
  · exact (List.append_inj' h ((hlength e he).trans (hlength ending hending).symm)).1

/-- What is left of digits with an ending, or without one, are the digits. -/
theorem dropOrdinalEnding_append {digits ending : Word} (hdigits : Digits digits)
    (hending : ending = [] ∨ ending ∈ Token.ordinalEndings) :
    Token.dropOrdinalEnding (digits ++ ending) = digits := by
  unfold Token.dropOrdinalEnding
  cases hfind : Token.ordinalEndings.findSome? (·.isSuffixOf? (digits ++ ending)) with
  | some t =>
    obtain ⟨e, he, ht⟩ := List.exists_of_findSome?_eq_some hfind
    exact append_eq_of_ending hdigits hending he (List.isSuffixOf?_eq_some_iff_append_eq.1 ht)
  | none =>
    rcases hending with rfl | hending
    · exact List.append_nil digits
    · have hnone := List.findSome?_eq_none_iff.1 hfind ending hending
      rw [List.isSuffixOf?_eq_some_iff_append_eq.2 rfl] at hnone
      cases hnone

theorem exists_ordinalEnding (w : Word) : ∃ ending,
    (ending = [] ∨ ending ∈ Token.ordinalEndings) ∧ w = Token.dropOrdinalEnding w ++ ending := by
  unfold Token.dropOrdinalEnding
  cases hfind : Token.ordinalEndings.findSome? (·.isSuffixOf? w) with
  | some t =>
    obtain ⟨e, he, ht⟩ := List.exists_of_findSome?_eq_some hfind
    exact ⟨e, .inr he, (List.isSuffixOf?_eq_some_iff_append_eq.1 ht).symm⟩
  | none => exact ⟨[], .inl rfl, (List.append_nil w).symm⟩

/-- Digits are no ordinal word, whatever ending they have. -/
theorem idxOf?_digits {digits ending : Word} (hdigits : Digits digits) (hne : digits ≠ []) :
    Token.ordinalWords.idxOf? (digits ++ ending) = none := by
  have hletter : ∀ v ∈ Token.ordinalWords, v.head?.any Char.isDigit = false := by decide
  rw [List.idxOf?_eq_none_iff]
  intro hmem
  have hhead := hletter _ hmem
  cases digits with
  | nil => exact hne rfl
  | cons c rest =>
    have hc := hdigits c List.mem_cons_self
    simp only [List.cons_append, List.head?_cons, Option.any_some, hc] at hhead
    cases hhead

theorem ordinal_eq_ok_iff : Token.ordinal w = .ok n ↔ Ordinal w n := by
  rw [Token.ordinal, elim_eq_ok_iff, Token.ordinal?]
  constructor
  · intro h
    split at h
    · next i hi =>
      cases h
      obtain ⟨hlt, rfl, -⟩ := List.idxOf?_eq_some_iff.1 hi
      exact .spelled (List.getElem?_eq_getElem hlt)
    · simp only at h
      split at h
      · next hdigits =>
        cases h
        obtain ⟨ending, hending, hw⟩ := exists_ordinalEnding w
        have hcounted : Ordinal (Token.dropOrdinalEnding w ++ ending) _ :=
          .counted (List.all_eq_true.1 hdigits.2.2) (by omega) hending
        rwa [← hw] at hcounted
      · cases h
  · rintro (@⟨_, i, hi⟩ | ⟨hdigits, hlength, hending⟩)
    · obtain ⟨hlt, rfl⟩ := List.getElem?_eq_some_iff.1 hi
      have hnodup : Token.ordinalWords.Nodup := by decide
      have hidx : Token.ordinalWords.idxOf? Token.ordinalWords[i] = some i := by
        refine List.idxOf?_eq_some_iff.2 ⟨hlt, rfl, ?_⟩
        intro j hji he
        have := hnodup.getElem_inj_iff.1 he
        omega
      rw [hidx]
    · rw [idxOf?_digits hdigits (by rintro rfl; simp at hlength)]
      simp only [dropOrdinalEnding_append hdigits hending]
      rw [if_pos ⟨by omega, by omega, List.all_eq_true.2 hdigits⟩]

/-! ## Times, numbers and units -/

theorem ofHourMinute?_eq_some_iff {hour minute : Nat} {time : ClockTime} :
    ClockTime.ofHourMinute? hour minute = some time ↔ hour = time.hour ∧ minute = time.minute := by
  have hlt := time.minuteOfDay_lt
  unfold ClockTime.ofHourMinute? ClockTime.hour ClockTime.minute
  split
  · next h =>
    simp only [Option.some.injEq, ClockTime.ext_iff]
    omega
  · next h =>
    simp only [reduceCtorEq, false_iff]
    omega

theorem clockTime_eq_ok_iff {time : ClockTime} : Token.clockTime w = .ok time ↔ Time w time := by
  rw [Token.clockTime, elim_eq_ok_iff]
  constructor
  · intro h
    unfold Token.clockTime? at h
    split at h
    · split at h
      · next hclock =>
        obtain ⟨rfl, hdigits⟩ := hclock
        obtain ⟨hhour, hminute⟩ := ofHourMinute?_eq_some_iff.1 h
        exact .clock (List.all_eq_true.1 hdigits) hhour hminute
      · cases h
    · cases h
  · rintro ⟨hdigits, hhour, hminute⟩
    rw [Token.clockTime?, if_pos ⟨rfl, List.all_eq_true.2 hdigits⟩]
    exact ofHourMinute?_eq_some_iff.2 ⟨hhour, hminute⟩

theorem length_eq_ok_iff : Token.length w = .ok n ↔ Number w n := by
  unfold Token.length
  split
  · next hno =>
    simp only [reduceCtorEq, false_iff]
    exact fun h => hno (List.all_eq_true.2 h.digits)
  · next hall =>
    rw [not_not, List.all_eq_true] at hall
    split
    · next hout =>
      simp only [reduceCtorEq, false_iff]
      rintro ⟨hne, -, hvalue, hfits⟩
      simp only [hne, Token.maxLength, false_or] at hout
      omega
    · next hin =>
      rw [not_or, Token.maxLength, Nat.not_lt] at hin
      rw [Except.ok.injEq]
      exact ⟨fun h => ⟨hin.1, hall, h, by omega⟩, fun h => h.value⟩

theorem unit_eq_ok_iff {unit : TimeUnit} : Token.unit w = .ok unit ↔ UnitName w unit := by
  rw [Token.unit, elim_eq_ok_iff, Token.unit?]
  constructor
  · intro h
    split at h
    · next hminutes =>
      cases h
      rcases hminutes with rfl | rfl
      · exact .mins
      · exact .minutes
    · split at h
      · next hhours =>
        cases h
        rw [hhours]
        exact .hours
      · cases h
  · rintro ⟨⟩
    · rfl
    · rfl
    · rfl

/-! ## The characters of words -/

/-- A lower-case letter, a digit, a hyphen or a colon. -/
def isPlain (c : Char) : Bool := c.isLower || c.isDigit || c == '-' || c == ':'

theorem Name.isLower {names : List Word} (hnames : ∀ name ∈ names, name.all Char.isLower) {i : Nat}
    (h : Name names w i) : ∀ c ∈ w, c.isLower := by
  obtain ⟨name, hname, hw⟩ := h
  have hlower := List.all_eq_true.1 (hnames name (List.mem_of_getElem? hname))
  rcases hw with rfl | rfl
  · exact hlower
  · exact fun c hc => hlower c (List.mem_of_mem_take hc)

theorem Weekday.isLower (h : Weekday w n) : ∀ c ∈ w, c.isLower := Name.isLower (by decide) h

theorem Month.isLower (h : Month w n) : ∀ c ∈ w, c.isLower := by
  obtain ⟨i, h, -⟩ := h
  exact h.isLower (by decide)

theorem isPlain_of_isLower {c : Char} (h : c.isLower) : isPlain c := by simp [isPlain, h]

theorem isPlain_of_isDigit {c : Char} (h : c.isDigit) : isPlain c := by simp [isPlain, h]

theorem Ordinal.isPlain (h : Ordinal w n) : ∀ c ∈ w, isPlain c := by
  have hwords : ∀ v ∈ Token.ordinalWords, v.all Grammar.isPlain := by decide
  have hendings : ∀ e ∈ Token.ordinalEndings, e.all Grammar.isPlain := by decide
  cases h with
  | spelled hi => exact List.all_eq_true.1 (hwords _ (List.mem_of_getElem? hi))
  | counted hdigits _ hending =>
    intro c hc
    rcases List.mem_append.1 hc with hc | hc
    · exact isPlain_of_isDigit (hdigits c hc)
    · rcases hending with rfl | hending
      · exact absurd hc List.not_mem_nil
      · exact List.all_eq_true.1 (hendings _ hending) c hc

theorem Time.isPlain {time : ClockTime} (h : Time w time) : ∀ c ∈ w, isPlain c := by
  obtain ⟨hdigits, -, -⟩ := h
  intro c hc
  by_cases hcolon : c = ':'
  · rw [hcolon]; rfl
  · refine isPlain_of_isDigit (hdigits c ?_)
    simp only [List.mem_cons, hcolon, false_or] at hc ⊢
    tauto

theorem UnitName.isPlain {unit : TimeUnit} (h : UnitName w unit) : ∀ c ∈ w, isPlain c := by
  rw [← List.all_eq_true]
  cases h with
  | mins => decide
  | minutes => decide
  | hours => decide

/-! ## Lists -/

theorem mapM_eq_ok_iff {ε α β : Type} {f : α → Except ε β} {l : List α} {bs : List β} :
    l.mapM f = .ok bs ↔ List.Forall₂ (fun a b => f a = .ok b) l bs := by
  induction l generalizing bs with
  | nil => simp [pure, Except.pure, eq_comm]
  | cons a l ih =>
    rw [List.mapM_cons, bind_eq_ok_iff, List.forall₂_cons_left_iff]
    constructor
    · rintro ⟨b, hb, h⟩
      obtain ⟨bs', hbs', ⟨⟩⟩ := bind_eq_ok_iff.1 h
      exact ⟨b, bs', hb, ih.1 hbs', rfl⟩
    · rintro ⟨b, bs', hb, hbs', rfl⟩
      exact ⟨b, hb, bind_eq_ok_iff.2 ⟨bs', ih.2 hbs', rfl⟩⟩

/-- A list is read item by item if no item contains a comma. -/
theorem listOf_eq_ok_iff {read : Word → Except Fault Nat} {Item : Word → Nat → Prop}
    (hread : ∀ {w n}, read w = .ok n ↔ Item w n) (hcomma : ∀ {w n}, Item w n → ',' ∉ w)
    {ns : List Nat} : Token.listOf read w = .ok ns ↔ Items Item w ns := by
  simp only [Token.listOf, mapM_eq_ok_iff, hread]
  constructor
  · intro h
    exact ⟨w.splitOn ',', List.splitOn_ne_nil _ _, h, (List.intercalate_splitOn ',').symm⟩
  · rintro ⟨items, hne, h, rfl⟩
    rw [Canonical.enumeration, List.splitOn_intercalate ',' ?_ hne]
    · exact h
    · exact ((List.forall₂_and_left _ _).1 (h.imp fun _ _ hn => ⟨hcomma hn, hn⟩)).1

theorem weekdays_eq_ok_iff {ns : List Nat} :
    Token.listOf Token.weekday w = .ok ns ↔ Items Weekday w ns :=
  listOf_eq_ok_iff weekday_eq_ok_iff fun h hc => absurd (h.isLower _ hc) (by decide)

theorem months_eq_ok_iff {ns : List Nat} : Token.listOf Token.month w = .ok ns ↔ Items Month w ns :=
  listOf_eq_ok_iff month_eq_ok_iff fun h hc => absurd (h.isLower _ hc) (by decide)

theorem ordinals_eq_ok_iff {ns : List Nat} :
    Token.listOf Token.ordinal w = .ok ns ↔ Items Ordinal w ns :=
  listOf_eq_ok_iff ordinal_eq_ok_iff fun h hc => absurd (h.isPlain _ hc) (by decide)

theorem mem_of_mem_intercalate {α : Type} {a c : α} {ls : List (List α)}
    (h : c ∈ [a].intercalate ls) : c = a ∨ ∃ l ∈ ls, c ∈ l := by
  induction ls with
  | nil => exact absurd h List.not_mem_nil
  | cons l ls ih =>
    cases ls with
    | nil =>
      rw [List.intercalate_singleton] at h
      exact .inr ⟨l, List.mem_cons_self, h⟩
    | cons l' ls =>
      rw [List.intercalate_cons_cons, List.append_assoc, List.mem_append, List.mem_append,
        List.mem_singleton] at h
      rcases h with h | h | h
      · exact .inr ⟨l, List.mem_cons_self, h⟩
      · exact .inl h
      · obtain hc | ⟨m, hm, hc⟩ := ih h
        · exact .inl hc
        · exact .inr ⟨m, List.mem_cons_of_mem _ hm, hc⟩

/-- A list is made of the characters of its items, and of commas. -/
theorem Items.chars {Item : Word → Nat → Prop} {P : Char → Prop} {ns : List Nat}
    (hitem : ∀ {w n}, Item w n → ∀ c ∈ w, P c) (h : Items Item w ns) : ∀ c ∈ w, P c ∨ c = ',' := by
  obtain ⟨items, -, h, rfl⟩ := h
  intro c hc
  rcases mem_of_mem_intercalate hc with rfl | ⟨item, hmem, hc⟩
  · exact .inr rfl
  · exact .inl (((List.forall₂_and_left _ _).1 (h.imp fun _ _ hn => ⟨hitem hn, hn⟩)).1 item hmem c hc)

/-- The characters of a word, commas included. -/
def isWritten (w : Word) : Bool := w.all fun c => isPlain c || c == ','

theorem isWritten_of_isPlain (h : ∀ c ∈ w, isPlain c) : isWritten w :=
  List.all_eq_true.2 fun c hc => by rw [h c hc, Bool.true_or]

theorem Items.isWritten {Item : Word → Nat → Prop} {ns : List Nat}
    (hitem : ∀ {w n}, Item w n → ∀ c ∈ w, isPlain c) (h : Items Item w ns) : isWritten w :=
  List.all_eq_true.2 fun c hc => by simpa using h.chars hitem c hc

theorem Number.isWritten (h : Number w n) : isWritten w :=
  isWritten_of_isPlain fun c hc => isPlain_of_isDigit (h.digits c hc)

theorem Months.isWritten {ws : List Word} {ns : List Nat} (h : Months ws ns) :
    ws.all Grammar.isWritten := by
  cases h with
  | all => rfl
  | of h =>
    have hword := h.isWritten fun hm c hc => isPlain_of_isLower (hm.isLower c hc)
    rw [List.all_cons, List.all_cons, hword]
    rfl

/-- Derived words are made of lower-case letters, digits, hyphens, colons and commas. -/
theorem Derives.isWritten {p : Production} {ws : List Word} {value : Except Fault Schedule}
    (h : Derives p ws value) : ws.all Grammar.isWritten := by
  have time {t : Word} {time : ClockTime} (h : Time t time) := isWritten_of_isPlain h.isPlain
  have unit {u : Word} {unit : TimeUnit} (h : UnitName u unit) := isWritten_of_isPlain h.isPlain
  have weekdays {w : Word} {ns : List Nat} (h : Items Weekday w ns) :=
    h.isWritten fun hd c hc => isPlain_of_isLower (hd.isLower c hc)
  have ordinals {o : Word} {ns : List Nat} (h : Items Ordinal o ns) :=
    h.isWritten Ordinal.isPlain
  cases h with
  | everyDay hm ht => simp only [List.all_append, List.all_cons, hm.isWritten, time ht]; decide
  | every hn hu => simp only [List.all_cons, hn.isWritten, unit hu]; decide
  | synchronized hn hu => simp only [List.all_cons, hn.isWritten, unit hu]; decide
  | between hn hu ha hb =>
    simp only [List.all_cons, hn.isWritten, unit hu, time ha, time hb]; decide
  | weekly hd hm ht =>
    simp only [List.all_append, List.all_cons, weekdays hd, hm.isWritten, time ht]; decide
  | daily hm ht => simp only [List.all_append, List.all_cons, hm.isWritten, time ht]; decide
  | nthWeekday ho hd hm ht =>
    simp only [List.all_append, List.all_cons, ordinals ho, weekdays hd, hm.isWritten, time ht]
    decide
  | nthDay ho hm ht =>
    simp only [List.all_append, List.all_cons, ordinals ho, hm.isWritten, time ht]; decide

end Recurrence.Grammar
