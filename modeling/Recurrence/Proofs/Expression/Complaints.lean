import Recurrence.Proofs.Expression.Beginnings
import Recurrence.Proofs.Schedule.Refusals
/-!
# What is said of an expression that is refused

A text that cannot be read is refused for a reason, and what the reason says of the expression is so
(`Schedule.parse_error_truthful`). Either its words do not have the shape that its beginning calls for,
and then no production derives it; or they have, and a word that the reason quotes is not what its
place is for (`Outside`), or the words have values that a check refuses (`Clause.Refuted`).
-/

namespace Recurrence

open Grammar

namespace Grammar

/-! ## Words that are not what their place is for -/

/-- What a place in an expression is for. -/
inductive Category where
  | ordinal
  | weekday
  | month
  | time
  | number
  | unit
  deriving DecidableEq

/-- The items of a word in a place: for some categories the word is a list. -/
def Category.items : Category → Word → List Word
  | ordinal, w | weekday, w | month, w => w.splitOn ','
  | time, w | number, w | unit, w => [w]

def quoting (text : List Char) (complaint : String) : String :=
  "\"" ++ String.ofList text ++ "\"" ++ complaint

/-- The word is not of the category, and what is said of it then. Numbers have two complaints: a word
with other characters than digits, and a number that does not fit into 32 bits. -/
inductive Outside (w : Word) : Category → String → Prop
  | ordinal (h : ∀ n, ¬ Ordinal w n) : Outside w .ordinal (quoting w " isn't ordinal")
  | weekday (h : ∀ n, ¬ Weekday w n) : Outside w .weekday (quoting w " isn't a valid day-of-week")
  | month (h : ∀ n, ¬ Month w n) : Outside w .month (quoting w " isn't a valid month")
  | time (h : ∀ t, ¬ Time w t) : Outside w .time (quoting w " isn't a valid time expression")
  | number (h : ¬ Digits w) : Outside w .number (quoting w " is not a number")
  | large (hne : w ≠ []) (hdigits : Digits w) (h : 4294967295 < Nat.ofDigitChars 10 w 0) :
    Outside w .number (quoting w " is out of range")
  | unit (h : ∀ u, ¬ UnitName w u) :
    Outside w .unit (quoting w " isn't a valid unit (it must be either minutes(mins) or hours)")

variable {w : Word} {fault : Fault}

/-- A reader that has one complaint makes it of the words that it cannot read. -/
theorem elim_refused {α : Type} {o : Option α} {complaint : Fault} {category : Category}
    {P : α → Prop}
    (hread : ∀ {a}, o.elim (.error complaint) .ok = (.ok a : Except Fault α) ↔ P a)
    (houtside : (∀ a, ¬ P a) → Outside w category complaint.reason)
    (h : o.elim (.error complaint) .ok = (.error fault : Except Fault α)) :
    Outside w category fault.reason := by
  cases o with
  | none =>
    cases h
    refine houtside fun a ha => ?_
    cases hread.2 ha
  | some a => cases h

theorem ordinal_refused (h : Token.ordinal w = .error fault) : Outside w .ordinal fault.reason :=
  elim_refused ordinal_eq_ok_iff .ordinal h

theorem weekday_refused (h : Token.weekday w = .error fault) : Outside w .weekday fault.reason :=
  elim_refused weekday_eq_ok_iff .weekday h

theorem month_refused (h : Token.month w = .error fault) : Outside w .month fault.reason :=
  elim_refused month_eq_ok_iff .month h

theorem clockTime_refused (h : Token.clockTime w = .error fault) :
    Outside w .time fault.reason :=
  elim_refused clockTime_eq_ok_iff .time h

theorem unit_refused (h : Token.unit w = .error fault) : Outside w .unit fault.reason :=
  elim_refused unit_eq_ok_iff .unit h

theorem length_refused (hne : w ≠ []) (h : Token.length w = .error fault) :
    Outside w .number fault.reason := by
  unfold Token.length at h
  split at h
  · next hno =>
    cases h
    exact .number fun hdigits => hno (List.all_eq_true.2 hdigits)
  · next hall =>
    rw [not_not, List.all_eq_true] at hall
    split at h
    · next hlarge =>
      cases h
      exact .large hne hall (hlarge.resolve_left hne)
    · cases h

/-! ## Lists -/

theorem exists_of_mapM_eq_error {ε α β : Type} {f : α → Except ε β} {l : List α} {e : ε}
    (h : l.mapM f = .error e) : ∃ a ∈ l, f a = .error e := by
  induction l with
  | nil => cases h
  | cons a l ih =>
    rw [List.mapM_cons, bind_eq_error_iff] at h
    rcases h with h | ⟨b, -, h⟩
    · exact ⟨a, List.mem_cons_self, h⟩
    · rcases bind_eq_error_iff.1 h with h | ⟨bs, -, h⟩
      · obtain ⟨a', ha', h⟩ := ih h
        exact ⟨a', List.mem_cons_of_mem a ha', h⟩
      · cases h

/-- A list is refused for one of its items. -/
theorem listOf_refused {read : Word → Except Fault Nat} {category : Category}
    (hread : ∀ {w}, read w = .error fault → Outside w category fault.reason)
    (h : Token.listOf read w = .error fault) :
    ∃ item ∈ w.splitOn ',', Outside item category fault.reason := by
  obtain ⟨item, hitem, h⟩ := exists_of_mapM_eq_error h
  exact ⟨item, hitem, hread h⟩

/-! ## Values of lists -/

theorem Items.ne_nil {Item : Word → Nat → Prop} {ns : List Nat} (h : Items Item w ns) : ns ≠ [] := by
  obtain ⟨items, hne, h, -⟩ := h
  rintro rfl
  cases h
  exact hne rfl

theorem Items.listsSet {Item : Word → Nat → Prop} {lo hi : Nat} {ns : List Nat}
    (hbounds : ∀ {w n}, Item w n → lo ≤ n ∧ n ≤ hi) (h : Items Item w ns) : ListsSet lo hi ns := by
  refine ⟨h.ne_nil, ?_⟩
  obtain ⟨items, -, h, -⟩ := h
  exact ((List.forall₂_and_left _ _).1 (h.flip.imp fun _ _ hn => ⟨hbounds hn, hn⟩)).1

theorem weekdays_listsSet {ns : List Nat} (h : Items Weekday w ns) : ListsSet 0 6 ns := by
  refine h.listsSet fun {w n} hn => ?_
  obtain ⟨name, hname, -⟩ := hn
  have hlt : n < weekdayNames.length := (List.getElem?_eq_some_iff.1 hname).1
  exact ⟨Nat.zero_le n, Nat.le_of_lt_succ hlt⟩

theorem months_listsSet {ws : List Word} {ns : List Nat} (h : Months ws ns) : ListsSet 1 12 ns := by
  cases h with
  | all => exact ⟨DateFilter.allMonths.nonempty, DateFilter.allMonths.within⟩
  | of h =>
    refine h.listsSet fun {w n} hn => ?_
    obtain ⟨i, ⟨name, hname, -⟩, rfl⟩ := hn
    have hlt : i < monthNames.length := (List.getElem?_eq_some_iff.1 hname).1
    exact ⟨Nat.le_add_left 1 i, hlt⟩

end Grammar

namespace Clause

variable {c : Clause}

/-! ## Words in their places -/

def patternTimes : PatternClause → List Word
  | .free => []
  | .synchronized => []
  | .between start stop => [start, stop]

/-- The words in the places for a category. -/
def places : Clause → Category → List Word
  | everyDay months _, .month => months.toList
  | everyDay _ time, .time => [time]
  | interval length _ _, .number => [length]
  | interval _ unit _, .unit => [unit]
  | interval _ _ pattern, .time => patternTimes pattern
  | calendar ordinals _ _ _, .ordinal => if ordinals = "every".toList then [] else [ordinals]
  | calendar _ weekdays _ _, .weekday => weekdays.toList
  | calendar _ _ months _, .month => months.toList
  | calendar _ _ _ time, .time => [time]
  | _, _ => []

/-- The words in the places for a category, or their items. -/
def tokens (c : Clause) (category : Category) : List Word :=
  (c.places category).flatMap category.items

theorem subset_monthWords (m : Option Word) : m.toList ⊆ monthWords m := by
  cases m with
  | none => exact List.nil_subset _
  | some list => exact List.subset_cons_self _ _

theorem patternTimes_subset (pattern : PatternClause) :
    patternTimes pattern ⊆ patternWords pattern := by
  cases pattern with
  | free => exact List.nil_subset _
  | synchronized => exact List.nil_subset _
  | between start stop => simp [patternTimes, patternWords]

theorem places_subset (c : Clause) (category : Category) : c.places category ⊆ c.words := by
  cases c with
  | everyDay m t =>
    have hm := subset_monthWords m
    cases category <;> grind [places, words]
  | interval n u pattern =>
    have hp := patternTimes_subset pattern
    cases category <;> grind [places, words]
  | calendar o d m t =>
    have hm := subset_monthWords m
    cases category <;> grind [places, words]

theorem mem_items {w token : Word} {category : Category} (h : token ∈ category.items w) :
    token = w ∨ token ∈ w.splitOn ',' := by
  unfold Category.items at h
  split at h
  · exact .inr h
  · exact .inr h
  · exact .inr h
  · exact .inl (List.mem_singleton.1 h)
  · exact .inl (List.mem_singleton.1 h)
  · exact .inl (List.mem_singleton.1 h)

/-- A word or an item of one is not what its place is for, and this is said of it. -/
def Misread (c : Clause) (reason : String) : Prop :=
  ∃ category, ∃ token ∈ c.tokens category, Outside token category reason

/-! ## Values that a check refuses -/

def stepText (length : Nat) (unit : TimeUnit) : String :=
  "interval(" ++ String.ofList (Text.decimal length) ++ " " ++ String.ofList unit.text ++ ")"

def listText (numbers : List Nat) : String :=
  ", ".intercalate (numbers.map fun n => String.ofList (Text.decimal n))

/-- The words of a clause have values that a check refuses, and what is said of them then. -/
inductive Refuted : Clause → String → Prop
  /-- The window starts after it stops. -/
  | reversed {n u a b : Word} {start stop : ClockTime} (hstart : Time a start)
    (hstop : Time b stop) (h : stop < start) :
    Refuted (.interval n u (.between a b))
      ("start(" ++ String.ofList start.text ++ ") must be <= end(" ++ String.ofList stop.text ++ ")")
  | zero {n u : Word} {pattern : PatternClause} (hlength : Number n 0) :
    Refuted (.interval n u pattern) "length(0) must be > 0"
  /-- The step takes more than 366 days. -/
  | long {n u : Word} {pattern : PatternClause} {length : Nat} {unit : TimeUnit}
    (hlength : Number n length) (hunit : UnitName u unit)
    (h : 366 * 86400 < length * unit.seconds) :
    Refuted (.interval n u pattern) (stepText length unit ++ " must not exceed 366 days")
  /-- The steps do not fill a day. -/
  | uneven {n u : Word} {length : Nat} {unit : TimeUnit} (hlength : Number n length)
    (hunit : UnitName u unit) (h : 86400 % (length * unit.seconds) ≠ 0) :
    Refuted (.interval n u .synchronized) (stepText length unit ++ " doesn't divide 24h evenly")
  /-- With weekdays, ordinals are weeks of the month. -/
  | weeks {o w t : Word} {m : Option Word} {weeks outside : List Nat}
    (hweeks : Items Ordinal o weeks) (h : ListsOutside 1 5 weeks outside) :
    Refuted (.calendar o (some w) m t) ("invalid week index(es) [" ++ listText outside ++ "]")
  /-- Without weekdays, they are days of the month. -/
  | days {o t : Word} {m : Option Word} {days outside : List Nat} (hdays : Items Ordinal o days)
    (h : ListsOutside 1 31 days outside) :
    Refuted (.calendar o none m t) ("invalid day(s) of month [" ++ listText outside ++ "]")
  /-- No date has one of the days and one of the months. The text quoted is the canonical one. -/
  | never {o t : Word} {m : Option Word} {days months : List Nat} {time : ClockTime}
    {d : Selection 1 31} {m' : Selection 1 12} (hdays : Items Ordinal o days)
    (hmonths : Months (monthWords m) months) (htime : Time t time) (hd : ∀ n, n ∈ d ↔ n ∈ days)
    (hm : ∀ n, n ∈ m' ↔ n ∈ months)
    (h : ∀ date : Date, ¬ (date.day ∈ days ∧ date.month ∈ months)) :
    Refuted (.calendar o none m t)
      (quoting (Canonical.sentence (Canonical.calendarWords (.monthly d m') time)) " never occurs")

/-! ## Clauses that give no schedule -/

variable {fault : Fault} {m : Option Word} {o t : Word}

theorem misread_of_place {w token : Word} {category : Category} {reason : String}
    (hw : w ∈ c.places category) (htoken : token ∈ category.items w)
    (h : Outside token category reason) : c.Misread reason :=
  ⟨category, token, List.mem_flatMap.2 ⟨w, hw, htoken⟩, h⟩

theorem ordinalsOf_refused (h : ordinalsOf o = .error fault) :
    o ≠ "every".toList ∧ ∃ item ∈ o.splitOn ',', Outside item .ordinal fault.reason := by
  unfold ordinalsOf at h
  split at h
  · cases h
  · next hevery =>
    refine ⟨hevery, ?_⟩
    cases hlist : Token.listOf Token.ordinal o with
    | error e =>
      rw [hlist] at h
      cases h
      exact listOf_refused ordinal_refused hlist
    | ok ns =>
      rw [hlist] at h
      cases h

theorem monthsOf_refused (h : monthsOf m = .error fault) :
    ∃ w ∈ m.toList, ∃ item ∈ w.splitOn ',', Outside item .month fault.reason := by
  cases m with
  | none => cases h
  | some list => exact ⟨list, List.mem_singleton_self list, listOf_refused month_refused h⟩

theorem patternOf_refused {pattern : PatternClause} (h : patternOf pattern = .error fault) :
    (∃ w ∈ patternTimes pattern, Outside w .time fault.reason) ∨
    ∃ a b start stop, pattern = .between a b ∧ Time a start ∧ Time b stop ∧ stop < start ∧
      fault = .windowReversed start stop := by
  cases pattern with
  | free => cases h
  | synchronized => cases h
  | between a b =>
    simp only [patternOf, bind_eq_error_iff] at h
    rcases h with h | ⟨start, ha, h | ⟨stop, hb, h⟩⟩
    · exact .inl ⟨a, List.mem_cons_self, clockTime_refused h⟩
    · exact .inl ⟨b, List.mem_cons_of_mem a List.mem_cons_self, clockTime_refused h⟩
    · obtain ⟨hlt, rfl⟩ := Pattern.within_refused h
      exact .inr ⟨a, b, start, stop, rfl, clockTime_eq_ok_iff.1 ha, clockTime_eq_ok_iff.1 hb, hlt, rfl⟩

theorem eq_synchronized_of_patternOf {pattern : PatternClause}
    (h : patternOf pattern = .ok .synchronized) : pattern = .synchronized := by
  cases pattern with
  | free => cases h
  | synchronized => rfl
  | between a b =>
    simp only [patternOf, bind_eq_ok_iff, Pattern.within] at h
    obtain ⟨start, -, stop, -, h⟩ := h
    split at h
    · cases h
    · cases h

theorem everyDay_refused (h : (everyDay m t).schedule = .error fault) :
    (everyDay m t).Misread fault.reason := by
  simp only [schedule, bind_eq_error_iff] at h
  rcases h with h | ⟨months, hm, h | ⟨time, ht, h⟩⟩
  · obtain ⟨w, hw, item, hitem, hout⟩ := monthsOf_refused h
    exact misread_of_place hw hitem hout
  · exact misread_of_place (List.mem_singleton_self t) (List.mem_singleton_self t) (clockTime_refused h)
  · obtain ⟨s, hs⟩ := Schedule.dailyIn_ok time.timeOfDay (months_listsSet (monthsOf_eq_ok_iff.1 hm))
    rw [hs] at h
    cases h

theorem interval_refused {n u : Word} {pattern : PatternClause} (hne : n ≠ [])
    (h : (interval n u pattern).schedule = .error fault) :
    (interval n u pattern).Misread fault.reason ∨ (interval n u pattern).Refuted fault.reason := by
  simp only [schedule, bind_eq_error_iff] at h
  rcases h with h | ⟨p, hp, h | ⟨length, hn, h | ⟨unit, hu, h⟩⟩⟩
  · rcases patternOf_refused h with ⟨w, hw, hout⟩ | ⟨a, b, start, stop, rfl, ha, hb, hlt, rfl⟩
    · exact .inl (misread_of_place hw (List.mem_singleton_self w) hout)
    · exact .inr (.reversed ha hb hlt)
  · exact .inl (misread_of_place (List.mem_singleton_self n) (List.mem_singleton_self n)
      (length_refused hne h))
  · exact .inl (misread_of_place (List.mem_singleton_self u) (List.mem_singleton_self u) (unit_refused h))
  · rw [length_eq_ok_iff] at hn
    rw [unit_eq_ok_iff] at hu
    rcases h with h | ⟨r, -, h⟩
    · rcases IntervalRule.of_refused h with ⟨rfl, rfl⟩ | ⟨hlong, rfl⟩ | ⟨rfl, huneven, rfl⟩
      · exact .inr (.zero hn)
      · exact .inr (.long hn hu hlong)
      · obtain rfl := eq_synchronized_of_patternOf hp
        exact .inr (.uneven hn hu huneven)
    · cases h

theorem calendar_refused {d : Option Word} (h : (calendar o d m t).schedule = .error fault) :
    (calendar o d m t).Misread fault.reason ∨ (calendar o d m t).Refuted fault.reason := by
  simp only [schedule, bind_eq_error_iff] at h
  rcases h with h | ⟨ordinals, ho, h | ⟨months, hm, h | ⟨time, ht, h⟩⟩⟩
  · obtain ⟨hevery, item, hitem, hout⟩ := ordinalsOf_refused h
    have hplace : o ∈ (calendar o d m t).places .ordinal := by
      rw [places, if_neg hevery]
      exact List.mem_singleton_self o
    exact .inl (misread_of_place hplace hitem hout)
  · obtain ⟨w, hw, item, hitem, hout⟩ := monthsOf_refused h
    exact .inl (misread_of_place hw hitem hout)
  · exact .inl (misread_of_place (List.mem_singleton_self t) (List.mem_singleton_self t)
      (clockTime_refused h))
  · rw [monthsOf_eq_ok_iff] at hm
    rw [clockTime_eq_ok_iff] at ht
    cases d with
    | some list =>
      simp only [bind_eq_error_iff] at h
      rcases h with h | ⟨weekdays, hd, h⟩
      · obtain ⟨item, hitem, hout⟩ := listOf_refused weekday_refused h
        exact .inl (misread_of_place (List.mem_singleton_self list) hitem hout)
      · have hweekdays := weekdays_listsSet (weekdays_eq_ok_iff.1 hd)
        rcases ordinalsOf_eq_ok_iff.1 ho with ⟨-, rfl⟩ | ⟨weeks, hweeks, rfl⟩
        · obtain ⟨s, hs⟩ := Schedule.nthWeekday_ok time.timeOfDay
            ⟨DateFilter.allWeeks.nonempty, DateFilter.allWeeks.within⟩ hweekdays (months_listsSet hm)
          rw [Option.getD_none, hs] at h
          cases h
        · obtain ⟨outside, hout, rfl⟩ :=
            Schedule.nthWeekday_refused hweeks.ne_nil hweekdays (months_listsSet hm) h
          exact .inr (.weeks hweeks hout)
    | none =>
      simp only at h
      rcases ordinalsOf_eq_ok_iff.1 ho with ⟨-, rfl⟩ | ⟨days, hdays, rfl⟩
      · obtain ⟨s, hs⟩ := Schedule.dailyIn_ok time.timeOfDay (months_listsSet hm)
        rw [Option.getD_none, ← Schedule.dailyIn_eq, hs] at h
        cases h
      · rcases Schedule.nthDay_refused hdays.ne_nil (months_listsSet hm) h with
          ⟨outside, hout, rfl⟩ | ⟨d, m', hd, hm', hnever, rfl⟩
        · exact .inr (.days hdays hout)
        · rw [ClockTime.clockTime_timeOfDay]
          exact .inr (.never hdays hm ht hd hm' hnever)

/-- A clause that gives no schedule has a word that is not what its place is for, or values that a
check refuses. -/
theorem refused (hnumeric : ∀ {n u pattern}, c = .interval n u pattern → n ≠ [])
    (h : c.schedule = .error fault) : c.Misread fault.reason ∨ c.Refuted fault.reason := by
  cases c with
  | everyDay m t => exact .inl (everyDay_refused h)
  | interval n u pattern => exact interval_refused (hnumeric rfl) h
  | calendar o d m t => exact calendar_refused h

end Clause

/-! ## Expressions that are refused -/

namespace Grammar

variable {e : List Char} {c : Clause}

/-- A word of the expression, or an item of one. -/
def IsToken (e : List Char) (token : Word) : Prop :=
  ∃ w ∈ e.splitOn ' ', token = w ∨ token ∈ w.splitOn ','

/-- What is said of an expression when it is refused, and is so. -/
inductive Truthful (e : List Char) : String → Prop
  /-- The words do not have the shape that the beginning calls for, and no production derives them. -/
  | malformed {p : Production} (hp : Selects e p)
    (hshape : ∀ c : Clause, c.production = p → c.words ≠ e.splitOn ' ')
    (hunread : ∀ q value, ¬ Reads q e value) :
    Truthful e (quoting e " is not a valid schedule expression")
  /-- A word stands where words of another category belong. -/
  | misread {c : Clause} {category : Category} {token : Word} {reason : String}
    (hp : Selects e c.production) (hwords : c.words = e.splitOn ' ') (htoken : IsToken e token)
    (hplace : token ∈ c.tokens category) (houtside : Outside token category reason) :
    Truthful e reason
  /-- A check refuses values that are written in the expression. -/
  | refuted {c : Clause} {reason : String} (hp : Selects e c.production)
    (hwords : c.words = e.splitOn ' ') (hrefuted : c.Refuted reason) : Truthful e reason

theorem isToken_of_mem_tokens {category : Category} {token : Word} (hwords : c.words = e.splitOn ' ')
    (h : token ∈ c.tokens category) : IsToken e token := by
  obtain ⟨w, hw, htoken⟩ := List.mem_flatMap.1 h
  exact ⟨w, hwords ▸ c.places_subset category hw, Clause.mem_items htoken⟩

/-- The number of an interval is not empty, since it begins with a digit. -/
theorem ne_nil_of_selects {n u : Word} {pattern : PatternClause} (h : Selects e .interval)
    (hwords : (Clause.interval n u pattern).words = e.splitOn ' ') : n ≠ [] := by
  cases h with
  | interval h =>
    obtain ⟨word, rest, hsplit, hnumeric⟩ := beginsInterval_iff.1 h
    obtain rfl : n = word := (List.cons.inj (List.cons.inj (hwords.trans hsplit)).2).1
    rintro rfl
    cases hnumeric

end Grammar

/-- If a text is refused, then what the reason says is true of its expression, lower-cased and with its
shorthand written out. -/
theorem Schedule.parse_error_truthful {text : List Char} {fault : Fault}
    (h : Schedule.parse text = .error fault) :
    ∃ e, (∀ e', Expands (Text.lowercase text) e' ↔ e' = e) ∧ Truthful e fault.reason := by
  refine ⟨Expression.normalize text, fun _ => expands_iff, ?_⟩
  rw [Schedule.parse] at h
  generalize Expression.normalize text = e at h ⊢
  obtain ⟨p, hp⟩ := exists_selects e
  cases hclause : Clause.ofText? e with
  | some c =>
    simp only [hclause] at h
    obtain ⟨rfl, hwords⟩ := (Clause.ofText?_eq_some_iff hp).1 hclause
    have hnumeric {n u pattern} (hc : c = .interval n u pattern) : n ≠ [] := by
      subst hc
      exact ne_nil_of_selects hp hwords
    rcases Clause.refused hnumeric h with ⟨category, token, hplace, hout⟩ | hrefuted
    · exact .misread hp hwords (isToken_of_mem_tokens hwords hplace) hplace hout
    · exact .refuted hp hwords hrefuted
  | none =>
    simp only [hclause] at h
    cases h
    refine .malformed hp (fun c hc hwords => ?_) (fun q value hreads => ?_)
    · have hsome := (Clause.ofText?_eq_some_iff hp).2 ⟨hc, hwords⟩
      rw [hclause] at hsome
      cases hsome
    · obtain ⟨c, hsome, -⟩ := exists_of_reads hreads
      rw [hclause] at hsome
      cases hsome

/-- Every hour from the afternoon to the morning of a day. -/
theorem Schedule.reversedWindow_refused : ∃ fault,
    Schedule.parse "Every hour from 14:00 to 10:00".toList = .error fault ∧
    fault.reason = "start(14:00) must be <= end(10:00)" ∧
    ∃ e, (∀ e', Expands (Text.lowercase "Every hour from 14:00 to 10:00".toList) e' ↔ e' = e) ∧
      Truthful e fault.reason :=
  ⟨_, rfl, by decide, Schedule.parse_error_truthful rfl⟩

end Recurrence
