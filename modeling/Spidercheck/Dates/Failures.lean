import Spidercheck.Dates.Parsing
import Spidercheck.Regex.Reading

/-! Which exceptions leave the two parsers. A pattern that matches is final: what
its groups hold is then read with `int`, looked up among the names of the months
and handed to the constructors of `datetime`. -/
namespace Spidercheck

open Text Regex Pattern

variable {u : Unicode} {texto : Str} {captures : Captures Char Field}

/-- What a match holds: three texts of a date, and those of a time if the pattern has them. -/
structure Fields where
  day : Str
  month : Str
  year : Str
  time : Option (Str × Str × Str)
  deriving DecidableEq, Repr

structure Holds (captures : Captures Char Field) (f : Fields) : Prop where
  day : captures.lookup .day = some f.day
  month : captures.lookup .month = some f.month
  year : captures.lookup .year = some f.year
  hour : captures.lookup .hour = f.time.map (·.1)
  minute : captures.lookup .minute = f.time.map (·.2.1)
  second : captures.lookup .second = f.time.map (·.2.2)

/-- The fields that are read from a text: those of the first pattern that matches. -/
def fieldsOf (u : Unicode) (texto : Str) : Option Fields := do
  let captures ← (parsers u).findSome? (·.match? (strip texto))
  return {
    day := ← captures.lookup .day
    month := ← captures.lookup .month
    year := ← captures.lookup .year
    time := do return (← captures.lookup .hour, ← captures.lookup .minute, ← captures.lookup .second) }

def groupNames : List (List Field) := [
  [.day, .month, .year], [.year, .month, .day],
  [.day, .month, .year, .hour, .minute, .second], [.year, .month, .day, .hour, .minute, .second]]

theorem names_parsers (u : Unicode) {pattern : DatePattern} (h : pattern ∈ parsers u) :
    pattern.settled = true ∧ pattern.names ∈ groupNames := by
  have hAll : (parsers u).all (fun p => p.settled && groupNames.contains p.names) = true := by rfl
  simpa using List.all_eq_true.mp hAll pattern h

/-- Each match has the three groups of a date, and all of those of a time or none. -/
theorem names_of_match {pattern : DatePattern} (h : pattern ∈ parsers u)
    (hMatch : pattern.match? texto = some captures) : captures.map (·.1) ∈ groupNames := by
  obtain ⟨hSettled, hNames⟩ := names_parsers u h
  obtain ⟨w, t, gs, -, hReads, rfl⟩ := match?_sound hMatch
  have hSame : (capturesOf gs).map (·.1) = pattern.names := by
    rw [← hReads.names hSettled, capturesOf, List.map_map]
    rfl
  rwa [hSame]

/-- What a match has captured are the fields. -/
theorem exists_holds (h : captures.map (·.1) ∈ groupNames) : ∃ f, Holds captures f := by
  simp only [groupNames, List.mem_cons, List.not_mem_nil, or_false, List.map_eq_cons_iff,
    List.map_eq_nil_iff, Prod.exists] at h
  rcases h with h | h | h | h
  · obtain ⟨_, day, _, rfl, rfl, _, month, _, rfl, rfl, _, year, _, rfl, rfl, rfl⟩ := h
    exact ⟨⟨day, month, year, none⟩, rfl, rfl, rfl, rfl, rfl, rfl⟩
  · obtain ⟨_, year, _, rfl, rfl, _, month, _, rfl, rfl, _, day, _, rfl, rfl, rfl⟩ := h
    exact ⟨⟨day, month, year, none⟩, rfl, rfl, rfl, rfl, rfl, rfl⟩
  · obtain ⟨_, day, _, rfl, rfl, _, month, _, rfl, rfl, _, year, _, rfl, rfl, _, hour, _, rfl, rfl,
      _, minute, _, rfl, rfl, _, second, _, rfl, rfl, rfl⟩ := h
    exact ⟨⟨day, month, year, some (hour, minute, second)⟩, rfl, rfl, rfl, rfl, rfl, rfl⟩
  · obtain ⟨_, year, _, rfl, rfl, _, month, _, rfl, rfl, _, day, _, rfl, rfl, _, hour, _, rfl, rfl,
      _, minute, _, rfl, rfl, _, second, _, rfl, rfl, rfl⟩ := h
    exact ⟨⟨day, month, year, some (hour, minute, second)⟩, rfl, rfl, rfl, rfl, rfl, rfl⟩

theorem Holds.fieldsOf {f : Fields} (h : Holds captures f)
    (hFirst : (parsers u).findSome? (·.match? (strip texto)) = some captures) : fieldsOf u texto = some f := by
  obtain ⟨day, month, year, time⟩ := f
  rw [Spidercheck.fieldsOf, hFirst]
  cases time <;> simp [h.day, h.month, h.year, h.hour, h.minute, h.second]

/-- Where a pattern matches there are fields. -/
theorem holds_of_first (hFirst : (parsers u).findSome? (·.match? (strip texto)) = some captures) :
    ∃ f, Holds captures f ∧ fieldsOf u texto = some f := by
  obtain ⟨pattern, hMem, hMatch⟩ := List.exists_of_findSome?_eq_some hFirst
  obtain ⟨f, hHolds⟩ := exists_holds (names_of_match hMem hMatch)
  exact ⟨f, hHolds, hHolds.fieldsOf hFirst⟩

section Errors
variable {α β : Type} {r : Except PyError α} {k : α → Except PyError β} {n m d : Nat}

def OnlyValueErrors (r : Except PyError α) : Prop := ∀ e, r = .error e → e.kind = .valueError

@[simp] theorem onlyValueErrors_ok (value : α) : OnlyValueErrors (.ok value) := by
  intro e h
  cases h

@[simp] theorem onlyValueErrors_error {e : PyError} :
    OnlyValueErrors (.error e : Except PyError α) ↔ e.kind = .valueError := by
  constructor
  · intro h
    exact h e rfl
  · intro h e' he
    rwa [← Except.error.inj he]

/-- A sequence fails in its first part, or behind a value that this returned. -/
theorem onlyValueErrors_bind :
    OnlyValueErrors (r >>= k) ↔ OnlyValueErrors r ∧ ∀ value, r = .ok value → OnlyValueErrors (k value) := by
  cases r with
  | error e => simp
  | ok value => simp

theorem onlyValueErrors_toInteger (u : Unicode) (s : Str) : OnlyValueErrors (toInteger u s) := by
  unfold toInteger
  simp only
  split
  · simp [valueError]
  · split
    · simp
    · simp [valueError]

/-- A name that is looked up in vain is a `KeyError`. -/
theorem onlyValueErrors_monthOf (name : Str) : OnlyValueErrors (monthOf name) ↔ monthNamed name ≠ none := by
  unfold monthOf
  cases monthNamed name <;> simp

/-- An argument that does not fit into a C `int` is an `OverflowError`. -/
theorem onlyValueErrors_toCInt_bind {k : Nat → Except PyError β} :
    OnlyValueErrors (toCInt n >>= k) ↔ n < 2 ^ 31 ∧ OnlyValueErrors (k n) := by
  unfold toCInt
  split
  · next hSmall => exact (and_iff_right hSmall).symm
  · next hLarge =>
    have hOther (text : Str) : ¬ OnlyValueErrors (.error (overflowError text) : Except PyError β) := by
      simp [overflowError]
    rw [iff_false_right fun h => hLarge h.1]
    split
    · exact hOther _
    · exact hOther _

/-- A day that its month does not have is a `ValueError`. -/
theorem onlyValueErrors_check (year month day : Nat) : OnlyValueErrors (Date.check year month day) := by
  unfold Date.check
  repeat' split
  all_goals simp [valueError]

/-- Making a date raises nothing else when its numbers are C integers. -/
theorem onlyValueErrors_date {year month day : Nat} : OnlyValueErrors (Date.make year month day) ↔
    year < 2 ^ 31 ∧ month < 2 ^ 31 ∧ day < 2 ^ 31 := by
  simp only [Date.make, onlyValueErrors_toCInt_bind, onlyValueErrors_check, and_true]

/-- The same for a date and time. -/
theorem onlyValueErrors_datetime {year month day hour minute second : Nat} :
    OnlyValueErrors (DateTime.make year month day hour minute second) ↔
      (year < 2 ^ 31 ∧ month < 2 ^ 31 ∧ day < 2 ^ 31) ∧ hour < 2 ^ 31 ∧ minute < 2 ^ 31 ∧ second < 2 ^ 31 := by
  simp only [DateTime.make, onlyValueErrors_toCInt_bind, and_assoc]
  refine and_congr_right fun _ => and_congr_right fun _ => and_congr_right fun _ => and_congr_right fun _ =>
    and_congr_right fun _ => ?_
  rw [and_iff_left]
  refine onlyValueErrors_bind.mpr ⟨onlyValueErrors_check year month day, fun date _ => ?_⟩
  repeat' split
  all_goals simp [valueError]

end Errors

section Reading
variable {f : Fields} {year month day hour minute second : Nat}

/-- `int` and the names of the months accept the texts of the date. -/
structure Fields.ReadsDate (u : Unicode) (f : Fields) (year month day : Nat) : Prop where
  day : toInteger u f.day = .ok day
  month : ReadsMonth u f.month month
  year : ∃ written, toInteger u f.year = .ok written ∧
    (if written ≤ 100 then written + 2000 else written) = year

def Fields.ReadsTime (u : Unicode) (f : Fields) (hour minute second : Nat) : Prop :=
  ∃ h m s, f.time = some (h, m, s) ∧ toInteger u h = .ok hour ∧ toInteger u m = .ok minute ∧
    toInteger u s = .ok second

/-- A month that is no number has a name in the table, unless the day was refused before. -/
def Fields.MonthKnown (u : Unicode) (f : Fields) : Prop :=
  ∀ day, toInteger u f.day = .ok day → u.allDigits f.month = false → monthNamed (u.upper f.month) ≠ none

def readMonth (u : Unicode) (month : Str) : Except PyError Nat :=
  if u.allDigits month then toInteger u month else monthOf (u.upper month)

/-- A month that is no number has to be in the table. -/
theorem onlyValueErrors_readMonth {month : Str} : OnlyValueErrors (readMonth u month) ↔
    (u.allDigits month = false → monthNamed (u.upper month) ≠ none) := by
  unfold readMonth
  cases hDigits : u.allDigits month with
  | true => simp [onlyValueErrors_toInteger]
  | false => simp [onlyValueErrors_monthOf]

/-- The texts of the date are read in the order day, month, year. -/
theorem toYearMonthDay_of_holds (h : Holds captures f) : toYearMonthDay u captures = (do
    let day ← toInteger u f.day
    let month ← readMonth u f.month
    let year ← toInteger u f.year
    return (if year ≤ 100 then year + 2000 else year, month, day)) := by
  simp only [toYearMonthDay, groupOf, h.day, h.month, h.year, ok_bind, readMonth]
  split <;> rfl

theorem toYearMonthDay_eq_ok (h : Holds captures f) :
    toYearMonthDay u captures = .ok (year, month, day) ↔ f.ReadsDate u year month day := by
  simp only [toYearMonthDay_of_holds h, except_bind_eq_ok, pure_eq_ok]
  constructor
  · intro ⟨day, hDay, month, hMonth, written, hYear, hSame⟩
    obtain ⟨hFull, rfl, rfl⟩ : _ ∧ _ ∧ _ := by simpa using hSame
    exact ⟨hDay, hMonth, written, hYear, hFull⟩
  · intro ⟨hDay, hMonth, written, hYear, hFull⟩
    exact ⟨day, hDay, month, hMonth, written, hYear, by rw [hFull]⟩

theorem onlyValueErrors_toYearMonthDay (h : Holds captures f) :
    OnlyValueErrors (toYearMonthDay u captures) ↔ f.MonthKnown u := by
  have hYear (day month : Nat) : OnlyValueErrors (toInteger u f.year >>= fun year =>
      (pure (if year ≤ 100 then year + 2000 else year, month, day) : Except PyError (Nat × Nat × Nat))) :=
    onlyValueErrors_bind.mpr ⟨onlyValueErrors_toInteger u f.year, fun _ _ => onlyValueErrors_ok _⟩
  rw [toYearMonthDay_of_holds h, onlyValueErrors_bind, and_iff_right (onlyValueErrors_toInteger u f.day)]
  refine forall₂_congr fun day _ => ?_
  rw [onlyValueErrors_bind, and_iff_left fun month _ => hYear day month, onlyValueErrors_readMonth]

/-- The texts of the time are read, or there are none and the time is midnight. -/
theorem toHourMinuteSecond_of_holds (h : Holds captures f) : toHourMinuteSecond u captures =
    match f.time with
    | none => .ok (0, 0, 0)
    | some (hour, minute, second) => do
        return (← toInteger u hour, ← toInteger u minute, ← toInteger u second) := by
  rw [toHourMinuteSecond, h.hour, h.minute, h.second]
  cases f.time <;> rfl

theorem toHourMinuteSecond_eq_ok (h : Holds captures f) :
    toHourMinuteSecond u captures = .ok (hour, minute, second) ↔
      (f.time = none ∧ hour = 0 ∧ minute = 0 ∧ second = 0) ∨ f.ReadsTime u hour minute second := by
  rw [toHourMinuteSecond_of_holds h, Fields.ReadsTime]
  cases f.time with
  | none => simp [eq_comm]
  | some time =>
      obtain ⟨h, m, s⟩ := time
      simp only [except_bind_eq_ok, pure_eq_ok, Except.ok.injEq, Prod.mk.injEq]
      constructor
      · intro ⟨hour, hHour, minute, hMinute, second, hSecond, hSameHour, hSameMinute, hSameSecond⟩
        subst hSameHour hSameMinute hSameSecond
        exact .inr ⟨h, m, s, rfl, hHour, hMinute, hSecond⟩
      · intro hCases
        obtain ⟨hNone, -⟩ | ⟨h', m', s', hTime, hHour, hMinute, hSecond⟩ := hCases
        · cases hNone
        · obtain ⟨rfl, rfl, rfl⟩ : h = h' ∧ m = m' ∧ s = s' := by simpa using hTime
          exact ⟨hour, hHour, minute, hMinute, second, hSecond, rfl, rfl, rfl⟩

theorem onlyValueErrors_toHourMinuteSecond (h : Holds captures f) :
    OnlyValueErrors (toHourMinuteSecond u captures) := by
  rw [toHourMinuteSecond_of_holds h]
  cases f.time with
  | none => exact onlyValueErrors_ok _
  | some time =>
      refine onlyValueErrors_bind.mpr ⟨onlyValueErrors_toInteger u _, fun _ _ => ?_⟩
      refine onlyValueErrors_bind.mpr ⟨onlyValueErrors_toInteger u _, fun _ _ => ?_⟩
      exact onlyValueErrors_bind.mpr ⟨onlyValueErrors_toInteger u _, fun _ _ => onlyValueErrors_ok _⟩

end Reading

/-- Nothing in the fields is a `KeyError` or an `OverflowError`. -/
structure Fields.Safe (u : Unicode) (f : Fields) : Prop where
  month : f.MonthKnown u
  date : ∀ year month day, f.ReadsDate u year month day → year < 2 ^ 31 ∧ month < 2 ^ 31 ∧ day < 2 ^ 31
  time : ∀ year month day hour minute second, f.ReadsDate u year month day →
    f.ReadsTime u hour minute second → hour < 2 ^ 31 ∧ minute < 2 ^ 31 ∧ second < 2 ^ 31

/-- `None` for a blank text, a value, or a `ValueError`. -/
def Answers {α : Type} (texto : Str) (result : Except PyError (Option α)) : Prop :=
  (result = .ok none → strip texto = []) ∧ OnlyValueErrors result

section Answers
variable {f : Fields}

theorem bind_some_ne_none {α β : Type} {r : Except PyError α} {k : α → Except PyError β} :
    (r >>= fun a => k a >>= fun b => (pure (some b) : Except PyError (Option β))) ≠ .ok none := by
  intro h
  obtain ⟨a, -, h⟩ := (except_bind_eq_ok _).mp h
  obtain ⟨b, -, h⟩ := (except_bind_eq_ok _).mp h
  cases h

/-- A value that is made of what was read before it. -/
theorem onlyValueErrors_bind_some {α β : Type} {r : Except PyError α} {k : α → Except PyError β} :
    OnlyValueErrors (r >>= fun a => k a >>= fun b => (pure (some b) : Except PyError (Option β))) ↔
      OnlyValueErrors r ∧ ∀ a, r = .ok a → OnlyValueErrors (k a) := by
  rw [onlyValueErrors_bind]
  refine and_congr_right fun _ => forall₂_congr fun a _ => ?_
  rw [onlyValueErrors_bind]
  exact and_iff_left fun b _ => onlyValueErrors_ok (some b)

/-- What `parse_date` needs of the fields of a text. -/
theorem answers_parseDate (hText : strip texto ≠ []) (h : Holds captures f)
    (hFirst : (parsers u).findSome? (·.match? (strip texto)) = some captures) :
    Answers texto (parseDate u texto) ↔ f.MonthKnown u ∧ ∀ year month day, f.ReadsDate u year month day →
      year < 2 ^ 31 ∧ month < 2 ^ 31 ∧ day < 2 ^ 31 := by
  have hParse : parseDate u texto = (toYearMonthDay u captures >>= fun date =>
      Date.make date.1 date.2.1 date.2.2 >>= fun d => pure (some d)) := by
    rw [parseDate, if_neg hText, hFirst]
  rw [Answers, hParse, and_iff_right fun hNone => absurd hNone bind_some_ne_none,
    onlyValueErrors_bind_some, onlyValueErrors_toYearMonthDay h]
  simp only [Prod.forall, toYearMonthDay_eq_ok h, onlyValueErrors_date]

/-- What `parse_datetime` needs of the fields of a text. -/
theorem answers_parseDatetime (hText : strip texto ≠ []) (h : Holds captures f)
    (hFirst : (parsers u).findSome? (·.match? (strip texto)) = some captures) :
    Answers texto (parseDatetime u texto) ↔ f.MonthKnown u ∧ ∀ year month day, f.ReadsDate u year month day →
      ∀ hour minute second, toHourMinuteSecond u captures = .ok (hour, minute, second) →
        (year < 2 ^ 31 ∧ month < 2 ^ 31 ∧ day < 2 ^ 31) ∧ hour < 2 ^ 31 ∧ minute < 2 ^ 31 ∧ second < 2 ^ 31 := by
  have hParse : parseDatetime u texto = (toYearMonthDay u captures >>= fun date =>
      toHourMinuteSecond u captures >>= fun time =>
        DateTime.make date.1 date.2.1 date.2.2 time.1 time.2.1 time.2.2 >>= fun t => pure (some t)) := by
    rw [parseDatetime, if_neg hText, hFirst]
  have hNone : parseDatetime u texto ≠ .ok none := by
    rw [hParse]
    intro hNone
    obtain ⟨date, -, hNone⟩ := (except_bind_eq_ok _).mp hNone
    exact bind_some_ne_none hNone
  rw [Answers, and_iff_right fun h => absurd h hNone, hParse, onlyValueErrors_bind,
    onlyValueErrors_toYearMonthDay h]
  simp only [Prod.forall, toYearMonthDay_eq_ok h, onlyValueErrors_bind_some,
    onlyValueErrors_toHourMinuteSecond h, true_and, onlyValueErrors_datetime]

end Answers

/-- The two parsers answer as they should exactly for the texts whose fields are safe. -/
theorem answers_iff (u : Unicode) (texto : Str) :
    (Answers texto (parseDate u texto) ∧ Answers texto (parseDatetime u texto)) ↔
      ∀ f, fieldsOf u texto = some f → f.Safe u := by
  by_cases hText : strip texto = []
  · have hBlank : fieldsOf u texto = none := by
      rw [fieldsOf, hText]
      rfl
    rw [parseDate, parseDatetime, if_pos hText, if_pos hText, hBlank]
    simp [Answers, hText]
  · cases hFirst : (parsers u).findSome? (·.match? (strip texto)) with
    | none =>
        have hNoFields : fieldsOf u texto = none := by
          rw [fieldsOf, hFirst]
          rfl
        rw [parseDate, parseDatetime, if_neg hText, if_neg hText, hFirst, hNoFields]
        simp [Answers, valueError]
    | some captures =>
        obtain ⟨f, hHolds, hFields⟩ := holds_of_first hFirst
        rw [answers_parseDate hText hHolds hFirst, answers_parseDatetime hText hHolds hFirst, hFields]
        constructor
        · rintro ⟨⟨hMonth, hDate⟩, -, hTime⟩ f' hSame
          obtain rfl := Option.some.inj hSame
          refine ⟨hMonth, hDate, fun year month day hour minute second hReads hReadsTime => ?_⟩
          exact (hTime year month day hReads hour minute second
            ((toHourMinuteSecond_eq_ok hHolds).mpr (.inr hReadsTime))).2
        · intro hSafe
          obtain ⟨hMonth, hDate, hTime⟩ := hSafe f rfl
          refine ⟨⟨hMonth, hDate⟩, hMonth, fun year month day hReads hour minute second hRead => ?_⟩
          refine ⟨hDate year month day hReads, ?_⟩
          obtain ⟨-, rfl, rfl, rfl⟩ | hReadsTime := (toHourMinuteSecond_eq_ok hHolds).mp hRead
          · decide
          · exact hTime year month day hour minute second hReads hReadsTime

/-- A word that is no month is a `KeyError`. -/
theorem not_answers_unknown : ¬ Answers "1 abc 2020" (parseDate .ascii "1 abc 2020") := by
  intro h
  have hError : parseDate .ascii "1 abc 2020" = .error { kind := .other, text := "'ABC'" } := by rfl
  cases h.2 _ hError

end Spidercheck
