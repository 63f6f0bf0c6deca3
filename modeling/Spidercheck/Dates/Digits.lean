import Spidercheck.Dates.Failures
import Spidercheck.Regex.Runs

/-! Whether the numbers of a text are read as they are written. A field stands
where its group begins, and what is written there is the whole run of digits
around this place. -/
namespace Spidercheck

open Text Regex Pattern

variable {u : Unicode} {texto : Str} {captures : Captures Char Field}

/-- The names of the patterns, in the order of `PARSERS`. -/
inductive PatternName where
  | dmy
  | iso8601DatetimeExtBasic
  | iso8601DatetimeBasic
  | iso8601DateBasic
  | iso8601DateExt
  | rfc822Datetime
  | rfc822Date
  | fechaCompleta
  | fechaHora
  | ddmmyyyyhhmmss
  | ddmmyyhhmmss
  deriving DecidableEq, Repr

namespace PatternName

def all : List PatternName := [
  dmy, iso8601DatetimeExtBasic, iso8601DatetimeBasic, iso8601DateBasic, iso8601DateExt,
  rfc822Datetime, rfc822Date, fechaCompleta, fechaHora, ddmmyyyyhhmmss, ddmmyyhhmmss]

def pattern (u : Unicode) : PatternName → DatePattern
  | dmy => patDmy u
  | iso8601DatetimeExtBasic => patIso8601DatetimeExtBasic u
  | iso8601DatetimeBasic => patIso8601DatetimeBasic u
  | iso8601DateBasic => patIso8601DateBasic u
  | iso8601DateExt => patIso8601DateExt u
  | rfc822Datetime => patRfc822Datetime u
  | rfc822Date => patRfc822Date u
  | fechaCompleta => patFechaCompleta u
  | fechaHora => patFechaHora u
  | ddmmyyyyhhmmss => patDdmmyyyyhhmmss u
  | ddmmyyhhmmss => patDdmmyyhhmmss u

theorem map_pattern_all (u : Unicode) : all.map (pattern u) = parsers u := rfl

def separated : PatternName → Bool
  | iso8601DatetimeBasic | iso8601DateBasic => false
  | _ => true

/-- The patterns that go on with any characters behind the seconds. -/
def openEnded : PatternName → Bool
  | rfc822Datetime | fechaHora => true
  | _ => false

end PatternName

def readBy (u : Unicode) (texto : Str) : Option PatternName :=
  PatternName.all.find? fun name => ((name.pattern u).match? (strip texto)).isSome

section Fences

/-- The numbers that are followed by something else than a digit. -/
def PatternName.closed (name : PatternName) (field : Field) : Bool :=
  field != .month && (field != .second || !name.openEnded)

theorem ne_of_isDecimal {mark : Char} (hMark : Punctuation mark) :
    ∀ c, u.isDecimal c = true → ¬ c = mark := by
  rintro c hDecimal rfl
  rw [hMark.isDecimal] at hDecimal
  cases hDecimal

/-- A class of punctuation has no digits. -/
theorem class_of_isDecimal {p : Char → Bool} (hMarks : ∀ c, p c = true → Punctuation c) :
    ∀ c, u.isDecimal c = true → p c = false :=
  apart_of_punctuation (fun _ hc => hc.isDecimal) hMarks

theorem punctuation_of_isSign {c : Char} (h : isSign c = true) : Punctuation c := by
  obtain rfl | rfl : c = '+' ∨ c = '-' := by simpa [isSign] using h
  · decide
  · decide

theorem isTimeMark_of_isDecimal : ∀ c, u.isDecimal c = true → isTimeMark c = false := by
  intro c hDecimal
  by_contra hNot
  have hMark : isTimeMark c = true := Bool.not_eq_false _ ▸ hNot
  obtain rfl | rfl : c = ' ' ∨ c = 'T' := by simpa [isTimeMark] using hMark
  · exact ne_of_isDecimal (by decide) ' ' hDecimal rfl
  · rw [isDecimal_of_isAlpha (by decide)] at hDecimal
    cases hDecimal

/-- No part around the numbers of a pattern begins or ends with a digit. -/
theorem fenced (u : Unicode) (name : PatternName) (h : name.separated = true) :
    ∃ parts, name.pattern u = .all parts ∧ Fenced u.isDecimal name.closed [] parts := by
  have hSpace : ∀ c, u.isDecimal c = true → ¬ c = ' ' := ne_of_isDecimal (by decide)
  have hDash : ∀ c, u.isDecimal c = true → ¬ c = '-' := ne_of_isDecimal (by decide)
  have hColon : ∀ c, u.isDecimal c = true → ¬ c = ':' := ne_of_isDecimal (by decide)
  have hLine : ∀ c, u.isDecimal c = true → ¬ c = '\n' := ne_of_isDecimal (by decide)
  have hSeparator : ∀ c, u.isDecimal c = true → isSeparator c = false :=
    class_of_isDecimal fun _ => punctuation_of_isSeparator
  have hSlash : ∀ c, u.isDecimal c = true → isSlash c = false :=
    class_of_isDecimal fun _ => punctuation_of_isSlash
  have hSign : ∀ c, u.isDecimal c = true → isSign c = false :=
    class_of_isDecimal fun _ => punctuation_of_isSign
  have hTime : ∀ c, u.isDecimal c = true → isTimeMark c = false := isTimeMark_of_isDecimal
  cases name with
  | iso8601DatetimeBasic => cases h
  | iso8601DateBasic => cases h
  | _ =>
      refine ⟨_, rfl, ?_⟩
      simp +contextual [PatternName.closed, PatternName.openEnded, Fenced, Fence, walled_iff, number, digits, oneOrTwo, weekday, is, atEnd,
        times, Pattern.all, bare, idle, takes, finals, Apart, starts, skips, hSpace, hDash, hColon, hLine,
        hSeparator, hSlash, hSign, hTime]

end Fences

section Match
variable {s : Str} {name : PatternName}

/-- A run of digits that is cut: only digits stand behind it. -/
structure Cut (u : Unicode) (g : Group Char Field) : Prop where
  word : Word u.isDecimal g.taken
  left : ∀ c ∈ g.before.getLast?, u.isDecimal c = false
  after : ∀ c ∈ g.after, u.isDecimal c = true

/-- The numbers of a match are whole runs, except that seconds may be cut. -/
structure Written (u : Unicode) (name : PatternName) (s : Str) (gs : List (Group Char Field)) : Prop where
  placed : Placed (name.pattern u) s gs
  text : ∀ g ∈ gs, g.before ++ g.taken ++ g.after = s
  closed : ∀ g ∈ gs, name.closed g.name = true → Whole u.isDecimal g
  seconds : name.openEnded = true → ∀ g ∈ gs, g.name = .second →
    g.after ≠ [] ∧ (Whole u.isDecimal g ∨ Cut u g)

def rfc822Front (u : Unicode) : List DatePattern := [
  weekday u, number u .day, is ' ', .group .month (.plus u.isWord), is ' ', number u .year, is ' ',
  number u .hour, is ':', number u .minute, is ':']

def fechaHoraFront (u : Unicode) : List DatePattern := [
  number u .day, is '-', number u .month, is '-', number u .year, is ' ',
  digits u 2 .hour, is ':', digits u 2 .minute, is ':']

/-- In front of the seconds there is no digit. -/
theorem finals_front (u : Unicode) : ∀ c, u.isDecimal c = true →
    (Pattern.all (rfc822Front u)).finals c = false ∧ (Pattern.all (fechaHoraFront u)).finals c = false := by
  have hColon : ∀ c, u.isDecimal c = true → ¬ c = ':' := ne_of_isDecimal (by decide)
  simp +contextual [rfc822Front, fechaHoraFront, Pattern.all, is, finals, idle, hColon]

theorem second_notMem_rfc822Front : .second ∉ (Pattern.all (rfc822Front u)).names := by
  show .second ∉ [Field.day, .month, .year, .hour, .minute]
  decide

theorem second_notMem_fechaHoraFront : .second ∉ (Pattern.all (fechaHoraFront u)).names := by
  show .second ∉ [Field.day, .month, .year, .hour, .minute]
  decide

/-- The groups that a fenced pattern reads. -/
theorem whole_of_reads {w t : Str} {gs : List (Group Char Field)} (h : name.separated = true)
    (hReads : (name.pattern u).Reads [] w t gs) :
    ∀ g ∈ gs, name.closed g.name = true → Whole u.isDecimal g := by
  obtain ⟨parts, hParts, hFenced⟩ := fenced u name h
  exact hFenced.whole .empty (hParts ▸ hReads)

/-- A group of the front is not that of the seconds. -/
theorem eq_of_second {front : DatePattern} {gs : List (Group Char Field)} {g g' : Group Char Field}
    {before w after : Str} (hFront : front.Reads before w after gs) (hSettled : front.settled = true)
    (hNames : .second ∉ front.names) (hMem : g' ∈ gs ++ [g]) (hSecond : g'.name = .second) : g' = g := by
  rcases List.mem_append.mp hMem with hMem | hMem
  · rw [← hFront.names hSettled] at hNames
    exact absurd (List.mem_map.mpr ⟨g', hMem, hSecond⟩) hNames
  · exact List.mem_singleton.mp hMem

/-- The numbers of an RFC 822 date are whole, except for the seconds. -/
theorem written_rfc822 (hMatch : (patRfc822Datetime u).match? s = some captures)
    (hLast : ∀ c ∈ s.getLast?, (c == '\n') = false) :
    ∃ gs, captures = capturesOf gs ∧ Written u .rfc822Datetime s gs := by
  have hLine : (Pattern.all (rfc822Front u ++ [.group .second (.plus u.isDecimal), .plus isAny,
      .stop (· == '\n')])).match? s = some captures := hMatch
  obtain ⟨gs, g, hReads, rfl, hName, hFront, hWord, hMore, hAfter, hPlaced⟩ := match?_line_placed hLine hLast
  have hPattern : (PatternName.rfc822Datetime.pattern u).Reads [] s [] (gs ++ [g]) := hReads
  refine ⟨gs ++ [g], rfl, hPlaced, fun g' hg' => by simpa using hReads.text g' hg',
    whole_of_reads rfl hPattern, ?_⟩
  intro _ g' hMem hSecond
  obtain rfl := eq_of_second hFront rfl second_notMem_rfc822Front hMem hSecond
  have hLeft := hFront.left fun c hc => (finals_front u c hc).1
  refine ⟨hMore, ?_⟩
  exact hAfter.imp (fun hEnds => ⟨hWord, hLeft, hEnds⟩) fun hAll => ⟨hWord, hLeft, hAll⟩

/-- Behind the two digits of the seconds stand one more character and digits. -/
theorem reads_fechaHoraBack {before w t : Str} {gs : List (Group Char Field)}
    (h : (Pattern.all [digits u 2 .second, .char isAny, .plus u.isDecimal, atEnd]).Reads before w t gs)
    (hLast : ∀ c ∈ t.getLast?, (c == '\n') = false) :
    ∃ taken c rest, w = taken ++ c :: rest ∧ t = [] ∧ gs = [⟨.second, before, taken, c :: rest⟩] ∧
      Word u.isDecimal taken ∧ Word u.isDecimal rest := by
  cases h with
  | seq hSeconds h =>
  cases h with
  | seq hAny h =>
  cases h with
  | seq hDigits h =>
  cases h with
  | seq hEnd hEmpty =>
  cases hEmpty
  have hEnded : t = [] := by
    cases hEnd with
    | stop => rfl
    | stopBefore hc =>
        have hNo := hLast _ (List.getLast?_singleton ..)
        cases hNo.symm.trans hc
  subst hEnded
  cases hEnd
  cases hDigits with
  | plus hRest =>
  cases hAny with
  | char hAny =>
  rename_i rest c
  cases hSeconds with
  | group hTwo =>
  have hTaken : Word u.isDecimal _ := hTwo.word rfl (by simp [times, Pattern.all, takes])
  cases hTwo.groups_eq_nil rfl
  exact ⟨_, c, rest, by simp, rfl, by simp, hTaken, hRest⟩

/-- The numbers of a date with a fraction are whole, except for the seconds. -/
theorem written_fechaHora (hMatch : (patFechaHora u).match? s = some captures)
    (hLast : ∀ c ∈ s.getLast?, (c == '\n') = false) :
    ∃ gs, captures = capturesOf gs ∧ Written u .fechaHora s gs := by
  obtain ⟨w, t, gs, rfl, hReads, rfl, hPlaced⟩ := match?_placed hMatch
  refine ⟨gs, rfl, hPlaced, fun g hg => by simpa using hReads.text g hg, whole_of_reads rfl hReads, ?_⟩
  have hSplit : (Pattern.all (fechaHoraFront u ++ [digits u 2 .second, .char isAny, .plus u.isDecimal,
      atEnd])).Reads [] w t gs := hReads
  obtain ⟨front, v, hs, hs', rfl, rfl, hFront, hBack⟩ := hSplit.all_split
  have hEndLast : ∀ c ∈ t.getLast?, (c == '\n') = false := by
    intro c hc
    have hc : t.getLast? = some c := hc
    exact hLast c (by simp [List.getLast?_append, hc])
  obtain ⟨taken, c, rest, rfl, rfl, rfl, hTaken, hRest⟩ := reads_fechaHoraBack hBack hEndLast
  intro _ g hMem hSecond
  obtain rfl := eq_of_second hFront rfl second_notMem_fechaHoraFront hMem hSecond
  have hLeft := hFront.left fun c hc => (finals_front u c hc).2
  refine ⟨List.cons_ne_nil c rest, ?_⟩
  by_cases hc : u.isDecimal c = true
  · right
    refine ⟨hTaken, hLeft, fun d hd => ?_⟩
    rcases List.mem_cons.mp hd with rfl | hd
    · exact hc
    · exact hRest.2 d hd
  · left
    exact ⟨hTaken, hLeft, ends_cons.mpr (Bool.not_eq_true _ ▸ hc)⟩

/-- Each pattern with separated fields. -/
theorem written_of_match (hSeparated : name.separated = true)
    (hMatch : (name.pattern u).match? s = some captures) (hLast : ∀ c ∈ s.getLast?, (c == '\n') = false) :
    ∃ gs, captures = capturesOf gs ∧ Written u name s gs := by
  cases hOpen : name.openEnded with
  | true =>
      cases name with
      | rfc822Datetime => exact written_rfc822 hMatch hLast
      | fechaHora => exact written_fechaHora hMatch hLast
      | _ => cases hOpen
  | false =>
      obtain ⟨w, t, gs, rfl, hReads, rfl, hPlaced⟩ := match?_placed hMatch
      refine ⟨gs, rfl, hPlaced, fun g hg => by simpa using hReads.text g hg,
        whole_of_reads hSeparated hReads, ?_⟩
      rw [hOpen]
      rintro ⟨⟩

end Match

section Values
variable {s rest : Str} {m n : Nat} {t : DateTime} {field : Field}

/-- Every run of digits is a number. -/
theorem exists_toNat (h : ∀ c ∈ s, u.isDecimal c = true) : ∃ n, u.toNat s = some n := by
  have hFold : ∀ acc, ∃ n, s.foldlM (fun acc c => (u.decimal c).map (acc * 10 + ·)) acc = some n := by
    induction s with
    | nil => exact fun acc => ⟨acc, rfl⟩
    | cons c s ih =>
        intro acc
        obtain ⟨d, hDigit⟩ := Option.isSome_iff_exists.mp (h c (List.mem_cons_self ..))
        obtain ⟨n, hRest⟩ := ih (fun x hx => h x (List.mem_cons_of_mem c hx)) (acc * 10 + d)
        exact ⟨n, by simpa [List.foldlM_cons, hDigit] using hRest⟩
  exact hFold 0

theorem le_of_foldlM {acc : Nat}
    (h : s.foldlM (fun acc c => (u.decimal c).map (acc * 10 + ·)) acc = some n) : acc ≤ n := by
  induction s generalizing acc with
  | nil => exact (Option.some.inj h).le
  | cons c s ih =>
      rw [List.foldlM_cons] at h
      obtain ⟨next, hDigit, hRest⟩ := Option.bind_eq_some_iff.mp h
      obtain ⟨d, -, rfl⟩ := Option.map_eq_some_iff.mp hDigit
      have hLater := ih hRest
      omega

/-- Each further digit makes a number ten times as large, at least. -/
theorem ten_mul_le (hFront : u.toNat s = some m) (hWhole : u.toNat (s ++ rest) = some n)
    (hMore : rest ≠ []) : 10 * m ≤ n := by
  obtain ⟨c, rest, rfl⟩ := List.exists_cons_of_ne_nil hMore
  rw [Unicode.toNat, List.foldlM_append] at hWhole
  obtain ⟨m', hSame, hRest⟩ := Option.bind_eq_some_iff.mp hWhole
  obtain rfl : m = m' := Option.some.inj (hFront.symm.trans hSame)
  rw [List.foldlM_cons] at hRest
  obtain ⟨next, hDigit, hRest⟩ := Option.bind_eq_some_iff.mp hRest
  obtain ⟨d, -, rfl⟩ := Option.map_eq_some_iff.mp hDigit
  have hLater := le_of_foldlM hRest
  omega

theorem toNat_of_toInteger (h : toInteger u s = .ok n) : u.toNat s = some n := by
  unfold toInteger at h
  simp only at h
  split at h
  · cases h
  · split at h
    · next hValue => rw [hValue, Except.ok.inj h]
    · cases h

def valueOf (t : DateTime) : Field → Nat
  | .day => t.day
  | .month => t.month
  | .year => t.year
  | .hour => t.hour
  | .minute => t.minute
  | .second => t.second

/-- The value of a field is that of the text, where years are put into the century by their value. -/
def Took (u : Unicode) (field : Field) (text : Str) (value : Nat) : Prop :=
  ∃ n, u.toNat text = some n ∧ value = if field = .year ∧ n ≤ 100 then n + 2000 else n

theorem toCInt_eq_ok (h : toCInt m = .ok n) : m = n := by
  unfold toCInt at h
  split at h
  · exact Except.ok.inj h
  · split at h <;> cases h

theorem Date.check_eq_ok {year month day : Nat} {d : Date} (h : Date.check year month day = .ok d) :
    d.year = year ∧ d.day = day := by
  unfold Date.check at h
  repeat' split at h
  all_goals cases h
  exact ⟨rfl, rfl⟩

theorem DateTime.make_eq_ok {year month day hour minute second : Nat}
    (h : DateTime.make year month day hour minute second = .ok t) :
    t.year = year ∧ t.day = day ∧ t.hour = hour ∧ t.minute = minute ∧ t.second = second := by
  simp only [DateTime.make, except_bind_eq_ok] at h
  obtain ⟨year, hYear, month, -, day, hDay, hour, hHour, minute, hMinute, second, hSecond, d, hDate, h⟩ := h
  obtain ⟨rfl, rfl⟩ := Date.check_eq_ok hDate
  rw [toCInt_eq_ok hYear, toCInt_eq_ok hDay, toCInt_eq_ok hHour, toCInt_eq_ok hMinute, toCInt_eq_ok hSecond]
  repeat' split at h
  all_goals cases h
  exact ⟨rfl, rfl, rfl, rfl, rfl⟩

end Values

section Keeping
variable {name : PatternName} {s : Str} {gs : List (Group Char Field)} {g : Group Char Field}
  {t : DateTime} {field : Field} {value : Nat}

/-- The whole run of digits that stands at the place of a field. -/
def runOf (u : Unicode) (name : PatternName) (s : Str) (field : Field) : Option Str :=
  (placeOf (name.pattern u) s field).map (runAt u.isDecimal s)

/-- The value is the number that the digits write, or the year of this century
that two digits stand for. -/
def Says (u : Unicode) (field : Field) (digits : Str) (value : Nat) : Prop :=
  ∃ n, u.toNat digits = some n ∧ value = if field = .year ∧ digits.length = 2 then 2000 + n else n

/-- The field has the value of its run of digits; it is zero where the pattern has no such field. -/
def Keeps (u : Unicode) (name : PatternName) (s : Str) (t : DateTime) (field : Field) : Prop :=
  match runOf u name s field with
  | some digits => Says u field digits (valueOf t field)
  | none => valueOf t field = 0

def KeepsDigits (u : Unicode) (name : PatternName) (s : Str) (t : DateTime) : Prop :=
  ∀ field, field ≠ .month → Keeps u name s t field

/-- The number of the year has two digits exactly when it is small. -/
def YearPlain (u : Unicode) (name : PatternName) (s : Str) : Prop :=
  ∀ digits n, runOf u name s .year = some digits → u.toNat digits = some n → (digits.length = 2 ↔ n ≤ 100)

/-- Where a pattern goes on behind the seconds, these are not followed by digits
alone, except for zeros behind zeros. -/
def SecondsPlain (u : Unicode) (name : PatternName) (s : Str) : Prop :=
  name.openEnded = true → ∀ place, placeOf (name.pattern u) s .second = some place →
    (∀ c ∈ s.drop place, u.isDecimal c = true) → u.toNat (s.drop place) = some 0

/-- The values of the result are those of the groups. -/
def TookAll (u : Unicode) (captures : Captures Char Field) (t : DateTime) : Prop :=
  ∀ field, field ≠ .month → match captures.lookup field with
    | some text => Took u field text (valueOf t field)
    | none => valueOf t field = 0

/-- A field of the time is read from its text, or zero where there is none. -/
theorem took_of_time {f : Fields} {part : Str × Str × Str → Str} {value : Nat}
    (hLookup : captures.lookup field = f.time.map part) (hNotYear : field ≠ .year)
    (hRead : (f.time = none ∧ value = 0) ∨
      ∃ texts, f.time = some texts ∧ toInteger u (part texts) = .ok value) :
    match captures.lookup field with
      | some text => Took u field text value
      | none => value = 0 := by
  rw [hLookup]
  rcases hRead with ⟨hNone, hZero⟩ | ⟨texts, hSome, hRead⟩
  · rw [hNone]
    exact hZero
  · rw [hSome]
    exact ⟨value, toNat_of_toInteger hRead, by simp [hNotYear]⟩

/-- The values of a result come from the groups that it was made from. -/
theorem tookAll_of_ok {f : Fields} {year month day hour minute second : Nat} (h : Holds captures f)
    (hDate : toYearMonthDay u captures = .ok (year, month, day))
    (hTime : toHourMinuteSecond u captures = .ok (hour, minute, second))
    (hMake : DateTime.make year month day hour minute second = .ok t) : TookAll u captures t := by
  obtain ⟨hDay, -, written, hYear, hFull⟩ := (toYearMonthDay_eq_ok h).mp hDate
  obtain ⟨rfl, rfl, rfl, rfl, rfl⟩ := DateTime.make_eq_ok hMake
  have hTime := (toHourMinuteSecond_eq_ok h).mp hTime
  intro field hField
  cases field with
  | day =>
      rw [h.day]
      exact ⟨t.day, toNat_of_toInteger hDay, rfl⟩
  | month => exact absurd rfl hField
  | year =>
      rw [h.year]
      refine ⟨written, toNat_of_toInteger hYear, ?_⟩
      simpa [valueOf] using hFull.symm
  | hour =>
      apply took_of_time h.hour (by decide)
      exact hTime.imp (fun hNone => ⟨hNone.1, hNone.2.1⟩) fun ⟨_, _, _, hSome, hHour, _, _⟩ => ⟨_, hSome, hHour⟩
  | minute =>
      apply took_of_time h.minute (by decide)
      exact hTime.imp (fun hNone => ⟨hNone.1, hNone.2.2.1⟩) fun ⟨_, _, _, hSome, _, hMinute, _⟩ =>
        ⟨_, hSome, hMinute⟩
  | second =>
      apply took_of_time h.second (by decide)
      exact hTime.imp (fun hNone => ⟨hNone.1, hNone.2.2.2⟩) fun ⟨_, _, _, hSome, _, _, hSecond⟩ =>
        ⟨_, hSome, hSecond⟩

/-- The first pattern that matches is the one whose match is used. -/
theorem first_of_readBy (h : readBy u texto = some name) : ∃ captures,
    (parsers u).findSome? (·.match? (strip texto)) = some captures ∧
      (name.pattern u).match? (strip texto) = some captures := by
  obtain ⟨hMatches, front, back, hAll, hFront⟩ := List.find?_eq_some_iff_append.mp h
  obtain ⟨captures, hMatch⟩ := Option.isSome_iff_exists.mp hMatches
  refine ⟨captures, ?_, hMatch⟩
  have hBefore : front.findSome? (fun name => (name.pattern u).match? (strip texto)) = none := by
    rw [List.findSome?_eq_none_iff]
    intro other hOther
    simpa using hFront other hOther
  rw [← PatternName.map_pattern_all, List.findSome?_map, hAll, List.findSome?_append]
  simp only [Function.comp_def, hBefore, Option.none_or, List.findSome?_cons, hMatch]

/-- What `parse_datetime` returns has the values of the groups. -/
theorem tookAll_of_parsed (hFirst : (parsers u).findSome? (·.match? (strip texto)) = some captures)
    (hParsed : parseDatetime u texto = .ok (some t)) : TookAll u captures t := by
  obtain ⟨f, hHolds, -⟩ := holds_of_first hFirst
  unfold parseDatetime at hParsed
  simp only [hFirst] at hParsed
  split at hParsed
  · cases hParsed
  · obtain ⟨⟨year, month, day⟩, hDate, hParsed⟩ := (except_bind_eq_ok _).mp hParsed
    obtain ⟨⟨hour, minute, second⟩, hTime, hParsed⟩ := (except_bind_eq_ok _).mp hParsed
    obtain ⟨t', hMake, hSame⟩ := (except_bind_eq_ok _).mp hParsed
    obtain rfl : t' = t := by simpa [pure_eq_ok] using hSame
    exact tookAll_of_ok hHolds hDate hTime hMake

/-- A group that is whole is the run of digits at its place. -/
theorem runOf_of_whole (h : Written u name s gs) (hNamed : groupNamed gs field = some g)
    (hWhole : Whole u.isDecimal g) : runOf u name s field = some g.taken := by
  have hText := h.text g (List.mem_of_find?_eq_some hNamed)
  rw [runOf, h.placed field g hNamed hWhole.word.1, Option.map_some, hWhole.runAt_eq hText]

/-- A run that was cut goes on to the end of the text. -/
theorem runOf_of_cut (h : Written u name s gs) (hNamed : groupNamed gs field = some g)
    (hCut : Cut u g) : runOf u name s field = some (g.taken ++ g.after) := by
  have hText := h.text g (List.mem_of_find?_eq_some hNamed)
  rw [List.append_assoc] at hText
  rw [runOf, h.placed field g hNamed hCut.word.1, Option.map_some,
    runAt_of_left hText.symm hCut.word hCut.left, List.takeWhile_eq_self_iff.mpr hCut.after]

theorem name_of_groupNamed (h : groupNamed gs field = some g) : g.name = field := by
  have hName := List.find?_some h
  exact (beq_iff_eq.mp hName).symm

/-- A field without a group has no place and is zero. -/
theorem keeps_of_unnamed (hMatch : (name.pattern u).match? s = some (capturesOf gs))
    (hTook : TookAll u (capturesOf gs) t) (hField : field ≠ .month) (hNamed : groupNamed gs field = none) :
    runOf u name s field = none ∧ Keeps u name s t field := by
  have hLookup : (capturesOf gs).lookup field = none := by
    rw [lookup_capturesOf, hNamed, Option.map_none]
  have hNone : runOf u name s field = none := by
    rw [runOf, placeOf_eq_none hMatch hLookup, Option.map_none]
  have hValue := hTook field hField
  rw [hLookup] at hValue
  rw [Keeps, hNone]
  exact ⟨rfl, hValue⟩

/-- A field with a group has the value of what this took. -/
theorem took_of_named (hTook : TookAll u (capturesOf gs) t) (hField : field ≠ .month)
    (hNamed : groupNamed gs field = some g) : Took u field g.taken (valueOf t field) := by
  have hValue := hTook field hField
  rwa [lookup_capturesOf, hNamed] at hValue

/-- A whole run of digits is read as it is written, years apart. -/
theorem keeps_of_whole (hWritten : Written u name s gs) (hTook : Took u field g.taken (valueOf t field))
    (hNamed : groupNamed gs field = some g) (hWhole : Whole u.isDecimal g) (hNotYear : field ≠ .year) :
    Keeps u name s t field := by
  obtain ⟨n, hNumber, hValue⟩ := hTook
  rw [Keeps, runOf_of_whole hWritten hNamed hWhole]
  exact ⟨n, hNumber, by simpa [hNotYear] using hValue⟩

/-- A number that is followed by something else than a digit is kept. -/
theorem keeps_of_closed (hWritten : Written u name s gs)
    (hMatch : (name.pattern u).match? s = some (capturesOf gs)) (hTook : TookAll u (capturesOf gs) t)
    (hField : field ≠ .month) (hNotYear : field ≠ .year) (hClosed : name.closed field = true) :
    Keeps u name s t field := by
  cases hNamed : groupNamed gs field with
  | none => exact (keeps_of_unnamed hMatch hTook hField hNamed).2
  | some g =>
      have hWhole : Whole u.isDecimal g := by
        apply hWritten.closed g (List.mem_of_find?_eq_some hNamed)
        rwa [name_of_groupNamed hNamed]
      exact keeps_of_whole hWritten (took_of_named hTook hField hNamed) hNamed hWhole hNotYear

/-- The year is kept exactly when it is plain. -/
theorem keeps_year_iff (hWritten : Written u name s gs)
    (hMatch : (name.pattern u).match? s = some (capturesOf gs)) (hTook : TookAll u (capturesOf gs) t) :
    Keeps u name s t .year ↔ YearPlain u name s := by
  cases hNamed : groupNamed gs .year with
  | none =>
      -- each date has a year, so each match has its group
      obtain ⟨hNone, hKeeps⟩ := keeps_of_unnamed hMatch hTook (by decide) hNamed
      rw [Keeps, hNone] at hKeeps
      have hZero : t.year = 0 := hKeeps
      have hYear := t.yearValid.1
      omega
  | some g =>
      obtain ⟨n, hNumber, hValue⟩ := took_of_named hTook (by decide) hNamed
      have hWhole : Whole u.isDecimal g := by
        apply hWritten.closed g (List.mem_of_find?_eq_some hNamed)
        rw [name_of_groupNamed hNamed]
        rfl
      rw [Keeps, YearPlain, runOf_of_whole hWritten hNamed hWhole]
      constructor
      · intro ⟨n', hNumber', hValue'⟩ digits m hDigits hM
        obtain rfl := Option.some.inj hDigits
        obtain rfl : n = n' := Option.some.inj (hNumber.symm.trans hNumber')
        obtain rfl : n = m := Option.some.inj (hNumber.symm.trans hM)
        rw [hValue] at hValue'
        simp only [true_and] at hValue'
        split at hValue' <;> split at hValue' <;> omega
      · intro hPlain
        refine ⟨n, hNumber, ?_⟩
        have hIff := hPlain g.taken n rfl hNumber
        rw [hValue]
        simp only [true_and, hIff]
        split <;> omega

/-- A number that was cut is the whole one only if this is zero. -/
theorem keeps_of_cut_iff (hWritten : Written u name s gs)
    (hTook : Took u .second g.taken (valueOf t .second)) (hNamed : groupNamed gs .second = some g)
    (hCut : Cut u g) (hMore : g.after ≠ []) :
    Keeps u name s t .second ↔ u.toNat (g.taken ++ g.after) = some 0 := by
  obtain ⟨n, hNumber, hValue⟩ := hTook
  have hAll : ∀ c ∈ g.taken ++ g.after, u.isDecimal c = true := by
    intro c hc
    exact (List.mem_append.mp hc).elim (hCut.word.2 c) (hCut.after c)
  obtain ⟨m, hWhole⟩ := exists_toNat hAll
  have hTen := ten_mul_le hNumber hWhole hMore
  have hSecond : valueOf t .second = n := by simpa using hValue
  rw [Keeps, runOf_of_cut hWritten hNamed hCut, hWhole]
  constructor
  · intro ⟨m', hSame, hSays⟩
    obtain rfl : m = m' := Option.some.inj (hWhole.symm.trans hSame)
    have hSays : valueOf t .second = m := by simpa using hSays
    exact congrArg some (by omega)
  · intro hZero
    have hZero := Option.some.inj hZero
    exact ⟨m, hWhole, by simp; omega⟩

/-- The seconds are kept exactly when they are plain. -/
theorem keeps_second_iff (hWritten : Written u name s gs)
    (hMatch : (name.pattern u).match? s = some (capturesOf gs)) (hTook : TookAll u (capturesOf gs) t)
    (hOpen : name.openEnded = true) : Keeps u name s t .second ↔ SecondsPlain u name s := by
  cases hNamed : groupNamed gs .second with
  | none =>
      obtain ⟨hNone, hKeeps⟩ := keeps_of_unnamed hMatch hTook (by decide) hNamed
      refine iff_of_true hKeeps fun _ place hPlace => ?_
      rw [runOf, hPlace] at hNone
      cases hNone
  | some g =>
      have hTook := took_of_named hTook (by decide) hNamed
      have hMem := List.mem_of_find?_eq_some hNamed
      have hText := hWritten.text g hMem
      have hDrop : s.drop g.before.length = g.taken ++ g.after := by
        rw [← hText, List.append_assoc, List.drop_left]
      obtain ⟨hMore, hWhole | hCut⟩ := hWritten.seconds hOpen g hMem (name_of_groupNamed hNamed)
      · refine iff_of_true (keeps_of_whole hWritten hTook hNamed hWhole (by decide)) ?_
        intro _ place hPlace hAll
        obtain rfl := Option.some.inj ((hWritten.placed .second g hNamed hWhole.word.1).symm.trans hPlace)
        obtain ⟨c, rest, hAfter⟩ := List.exists_cons_of_ne_nil hMore
        have hDecimal : u.isDecimal c = true := hAll c (by simp [hDrop, hAfter])
        have hNot : u.isDecimal c = false := ends_cons.mp (hAfter ▸ hWhole.right)
        cases hNot.symm.trans hDecimal
      · have hPlace := hWritten.placed .second g hNamed hCut.word.1
        rw [keeps_of_cut_iff hWritten hTook hNamed hCut hMore, ← hDrop]
        constructor
        · intro hZero _ place hSome _
          obtain rfl := Option.some.inj (hPlace.symm.trans hSome)
          exact hZero
        · intro hPlain
          apply hPlain hOpen g.before.length hPlace
          intro c hc
          rw [hDrop] at hc
          exact (List.mem_append.mp hc).elim (hCut.word.2 c) (hCut.after c)

end Keeping

/-- The digits of an accepted text are all read, and as what they are, exactly when
the year and the seconds are plain. -/
theorem keepsDigits_iff (u : Unicode) (texto : Str) (name : PatternName) (t : DateTime)
    (hRead : readBy u texto = some name) (hSeparated : name.separated = true)
    (hParsed : parseDatetime u texto = .ok (some t)) :
    KeepsDigits u name (strip texto) t ↔
      YearPlain u name (strip texto) ∧ SecondsPlain u name (strip texto) := by
  obtain ⟨captures, hFirst, hMatch⟩ := first_of_readBy hRead
  have hTook := tookAll_of_parsed hFirst hParsed
  have hLast : ∀ c ∈ (strip texto).getLast?, (c == '\n') = false := by
    intro c hc
    rw [beq_eq_false_iff_ne]
    rintro rfl
    cases isSpace_getLast?_strip '\n' hc
  obtain ⟨gs, rfl, hWritten⟩ := written_of_match hSeparated hMatch hLast
  constructor
  · intro hKeeps
    refine ⟨(keeps_year_iff hWritten hMatch hTook).mp (hKeeps .year (by decide)), fun hOpen => ?_⟩
    exact (keeps_second_iff hWritten hMatch hTook hOpen).mp (hKeeps .second (by decide)) hOpen
  · intro ⟨hYear, hSecond⟩ field hField
    by_cases hNotYear : field = .year
    · rw [hNotYear]
      exact (keeps_year_iff hWritten hMatch hTook).mpr hYear
    · cases hClosed : name.closed field with
      | true => exact keeps_of_closed hWritten hMatch hTook hField hNotYear hClosed
      | false =>
          obtain ⟨hOpen, rfl⟩ : name.openEnded = true ∧ field = .second := by
            simpa [PatternName.closed, hField, and_comm] using hClosed
          exact (keeps_second_iff hWritten hMatch hTook hOpen).mpr hSecond

/-- With a zone all the digits of the seconds are read. -/
theorem keepsDigits_iff_zone :
    KeepsDigits .ascii .rfc822Datetime (strip "Sun, 9 Feb 2020 03:04:05 GMT") sampleTime := by
  apply (keepsDigits_iff .ascii "Sun, 9 Feb 2020 03:04:05 GMT" .rfc822Datetime sampleTime rfl rfl rfl).mpr
  constructor
  · intro digits n hRun hNumber
    obtain rfl : "2020".toList = digits := Option.some.inj hRun
    obtain rfl : 2020 = n := Option.some.inj hNumber
    decide
  · intro _ place hPlace hDigits
    obtain rfl : 22 = place := Option.some.inj hPlace
    exact absurd (hDigits ' ' (by decide)) (by decide)

/-- Without a zone the last digit of the seconds is left to the rest of the line. -/
theorem not_keepsDigits_bare :
    readBy .ascii "9 Feb 2020 03:04:05" = some .rfc822Datetime ∧
      parseDatetime .ascii "9 Feb 2020 03:04:05" =
        .ok (some { sampleTime with second := 0, secondValid := by decide }) ∧
      ¬ KeepsDigits .ascii .rfc822Datetime (strip "9 Feb 2020 03:04:05")
        { sampleTime with second := 0, secondValid := by decide } := by
  refine ⟨rfl, rfl, fun hKeeps => ?_⟩
  obtain ⟨n, hNumber, hSecond⟩ := hKeeps .second (by decide)
  have hFive : Unicode.ascii.toNat "05" = some 5 := rfl
  cases hSecond.trans (Option.some.inj (hNumber.symm.trans hFive))

end Spidercheck
