import Spidercheck.Dates.Matching

/-! Every supported text is read as the date and time that it was written for.
The pattern that is meant for it matches, and no earlier one matches with other
fields. -/
namespace Spidercheck

open Text Regex Pattern

variable {u : Unicode} {captures : Captures Char Field} {t : DateTime} {text : Str}

structure Reads (u : Unicode) (captures : Captures Char Field) (t : DateTime) : Prop where
  date : toYearMonthDay u captures = .ok (t.year, t.month, t.day)
  time : toHourMinuteSecond u captures = .ok (t.hour, t.minute, t.second)

/-- The pattern at that place matches the text, and earlier ones read the same if they match. -/
inductive Meant (u : Unicode) (text : Str) (t : DateTime) : List DatePattern → Nat → Prop where
  | own {pattern : DatePattern} {patterns : List DatePattern} {captures : Captures Char Field}
      (hMatch : pattern.match? text = some captures) (hReads : Reads u captures t) :
      Meant u text t (pattern :: patterns) 0
  | later {pattern : DatePattern} {patterns : List DatePattern} {position : Nat}
      (hSame : ∀ captures, pattern.match? text = some captures → Reads u captures t)
      (hRest : Meant u text t patterns position) : Meant u text t (pattern :: patterns) (position + 1)

namespace Meant
variable {pattern : DatePattern} {patterns : List DatePattern} {position : Nat}

/-- A pattern that does not match reads nothing else. -/
theorem same_of_none (hNone : pattern.match? text = none) :
    ∀ captures, pattern.match? text = some captures → Reads u captures t :=
  fun _ hMatch => nomatch hNone.symm.trans hMatch

/-- An earlier pattern that does not match may be skipped. -/
theorem skip (hNone : pattern.match? text = none) (hRest : Meant u text t patterns position) :
    Meant u text t (pattern :: patterns) (position + 1) :=
  later (same_of_none hNone) hRest

/-- The first match reads the date and time. -/
theorem first (h : Meant u text t patterns position) :
    ∃ captures, patterns.findSome? (·.match? text) = some captures ∧ Reads u captures t := by
  induction h with
  | own hMatch hReads => exact ⟨_, by rw [List.findSome?_cons, hMatch], hReads⟩
  | @later pattern patterns position hSame hRest ih =>
      cases hMatch : pattern.match? text with
      | some captures => exact ⟨captures, by rw [List.findSome?_cons, hMatch], hSame captures hMatch⟩
      | none =>
          obtain ⟨captures, hFirst, hReads⟩ := ih
          exact ⟨captures, by rw [List.findSome?_cons, hMatch, hFirst], hReads⟩

/-- No pattern up to its own reads the text in another way. -/
theorem earlier (h : Meant u text t patterns position) : ∀ pattern ∈ patterns.take (position + 1),
    ∀ captures, pattern.match? text = some captures → Reads u captures t := by
  induction h with
  | own hMatch hReads =>
      intro pattern hMem captures' hMatch'
      obtain rfl := List.mem_singleton.mp hMem
      obtain rfl := Option.some.inj (hMatch.symm.trans hMatch')
      exact hReads
  | later hSame hRest ih =>
      intro pattern hMem
      rcases List.mem_cons.mp hMem with rfl | hMem
      · exact hSame
      · exact ih pattern hMem

end Meant

section Fields
variable {d m y hour minute second : Str} {year : Nat}

/-- The month is read as a number or looked up by its name. -/
def ReadsMonth (u : Unicode) (m : Str) (month : Nat) : Prop :=
  (if u.allDigits m then toInteger u m else monthOf (u.upper m)) = .ok month

theorem Numeral.readsMonth {n : Nat} (h : Numeral m n) (u : Unicode) : ReadsMonth u m n := by
  rw [ReadsMonth, if_pos (h.allDigits u), h.toInteger u]

theorem MonthName.readsMonth (name : MonthName) (u : Unicode) : ReadsMonth u name.text name.month := by
  rw [ReadsMonth, name.allDigits u, if_neg (by decide), name.monthOf u]

/-- The texts of a date give its year, month and day. -/
theorem toYearMonthDay_eq (hDay : captures.lookup .day = some d) (hMonth : captures.lookup .month = some m)
    (hYear : captures.lookup .year = some y) (hd : Numeral d t.day) (hm : ReadsMonth u m t.month)
    (hy : Numeral y year) (hFull : (if year ≤ 100 then year + 2000 else year) = t.year) :
    toYearMonthDay u captures = .ok (t.year, t.month, t.day) := by
  rw [ReadsMonth] at hm
  split at hm
  · next hDigits =>
    simp [toYearMonthDay, groupOf, hDay, hMonth, hYear, hd.toInteger u, hDigits, hm, hy.toInteger u, hFull]
  · next hDigits =>
    simp [toYearMonthDay, groupOf, hDay, hMonth, hYear, hd.toInteger u, hDigits, hm, hy.toInteger u, hFull]

/-- The texts of a time give its hour, minute and second. -/
theorem toHourMinuteSecond_eq (hHour : captures.lookup .hour = some hour)
    (hMinute : captures.lookup .minute = some minute) (hSecond : captures.lookup .second = some second)
    (hh : Numeral hour t.hour) (hm : Numeral minute t.minute) (hs : Numeral second t.second) :
    toHourMinuteSecond u captures = .ok (t.hour, t.minute, t.second) := by
  simp [toHourMinuteSecond, hHour, hMinute, hSecond, hh.toInteger u, hm.toInteger u, hs.toInteger u]

/-- A match without an hour is read as midnight. -/
theorem reads_midnight (hNone : captures.lookup .hour = none)
    (hDate : toYearMonthDay u captures = .ok (t.year, t.month, t.day)) : Reads u captures t.midnight :=
  ⟨hDate, by simp [toHourMinuteSecond, hNone, DateTime.midnight]⟩

end Fields

section Forms

/-- Years from 1000 on are taken as they are. -/
theorem full_year {year : Nat} (h : 1000 ≤ year) : (if year ≤ 100 then year + 2000 else year) = year :=
  if_neg (by omega)

theorem MonthName.alphanums (name : MonthName) : Word Char.isAlphanum name.text :=
  ⟨name.ne_nil, name.isAlphanum⟩

theorem MonthName.words (name : MonthName) : Word u.isWord name.text :=
  ⟨name.ne_nil, fun c hc => Unicode.isWord_of_isAlphanum (name.isAlphanum c hc)⟩

theorem MonthText.alphanums (month : MonthText) {n : Nat} (h : n < 100) :
    Word Char.isAlphanum (month.write n) := by
  cases month with
  | number width => exact (width.numeral h).alphanums
  | named name => exact name.alphanums

/-- Every text of a month is read as that month. -/
theorem MonthText.readsMonth (month : MonthText) {n : Nat} (h : n < 100) (hNames : month.Names n) :
    ReadsMonth u (month.write n) n := by
  cases month with
  | number width => exact (width.numeral h).readsMonth u
  | named name =>
      obtain rfl : name.month = n := hNames
      exact name.readsMonth u

theorem meant_dmy (day : Width) (sep : { c : Char // isSeparator c = true }) (month : MonthText)
    (sep' : { c : Char // isSeparator c = true }) (h : (Form.dmy (u := u) day sep month sep').Suits t) :
    Meant u ((Form.dmy (u := u) day sep month sep').write t) t.midnight (parsers u) 0 := by
  obtain ⟨hYear, hNames⟩ := h
  have hDay : Numeral (day.write t.day) t.day := day.numeral t.day_lt
  refine .own (dmy_match hDay sep.2 (month.alphanums t.month_lt) sep'.2 (numeral_year t)
    (length_fourDigits _)) (reads_midnight rfl ?_)
  exact toYearMonthDay_eq rfl rfl rfl hDay (month.readsMonth t.month_lt hNames) (numeral_year t)
    (full_year hYear)

theorem date_dateCaptures (hYear : 1000 ≤ t.year) (more : Captures Char Field) :
    toYearMonthDay u (dateCaptures t ++ more) = .ok (t.year, t.month, t.day) :=
  toYearMonthDay_eq rfl rfl rfl (numeral_day t) ((numeral_month t).readsMonth u) (numeral_year t)
    (full_year hYear)

/-- The groups of a date give midnight of the day. -/
theorem reads_date (hYear : 1000 ≤ t.year) : Reads u (dateCaptures t) t.midnight :=
  reads_midnight rfl (date_dateCaptures hYear [])

/-- The groups of a date and time give it. -/
theorem reads_datetime (hYear : 1000 ≤ t.year) : Reads u (dateCaptures t ++ timeCaptures t) t :=
  ⟨date_dateCaptures hYear _,
    toHourMinuteSecond_eq rfl rfl rfl (numeral_hour t) (numeral_minute t) (numeral_second t)⟩

/-- A date with the year in front does not match the first pattern. -/
theorem dmy_none_of_isoDate (t : DateTime) {rest : Str} (hEnds : Ends u.isDecimal rest) :
    (patDmy u).match? (isoDate t ++ rest) = none := by
  rw [isoDate, List.append_assoc, List.cons_append, List.append_assoc, List.cons_append]
  have hShort : (twoDigits t.day).length < 4 := by
    rw [length_twoDigits]
    decide
  exact dmy_none_of_shorter (numeral_year t) (by decide) (numeral_month t).alphanums (by decide) hShort hEnds

theorem digits_basicDate (t : DateTime) : Word u.isDecimal (basicDate t) :=
  ((numeral_year t).decimals u).append (((numeral_month t).decimals u).append ((numeral_day t).decimals u))

theorem isDecimal_of_isTimeMark {c : Char} (h : isTimeMark c = true) : u.isDecimal c = false := by
  obtain rfl | rfl : c = ' ' ∨ c = 'T' := by simpa [isTimeMark] using h
  · exact Punctuation.isDecimal (by decide)
  · exact isDecimal_of_isAlpha (by decide)

theorem meant_datetimeExt (mark : { c : Char // isTimeMark c = true }) (offset : Option Offset)
    (hYear : 1000 ≤ t.year) :
    Meant u ((Form.datetimeExt (u := u) mark offset).write t) t (parsers u) 1 :=
  .skip (dmy_none_of_isoDate t (ends_cons.mpr (isDecimal_of_isTimeMark mark.2))) <|
    .own (datetimeExt_match t offset mark.2) (reads_datetime hYear)

theorem meant_datetimeBasic (hYear : 1000 ≤ t.year) :
    Meant u ((Form.datetimeBasic (u := u)).write t) t (parsers u) 2 := by
  have hDigits : Word u.isDecimal ((Form.datetimeBasic (u := u)).write t) :=
    (digits_basicDate t).append (((numeral_hour t).decimals u).append
      (((numeral_minute t).decimals u).append ((numeral_second t).decimals u)))
  exact .skip (dmy_none_of_digits hDigits) <| .skip (ext_none_of_basicDate t) <|
    .own (datetimeBasic_match t) (reads_datetime hYear)

theorem meant_dateBasic (hYear : 1000 ≤ t.year) :
    Meant u ((Form.dateBasic (u := u)).write t) t.midnight (parsers u) 3 := by
  have hExt : (patIso8601DatetimeExtBasic u).match? (basicDate t ++ []) = none := ext_none_of_basicDate t
  rw [List.append_nil] at hExt
  exact .skip (dmy_none_of_digits (digits_basicDate t)) <| .skip hExt <| .skip (datetimeBasic_none t) <|
    .own (dateBasic_match t) (reads_date hYear)

theorem meant_dateExt (hYear : 1000 ≤ t.year) :
    Meant u ((Form.dateExt (u := u)).write t) t.midnight (parsers u) 4 := by
  have hDmy : (patDmy u).match? (isoDate t ++ []) = none := dmy_none_of_isoDate t ends_nil
  rw [List.append_nil] at hDmy
  exact .skip hDmy <| .skip (datetimeExt_none t) <| .skip (basic_none_of_isoDate t) <|
    .skip (basic_none_of_isoDate t) <| .own (dateExt_match t) (reads_date hYear)

/-- A text without a year in front gets past the patterns of ISO 8601. -/
theorem meant_of_short (front : Str) {rest : Str} {patterns : List DatePattern} {position : Nat}
    (hShort : front.length < 4) (hEnds : Ends u.isDecimal rest)
    (hDmy : ∀ captures, (patDmy u).match? (front ++ rest) = some captures → Reads u captures t)
    (hRest : Meant u (front ++ rest) t patterns position) :
    Meant u (front ++ rest) t (patDmy u :: patIso8601DatetimeExtBasic u :: patIso8601DatetimeBasic u ::
      patIso8601DateBasic u :: patIso8601DateExt u :: patterns) (position + 5) :=
  .later hDmy <| .skip (year_none hShort hEnds) <| .skip (year_none hShort hEnds) <|
    .skip (year_none hShort hEnds) <| .skip (year_none hShort hEnds) hRest

/-- A day of the month in front. -/
theorem meant_of_day (day : Width) {c : Char} {rest : Str} {patterns : List DatePattern} {position : Nat}
    (hMark : Punctuation c)
    (hDmy : ∀ captures, (patDmy u).match? (day.write t.day ++ c :: rest) = some captures →
      Reads u captures t)
    (hRest : Meant u (day.write t.day ++ c :: rest) t patterns position) :
    Meant u (day.write t.day ++ c :: rest) t (patDmy u :: patIso8601DatetimeExtBasic u ::
      patIso8601DatetimeBasic u :: patIso8601DateBasic u :: patIso8601DateExt u :: patterns) (position + 5) :=
  meant_of_short (day.write t.day) (Nat.lt_of_le_of_lt (day.length_write t.day) (by decide))
    (ends_mark hMark rest) hDmy hRest

/-- A day of the week in front. -/
theorem meant_of_weekday (w : Weekday u) {rest : Str} {patterns : List DatePattern} {position : Nat}
    (hRest : Meant u (Weekday.write (some w) ++ rest) t patterns position) :
    Meant u (Weekday.write (some w) ++ rest) t (patDmy u :: patIso8601DatetimeExtBasic u ::
      patIso8601DatetimeBasic u :: patIso8601DateBasic u :: patIso8601DateExt u :: patterns) (position + 5) :=
  meant_of_short [] (by decide) (w.ends rest) (Meant.same_of_none (dmy_none_of_ends (w.ends rest))) hRest

theorem meant_rfcDatetime (weekday : Option (Weekday u)) (day : Width) (month : MonthName) (zone : Zone)
    (hYear : 1000 ≤ t.year) (hNames : month.month = t.month) :
    Meant u ((Form.rfcDatetime weekday day month zone).write t) t (parsers u) 5 := by
  have hDay : Numeral (day.write t.day) t.day := day.numeral t.day_lt
  have hOwn : Meant u ((Form.rfcDatetime weekday day month zone).write t) t ((parsers u).drop 5) 0 := by
    refine .own (rfcDatetime_match weekday hDay (day.length_write _) month.words (numeral_year t)
      (numeral_hour t) (numeral_minute t) (numeral_second t) zone) ⟨?_, ?_⟩
    · exact toYearMonthDay_eq rfl rfl rfl hDay (hNames ▸ month.readsMonth u) (numeral_year t)
        (full_year hYear)
    · exact toHourMinuteSecond_eq rfl rfl rfl (numeral_hour t) (numeral_minute t) (numeral_second t)
  cases weekday with
  | some w => exact meant_of_weekday w hOwn
  | none =>
      refine meant_of_day day (by decide) (Meant.same_of_none ?_) hOwn
      exact dmy_none_of_longer hDay (by decide) month.alphanums (by decide) (numeral_year t)
        (length_fourDigits _)

theorem meant_rfcDate (weekday : Option (Weekday u)) (day : Width) (month : MonthName)
    (hYear : 1000 ≤ t.year) (hNames : month.month = t.month) :
    Meant u ((Form.rfcDate weekday day month).write t) t.midnight (parsers u) 6 := by
  have hDay : Numeral (day.write t.day) t.day := day.numeral t.day_lt
  have hReads : Reads u [(.day, day.write t.day), (.month, month.text), (.year, fourDigits t.year)]
      t.midnight :=
    reads_midnight rfl (toYearMonthDay_eq rfl rfl rfl hDay (hNames ▸ month.readsMonth u)
      (numeral_year t) (full_year hYear))
  have hOwn : Meant u ((Form.rfcDate weekday day month).write t) t.midnight ((parsers u).drop 5) 1 :=
    .skip (rfcDatetime_none weekday hDay (day.length_write _) month.words (numeral_year t)) <|
      .own (rfcDate_match weekday hDay (day.length_write _) month.words (numeral_year t)) hReads
  cases weekday with
  | some w => exact meant_of_weekday w hOwn
  | none =>
      -- without a day of the week the text is one of the first pattern as well
      refine meant_of_day (t := t.midnight) day (by decide) ?_ hOwn
      intro captures hMatch
      have hDmy : (patDmy u).match? (day.write t.day ++ ' ' :: (month.text ++ ' ' :: fourDigits t.year)) =
          some [(.day, day.write t.day), (.month, month.text), (.year, fourDigits t.year)] :=
        dmy_match hDay (by decide) month.alphanums (by decide) (numeral_year t) (length_fourDigits _)
      obtain rfl := Option.some.inj (hDmy.symm.trans hMatch)
      exact hReads

/-- Both patterns of RFC 822 ask for a year after the month. -/
theorem meant_completa (day : Width) (month : MonthName) (hYear : 1000 ≤ t.year)
    (hNames : month.month = t.month) :
    Meant u ((Form.completa (u := u) day month).write t) t.midnight (parsers u) 7 := by
  have hDay : Numeral (day.write t.day) t.day := day.numeral t.day_lt
  have hShort : (day.write t.day).length ≤ 2 := day.length_write t.day
  have hDeLetters : Word Char.isAlphanum ['d', 'e'] := ⟨by decide, List.all_eq_true.mp (by decide)⟩
  have hDe : Word u.isWord ['d', 'e'] :=
    ⟨hDeLetters.1, fun c hc => Unicode.isWord_of_isAlphanum (hDeLetters.2 c hc)⟩
  have hEnds : Ends u.isDecimal (month.text ++ ' ' :: 'd' :: 'e' :: ' ' :: fourDigits t.year) :=
    ends_append ⟨month.ne_nil, month.letters⟩ fun _ hc => isDecimal_of_isAlpha hc
  have hDmy : (patDmy u).match? (day.write t.day ++ ' ' :: (['d', 'e'] ++ ' ' ::
      ([] ++ (month.text ++ ' ' :: 'd' :: 'e' :: ' ' :: fourDigits t.year)))) = none :=
    dmy_none_of_shorter hDay (by decide) hDeLetters (by decide) (by decide) hEnds
  refine meant_of_day (t := t.midnight) day (by decide) (Meant.same_of_none hDmy) <|
    .skip (rfc_none_of_ends hDay hShort hDe hEnds) <| .skip (rfc_none_of_ends hDay hShort hDe hEnds) <|
    .own (completa_match hDay ⟨month.ne_nil, month.letters⟩ (numeral_year t)) ?_
  · exact reads_midnight rfl (toYearMonthDay_eq rfl rfl rfl hDay (hNames ▸ month.readsMonth u)
      (numeral_year t) (full_year hYear))

theorem isSeparator_of_isSlash {c : Char} (h : isSlash c = true) : isSeparator c = true := by
  obtain rfl | rfl : c = '/' ∨ c = '-' := by simpa [isSlash] using h
  · rfl
  · rfl

/-- Neither RFC 822 nor `D de MES de YYYY` has a slash after the day. -/
theorem meant_of_slash (day : Width) {c : Char} {rest : Str} {patterns : List DatePattern} {position : Nat}
    (hSlash : isSlash c = true) (hDmy : (patDmy u).match? (day.write t.day ++ c :: rest) = none)
    (hRest : Meant u (day.write t.day ++ c :: rest) t patterns position) :
    Meant u (day.write t.day ++ c :: rest) t (patDmy u :: patIso8601DatetimeExtBasic u ::
      patIso8601DatetimeBasic u :: patIso8601DateBasic u :: patIso8601DateExt u :: patRfc822Datetime u ::
      patRfc822Date u :: patFechaCompleta u :: patterns) (position + 8) := by
  have hDay : Numeral (day.write t.day) t.day := day.numeral t.day_lt
  have hShort : (day.write t.day).length ≤ 2 := day.length_write t.day
  have hMark : Punctuation c := punctuation_of_isSlash hSlash
  have hNe : c ≠ ' ' := by
    rintro rfl
    exact absurd hSlash (by decide)
  exact meant_of_day day hMark (Meant.same_of_none hDmy) <|
    .skip (rfc_none_of_mark hDay hShort hMark hNe) <| .skip (rfc_none_of_mark hDay hShort hMark hNe) <|
    .skip (completa_none hDay hMark hNe) hRest

theorem meant_hora (day month : Width) (fraction : Fraction) (hYear : 1000 ≤ t.year) :
    Meant u ((Form.hora (u := u) day month fraction).write t) t (parsers u) 8 := by
  have hDay : Numeral (day.write t.day) t.day := day.numeral t.day_lt
  have hMonth : Numeral (month.write t.month) t.month := month.numeral t.month_lt
  refine meant_of_slash day (by decide) ?_ <|
    .own (hora_match hDay hMonth (numeral_year t) t fraction) ⟨?_, ?_⟩
  · exact dmy_none_of_longer hDay (by decide) hMonth.alphanums (by decide) (numeral_year t)
      (length_fourDigits _)
  · exact toYearMonthDay_eq rfl rfl rfl hDay (hMonth.readsMonth u) (numeral_year t) (full_year hYear)
  · exact toHourMinuteSecond_eq rfl rfl rfl (numeral_hour t) (numeral_minute t) (numeral_second t)

section Slashes
variable (day : Width) (slash : { c : Char // isSlash c = true }) (month : Width)
  (slash' : { c : Char // isSlash c = true }) (hour minute second : Width)

/-- The patterns before those with slashes leave the text alone. -/
theorem meant_of_slashes {year : Str} {ny position : Nat} {patterns : List DatePattern}
    (hy : Numeral year ny) (hDmy : (patDmy u).match? (day.write t.day ++ slash.1 :: (month.write t.month ++
      slash'.1 :: (year ++ ' ' :: clock (hour.write t.hour) (minute.write t.minute) (second.write t.second)))) =
        none)
    (hRest : Meant u (day.write t.day ++ slash.1 :: (month.write t.month ++ slash'.1 :: (year ++ ' ' ::
      clock (hour.write t.hour) (minute.write t.minute) (second.write t.second)))) t patterns position) :
    Meant u (day.write t.day ++ slash.1 :: (month.write t.month ++ slash'.1 :: (year ++ ' ' ::
      clock (hour.write t.hour) (minute.write t.minute) (second.write t.second)))) t
      (patDmy u :: patIso8601DatetimeExtBasic u :: patIso8601DatetimeBasic u :: patIso8601DateBasic u ::
        patIso8601DateExt u :: patRfc822Datetime u :: patRfc822Date u :: patFechaCompleta u ::
        patFechaHora u :: patterns) (position + 9) := by
  refine meant_of_slash day slash.2 hDmy (.skip ?_ hRest)
  exact hora_none (day.numeral t.day_lt) (month.numeral t.month_lt) hy slash.2 slash'.2
    (hour.numeral t.hour_lt) (hour.length_write _) (minute.numeral t.minute_lt) (minute.length_write _)
    (second.numeral t.second_lt) (second.length_write _)

/-- The texts with slashes are read by their own pattern. -/
theorem meant_own_slashes {year : Str} {ny length : Nat} {patterns : List DatePattern}
    (hy : Numeral year ny) (hLength : year.length = length)
    (hFull : (if ny ≤ 100 then ny + 2000 else ny) = t.year) :
    Meant u (day.write t.day ++ slash.1 :: (month.write t.month ++ slash'.1 :: (year ++ ' ' ::
      clock (hour.write t.hour) (minute.write t.minute) (second.write t.second)))) t
      (.all [oneOrTwo u .day, .char isSlash, oneOrTwo u .month, .char isSlash, digits u length .year, is ' ',
        number u .hour, is ':', number u .minute, is ':', number u .second, atEnd] :: patterns) 0 := by
  have hDay : Numeral (day.write t.day) t.day := day.numeral t.day_lt
  have hMonth : Numeral (month.write t.month) t.month := month.numeral t.month_lt
  have hHour : Numeral (hour.write t.hour) t.hour := hour.numeral t.hour_lt
  have hMinute : Numeral (minute.write t.minute) t.minute := minute.numeral t.minute_lt
  have hSecond : Numeral (second.write t.second) t.second := second.numeral t.second_lt
  refine .own (slashes_match hDay (day.length_write _) hMonth (month.length_write _) hy hLength slash.2
    slash'.2 hHour hMinute hSecond) ⟨?_, ?_⟩
  · exact toYearMonthDay_eq rfl rfl rfl hDay (hMonth.readsMonth u) hy hFull
  · exact toHourMinuteSecond_eq rfl rfl rfl hHour hMinute hSecond

theorem meant_longYear (hYear : 1000 ≤ t.year) :
    Meant u ((Form.longYear (u := u) day slash month slash' hour minute second).write t) t (parsers u) 9 := by
  refine meant_of_slashes day slash month slash' hour minute second (numeral_year t) ?_ <|
    meant_own_slashes day slash month slash' hour minute second (numeral_year t) (length_fourDigits _)
      (full_year hYear)
  exact dmy_none_of_longer (day.numeral t.day_lt) (isSeparator_of_isSlash slash.2)
    (month.numeral t.month_lt).alphanums (isSeparator_of_isSlash slash'.2) (numeral_year t)
    (length_fourDigits _)

theorem meant_shortYear (hYear : 2000 ≤ t.year ∧ t.year ≤ 2099) :
    Meant u ((Form.shortYear (u := u) day slash month slash' hour minute second).write t) t
      (parsers u) 10 := by
  have hFull : (if t.year % 100 ≤ 100 then t.year % 100 + 2000 else t.year % 100) = t.year := by
    rw [if_pos (Nat.le_of_lt (Nat.mod_lt _ (by decide)))]
    omega
  have hShort : (twoDigits t.year).length < 4 := by
    rw [length_twoDigits]
    decide
  refine meant_of_slashes day slash month slash' hour minute second (numeral_two_mod t.year) ?_ <|
    .skip ?_ <|
    meant_own_slashes day slash month slash' hour minute second (numeral_two_mod t.year)
      (length_twoDigits _) hFull
  · exact dmy_none_of_shorter (day.numeral t.day_lt) (isSeparator_of_isSlash slash.2)
      (month.numeral t.month_lt).alphanums (isSeparator_of_isSlash slash'.2) hShort (ends_mark (by decide) _)
  · exact longYear_none (day.numeral t.day_lt) (day.length_write _) (month.numeral t.month_lt)
      (month.length_write _) hShort slash.2 slash'.2

end Slashes

/-- Each form is read by the pattern that is meant for it, and the earlier ones read
the same if they match. -/
theorem Form.meant (form : Form u) (h : form.Suits t) :
    Meant u (form.write t) (form.read t) (parsers u) form.position := by
  cases form with
  | dmy day sep month sep' => exact meant_dmy day sep month sep' h
  | datetimeExt mark offset => exact meant_datetimeExt mark offset h
  | datetimeBasic => exact meant_datetimeBasic h
  | dateBasic => exact meant_dateBasic h
  | dateExt => exact meant_dateExt h
  | rfcDatetime weekday day month zone => exact meant_rfcDatetime weekday day month zone h.1 h.2
  | rfcDate weekday day month => exact meant_rfcDate weekday day month h.1 h.2
  | completa day month => exact meant_completa day month h.1 h.2
  | hora day month fraction => exact meant_hora day month fraction h
  | longYear day slash month slash' hour minute second =>
      exact meant_longYear day slash month slash' hour minute second h
  | shortYear day slash month slash' hour minute second =>
      exact meant_shortYear day slash month slash' hour minute second h

end Forms

section Strip
variable {s : Str} {n : Nat}

theorem Numeral.visible (h : Numeral s n) : ∀ c ∈ s, isSpace c = false :=
  fun c hc => isSpace_of_isAlphanum (by simp [h.alphanums.2 c hc])

theorem Numeral.opens (h : Numeral s n) : Opens s := by
  obtain ⟨c, rest, rfl⟩ := List.exists_cons_of_ne_nil h.isWord.1
  exact ⟨c, rest, rfl, h.visible c (List.mem_cons_self ..)⟩

theorem closes_of_visible (hNonempty : s ≠ []) (h : ∀ c ∈ s.getLast?, isSpace c = false) : Closes s :=
  ⟨s.dropLast, s.getLast hNonempty, (List.dropLast_append_getLast hNonempty).symm,
    h _ (List.getLast?_eq_some_getLast hNonempty)⟩

theorem Numeral.closes (h : Numeral s n) : Closes s :=
  closes_of_visible h.isWord.1 fun c hc => h.visible c (List.mem_of_getLast? hc)

theorem Weekday.opens (weekday : Option (Weekday u)) (hRest : Opens s) :
    Opens (Weekday.write weekday ++ s) := by
  cases weekday with
  | none => exact hRest
  | some w =>
      obtain ⟨c, rest, hText, hWord, -⟩ := w.exists_cons
      rw [Weekday.write, hText]
      exact ⟨c, _, rfl, u.isSpace_of_isWord c hWord⟩

theorem closes_clockOf (t : DateTime) : Closes (clockOf t) :=
  ((((numeral_second t).closes.cons _).append _).cons _).append _

theorem Offset.closes (offset : Option Offset) (hFront : Closes s) : Closes (s ++ Offset.write offset) := by
  cases offset with
  | none => simpa [Offset.write] using hFront
  | some offset =>
      have hMinutes : Closes (twoDigits offset.minutes) := (numeral_two_mod offset.minutes).closes
      exact (((hMinutes.cons _).append _).cons _).append s

/-- No form begins with white space. -/
theorem Form.opens (form : Form u) (t : DateTime) : Opens (form.write t) := by
  have hDay (day : Width) (rest : Str) : Opens (day.write t.day ++ rest) :=
    (day.numeral t.day_lt).opens.append rest
  have hYear (rest : Str) : Opens (fourDigits t.year ++ rest) := (numeral_year t).opens.append rest
  cases form with
  | dmy day => exact hDay day _
  | datetimeExt => exact (hYear _).append _
  | datetimeBasic => exact (hYear _).append _
  | dateBasic => exact hYear _
  | dateExt => exact hYear _
  | rfcDatetime weekday day => exact Weekday.opens weekday (hDay day _)
  | rfcDate weekday day => exact Weekday.opens weekday (hDay day _)
  | completa day => exact hDay day _
  | hora day => exact hDay day _
  | longYear day => exact hDay day _
  | shortYear day => exact hDay day _

/-- No form ends with white space. -/
theorem Form.closes (form : Form u) (t : DateTime) : Closes (form.write t) := by
  have hYear : Closes (fourDigits t.year) := (numeral_year t).closes
  have hDay : Closes (twoDigits t.day) := (numeral_day t).closes
  have hClock (hour minute second : Width) (front : Str) : Closes (front ++ ' ' ::
      clock (hour.write t.hour) (minute.write t.minute) (second.write t.second)) :=
    ((((((second.numeral t.second_lt).closes.cons _).append _).cons _).append _).cons _).append front
  cases form with
  | dmy day sep month sep' => exact (((hYear.cons _).append _).cons _).append _
  | datetimeExt mark offset => exact ((Offset.closes offset (closes_clockOf t)).cons _).append _
  | datetimeBasic => exact (((numeral_second t).closes.append _).append _).append _
  | dateBasic => exact (hDay.append _).append _
  | dateExt => exact (((hDay.cons _).append _).cons _).append _
  | rfcDatetime weekday day month zone =>
      have hZone : Closes zone.text := closes_of_visible zone.nonempty zone.trimmed
      exact ((((((((hZone.cons _).append _).cons _).append _).cons _).append _).cons _).append _).append _
  | rfcDate weekday day month => exact ((((hYear.cons _).append _).cons _).append _).append _
  | completa day month =>
      exact (((((((((hYear.cons _).cons _).cons _).cons _).append _).cons _).cons _).cons _).cons _).append _
  | hora day month fraction =>
      have hFraction : Closes fraction.text := by
        refine closes_of_visible fraction.isWord.1 fun c hc => isSpace_of_isAlphanum ?_
        simp [Char.isAlphanum, fraction.isWord.2 c (List.mem_of_getLast? hc)]
      exact (((((((hFraction.cons _).append _).cons _).append _).cons _).append _).cons _).append _
  | longYear day slash month slash' hour minute second =>
      exact ((((hClock hour minute second _).cons _).append _).cons _).append _
  | shortYear day slash month slash' hour minute second =>
      exact ((((hClock hour minute second _).cons _).append _).cons _).append _

end Strip

section Make

theorem toCInt_of_lt {n : Nat} (h : n < 10000) : toCInt n = .ok n :=
  if_pos (Nat.lt_trans h (by decide))

theorem Date.check_self (d : Date) : Date.check d.year d.month d.day = .ok d := by
  simp [Date.check, d.yearValid, d.monthValid, d.dayValid]

theorem Date.make_self (d : Date) : Date.make d.year d.month d.day = .ok d := by
  have hYear : d.year < 10000 := Nat.lt_succ_of_le d.yearValid.2
  have hMonth : d.month < 10000 := Nat.lt_of_le_of_lt d.monthValid.2 (by decide)
  have hDay : d.day < 10000 :=
    Nat.lt_of_le_of_lt (d.dayValid.2.trans (daysInMonth_le _ _)) (by decide)
  simp [Date.make, toCInt_of_lt hYear, toCInt_of_lt hMonth, toCInt_of_lt hDay, d.check_self]

/-- A date and time can be made again from its parts. -/
theorem DateTime.make_self (t : DateTime) :
    DateTime.make t.year t.month t.day t.hour t.minute t.second = .ok t := by
  have hYear : t.year < 10000 := Nat.lt_succ_of_le t.yearValid.2
  have hSmall {n : Nat} (h : n < 100) : n < 10000 := Nat.lt_trans h (by decide)
  rw [DateTime.make, toCInt_of_lt hYear, toCInt_of_lt (hSmall t.month_lt), toCInt_of_lt (hSmall t.day_lt),
    toCInt_of_lt (hSmall t.hour_lt), toCInt_of_lt (hSmall t.minute_lt), toCInt_of_lt (hSmall t.second_lt)]
  simp only [ok_bind, t.toDate.check_self]
  rw [dif_pos t.hourValid, dif_pos t.minuteValid, dif_pos t.secondValid]
  rfl

end Make

/-- A supported text with white space around it is parsed to the date and time
that it was written for, and no pattern up to its own reads it differently. -/
theorem forms_parsed (u : Unicode) (form : Form u) (t : DateTime) (h : form.Suits t) (left right : Str)
    (hLeft : ∀ c ∈ left, isSpace c = true) (hRight : ∀ c ∈ right, isSpace c = true) :
    parseDatetime u (left ++ form.write t ++ right) = .ok (some (form.read t)) ∧
      parseDate u (left ++ form.write t ++ right) = .ok (some t.toDate) ∧
      ∀ pattern ∈ (parsers u).take (form.position + 1), ∀ captures,
        pattern.match? (form.write t) = some captures → Reads u captures (form.read t) := by
  have hStrip : strip (left ++ form.write t ++ right) = form.write t :=
    strip_pad hLeft hRight (form.opens t) (form.closes t)
  have hNonempty : form.write t ≠ [] := by
    obtain ⟨c, rest, hText, -⟩ := form.opens t
    simp [hText]
  have hDate : (form.read t).toDate = t.toDate := by
    rw [Form.read]
    split <;> rfl
  obtain ⟨captures, hFirst, hReads⟩ := (form.meant h).first
  refine ⟨?_, ?_, (form.meant h).earlier⟩
  · rw [parseDatetime, hStrip]
    simp [hNonempty, hFirst, hReads.date, hReads.time, DateTime.make_self]
  · rw [parseDate, hStrip]
    simp [hNonempty, hFirst, hReads.date, Date.make_self, hDate]

def sampleTime : DateTime where
  year := 2020
  month := 2
  day := 9
  hour := 3
  minute := 4
  second := 5
  yearValid := by decide
  monthValid := by decide
  dayValid := by decide
  hourValid := by decide
  minuteValid := by decide
  secondValid := by decide

theorem forms_parsed_rfc :
    parseDatetime .ascii " Sun, 9 Feb 2020 03:04:05 GMT\n" = .ok (some sampleTime) ∧
      parseDate .ascii " Sun, 9 Feb 2020 03:04:05 GMT\n" = .ok (some sampleTime.toDate) := by
  let sunday : Weekday .ascii :=
    { text := "Sun", length_eq := by decide, letters := List.all_eq_true.mp (by decide),
      notDecimal := fun _ hFirst => Option.some.inj hFirst ▸ rfl }
  let february : MonthName :=
    { text := "Feb", month := 2, letters := List.all_eq_true.mp (by decide), known := by decide }
  let zone : Zone :=
    { text := "GMT", nonempty := by decide, oneLine := List.all_eq_true.mp (by decide),
      trimmed := fun _ hLast => Option.some.inj hLast ▸ rfl }
  have hParsed := forms_parsed .ascii (.rfcDatetime (some sunday) .plain february zone) sampleTime
    ⟨by decide, rfl⟩ " " "\n" (List.all_eq_true.mp (by decide)) (List.all_eq_true.mp (by decide))
  exact ⟨hParsed.1, hParsed.2.1⟩

example : parseDate .ascii "31 de febrero de 2020" =
    .error (valueError "day is out of range for month") := by
  rfl

end Spidercheck
