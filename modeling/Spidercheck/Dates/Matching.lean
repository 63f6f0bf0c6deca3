import Spidercheck.Dates.Patterns

/-! Each pattern on the texts that it is meant for, and on those that a later
pattern is meant for. -/
namespace Spidercheck

open Text Regex Pattern

variable {u : Unicode} {rs : List DatePattern} {captures : Captures Char Field} {β : Type}
  {k : Captures Char Field → Str → Option β} {d m y hour minute second rest : Str}
  {nd nm ny nh ni ns : Nat} {c c' : Char}

section Dmy

theorem run_dmy (hd : Numeral d nd) (hc : isSeparator c = true) (hm : Word Char.isAlphanum m)
    (hc' : isSeparator c' = true) : (patDmy u).match? (d ++ c :: (m ++ c' :: rest)) =
      (all [digits u 4 .year, atEnd]).run [(.day, d), (.month, m)] rest fun captures _ => some captures := by
  have hMark : Punctuation c := punctuation_of_isSeparator hc
  have hMark' : Punctuation c' := punctuation_of_isSeparator hc'
  have hMonth : ∀ c : Char, c.isAlphanum = true → isSeparator c = false :=
    apart_of_punctuation (fun _ hc => hc.2.1) fun _ => punctuation_of_isSeparator
  have hDay : ∀ c, u.isDecimal c = true → isSeparator c = false :=
    apart_of_punctuation (fun _ hc => hc.isDecimal) fun _ => punctuation_of_isSeparator
  rw [match?, patDmy, number,
    run_group_plus_all (hd.decimals u) (ends_cons.mpr hMark.isDecimal) (apart_plus_all hDay),
    run_plus_all_one hc (ends_append hm hMonth),
    run_group_plus_all hm (ends_cons.mpr hMark'.2.1) (apart_char_all hMonth), run_class hc']
  rfl

/-- A date of day, month and year matches the first pattern. -/
theorem dmy_match (hd : Numeral d nd) (hc : isSeparator c = true) (hm : Word Char.isAlphanum m)
    (hc' : isSeparator c' = true) (hy : Numeral y ny) (hLength : y.length = 4) :
    (patDmy u).match? (d ++ c :: (m ++ c' :: y)) = some [(.day, d), (.month, m), (.year, y)] := by
  rw [run_dmy hd hc hm hc', run_digits_atEnd hy hLength]
  rfl

/-- The text goes on after the year. -/
theorem dmy_none_of_longer (hd : Numeral d nd) (hc : isSeparator c = true) (hm : Word Char.isAlphanum m)
    (hc' : isSeparator c' = true) (hy : Numeral y ny) (hLength : y.length = 4) :
    (patDmy u).match? (d ++ c :: (m ++ c' :: (y ++ ' ' :: rest))) = none := by
  rw [run_dmy hd hc hm hc', run_digits hy hLength, run_atEnd_ne (by decide)]

/-- There are less than four digits after the second separator. -/
theorem dmy_none_of_shorter (hd : Numeral d nd) (hc : isSeparator c = true) (hm : Word Char.isAlphanum m)
    (hc' : isSeparator c' = true) (hShort : y.length < 4) (hEnds : Ends u.isDecimal rest) :
    (patDmy u).match? (d ++ c :: (m ++ c' :: (y ++ rest))) = none := by
  rw [run_dmy hd hc hm hc', run_digits_none hShort hEnds]

/-- A run of digits is no such date. -/
theorem dmy_none_of_digits (h : Word u.isDecimal d) : (patDmy u).match? d = none := by
  have hRun : (patDmy u).match? (d ++ []) = none := by
    rw [match?, patDmy, number, run_group_plus_all h ends_nil, run_plus_all_ends ends_nil]
    exact apart_plus_all (apart_of_punctuation (fun _ hc => hc.isDecimal) fun _ => punctuation_of_isSeparator)
  rwa [List.append_nil] at hRun

theorem dmy_none_of_ends (h : Ends u.isDecimal d) : (patDmy u).match? d = none :=
  run_number_ends h

end Dmy

section Iso
variable (t : DateTime)

/-- A year of four digits is missing. -/
theorem year_none (hShort : d.length < 4) (hEnds : Ends u.isDecimal rest) :
    (all (digits u 4 .year :: rs)).match? (d ++ rest) = none :=
  run_digits_none hShort hEnds

def dateCaptures (t : DateTime) : Captures Char Field :=
  [(.year, fourDigits t.year), (.month, twoDigits t.month), (.day, twoDigits t.day)]

def timeCaptures (t : DateTime) : Captures Char Field :=
  [(.hour, twoDigits t.hour), (.minute, twoDigits t.minute), (.second, twoDigits t.second)]

theorem digit_ne {n : Nat} (hMark : Punctuation c) : digit n ≠ c := by
  rintro rfl
  have hNot : (digit n).isDigit = false := (Bool.or_eq_false_iff.mp hMark.2.1).2
  rw [isDigit_digit] at hNot
  cases hNot

/-- `YYYY-MM-DD` and what follows. -/
theorem run_isoDate :
    (all (digits u 4 .year :: is '-' :: digits u 2 .month :: is '-' :: digits u 2 .day :: rs)).run []
      (isoDate t ++ rest) k = (all rs).run (dateCaptures t) rest k := by
  rw [isoDate, List.append_assoc, List.cons_append, List.append_assoc, List.cons_append,
    run_digits_mark (numeral_year t) (length_fourDigits _),
    run_digits_mark (numeral_month t) (length_twoDigits _), run_digits (numeral_day t) (length_twoDigits _)]
  rfl

/-- `YYYYMMDD` and what follows. -/
theorem run_basicDate :
    (all (digits u 4 .year :: digits u 2 .month :: digits u 2 .day :: rs)).run []
      (basicDate t ++ rest) k = (all rs).run (dateCaptures t) rest k := by
  rw [basicDate, List.append_assoc, List.append_assoc, run_digits (numeral_year t) (length_fourDigits _),
    run_digits (numeral_month t) (length_twoDigits _), run_digits (numeral_day t) (length_twoDigits _)]
  rfl

/-- A date with dashes is not one without. -/
theorem basic_none_of_isoDate :
    (all (digits u 4 .year :: digits u 2 .month :: rs)).run [] (isoDate t) k = none := by
  rw [isoDate, run_digits (numeral_year t) (length_fourDigits _),
    run_digits_ends (ends_mark (by decide) _) (by decide)]

theorem ext_none_of_basicDate :
    (all (digits u 4 .year :: is '-' :: rs)).run [] (basicDate t ++ rest) k = none := by
  rw [basicDate, List.append_assoc, run_digits (numeral_year t) (length_fourDigits _)]
  exact run_is_ne (digit_ne (by decide))

/-- The date of ISO 8601 with hyphens. -/
theorem dateExt_match : (patIso8601DateExt u).match? (isoDate t) = some (dateCaptures t) := by
  rw [match?, patIso8601DateExt, ← List.append_nil (isoDate t), run_isoDate, run_atEnd]

/-- The same without hyphens. -/
theorem dateBasic_match : (patIso8601DateBasic u).match? (basicDate t) = some (dateCaptures t) := by
  rw [match?, patIso8601DateBasic, ← List.append_nil (basicDate t), run_basicDate, run_atEnd]

/-- The date and time of ISO 8601 without marks. -/
theorem datetimeBasic_match : (patIso8601DatetimeBasic u).match?
      (basicDate t ++ (twoDigits t.hour ++ (twoDigits t.minute ++ twoDigits t.second))) =
    some (dateCaptures t ++ timeCaptures t) := by
  rw [match?, patIso8601DatetimeBasic, run_basicDate, run_digits (numeral_hour t) (length_twoDigits _),
    run_digits (numeral_minute t) (length_twoDigits _),
    run_digits_atEnd (numeral_second t) (length_twoDigits _)]
  rfl

theorem datetimeBasic_none : (patIso8601DatetimeBasic u).match? (basicDate t) = none := by
  rw [match?, patIso8601DatetimeBasic, ← List.append_nil (basicDate t), run_basicDate,
    run_digits_ends ends_nil (by decide)]

/-- An offset is passed over. -/
theorem run_offset (offset : Option Offset) :
    (all [.opt (all [.char isSign, .times 2 u.isDecimal, is ':', .times 2 u.isDecimal]), atEnd]).run
      captures (Offset.write offset) k = k captures [] := by
  rw [run_opt_all]
  cases offset with
  | none => rfl
  | some offset =>
      have hSign : offset.sign.1 ≠ '\n' := by
        intro hEq
        exact absurd (hEq ▸ offset.sign.2) (by decide)
      have hDigits (n : Nat) : ∀ c ∈ twoDigits n, u.isDecimal c = true := by
        intro c hc
        rcases List.mem_pair.mp hc with rfl | rfl
        · exact Unicode.isDecimal_of_isDigit (isDigit_digit _)
        · exact Unicode.isDecimal_of_isDigit (isDigit_digit _)
      rw [Offset.write, run_atEnd_ne hSign, Option.or_none, run_class offset.sign.2,
        run_times_all (hDigits offset.hours) (length_twoDigits _), run_is,
        ← List.append_nil (twoDigits offset.minutes),
        run_times_all (hDigits offset.minutes) (length_twoDigits _)]
      rfl

/-- The date and time of ISO 8601 with marks, and perhaps an offset. -/
theorem datetimeExt_match (offset : Option Offset) (hMark : isTimeMark c = true) :
    (patIso8601DatetimeExtBasic u).match? (isoDate t ++ c :: (clockOf t ++ Offset.write offset)) =
      some (dateCaptures t ++ timeCaptures t) := by
  rw [match?, patIso8601DatetimeExtBasic, run_isoDate, run_class hMark, run_clockOf, run_offset]
  rfl

theorem datetimeExt_none : (patIso8601DatetimeExtBasic u).match? (isoDate t) = none := by
  rw [match?, patIso8601DatetimeExtBasic, ← List.append_nil (isoDate t), run_isoDate, run_char_all_nil]

end Iso

section Rfc

/-- The day of the week is skipped if there is one. -/
theorem run_weekday (w : Option (Weekday u)) (hShort : d.length ≤ 2) (hMark : Punctuation c) :
    (all (weekday u :: number u .day :: rs)).run captures (Weekday.write w ++ (d ++ c :: rest)) k =
      (all (number u .day :: rs)).run captures (d ++ c :: rest) k := by
  rw [weekday, run_opt_all]
  cases w with
  | none =>
      have hNone (k : Captures Char Field → Str → Option β) :
          (all [.times 3 u.isWord, is ',', is ' ']).run captures (d ++ c :: rest) k = none :=
        run_times_eq_none (ends_cons.mpr hMark.isWord) (Nat.lt_succ_of_le hShort)
      rw [Weekday.write, List.nil_append, hNone, Option.none_or]
  | some w =>
      have hNone : (all (number u .day :: rs)).run captures
          (Weekday.write (some w) ++ (d ++ c :: rest)) k = none := run_number_ends (w.ends _)
      rw [hNone, Option.or_none, Weekday.write, List.append_assoc, run_times_all w.letters w.length_eq]
      exact run_is.trans run_is

theorem run_rfc (w : Option (Weekday u)) (hd : Numeral d nd) (hShort : d.length ≤ 2)
    (hm : Word u.isWord m) :
    (all (weekday u :: number u .day :: is ' ' :: .group .month (.plus u.isWord) :: is ' ' :: rs)).run []
        (Weekday.write w ++ (d ++ ' ' :: (m ++ ' ' :: rest))) k =
      (all rs).run [(.day, d), (.month, m)] rest k := by
  rw [run_weekday w hShort (by decide), run_number_mark hd (by decide),
    run_word_mark (fun _ hc => hc.isWord) hm (by decide)]
  rfl

/-- The date and time of RFC 822. -/
theorem rfcDatetime_match (w : Option (Weekday u)) (hd : Numeral d nd) (hShort : d.length ≤ 2)
    (hm : Word u.isWord m) (hy : Numeral y ny) (hHour : Numeral hour nh) (hMinute : Numeral minute ni)
    (hSecond : Numeral second ns) (zone : Zone) :
    (patRfc822Datetime u).match? (Weekday.write w ++ (d ++ ' ' :: (m ++ ' ' ::
      (y ++ ' ' :: (clock hour minute second ++ ' ' :: zone.text))))) =
      some [(.day, d), (.month, m), (.year, y), (.hour, hour), (.minute, minute), (.second, second)] := by
  have hZone : Word isAny (' ' :: zone.text) := by
    refine ⟨List.cons_ne_nil _ _, fun c hc => ?_⟩
    rcases List.mem_cons.mp hc with rfl | hc
    · rfl
    · exact zone.oneLine c hc
  have hRest (captures : Captures Char Field) : (all [.plus isAny, atEnd]).run captures
      ((' ' :: zone.text) ++ []) (fun captures _ => some captures) = some captures := by
    rw [run_plus_all hZone ends_nil, run_atEnd]
    exact apart_stop_all fun c hc => by simpa [isAny] using hc
  rw [List.append_nil] at hRest
  rw [match?, patRfc822Datetime, run_rfc w hd hShort hm, run_number_mark hy (by decide),
    run_clock hHour hMinute]
  -- the last digit of the second could be left to the zone, but the longest way comes first
  exact run_group_plus_all_eq_some (hSecond.decimals u) (ends_mark (by decide) _) (hRest _)

/-- A date of RFC 822 without a time is left to the next pattern. -/
theorem rfcDatetime_none (w : Option (Weekday u)) (hd : Numeral d nd) (hShort : d.length ≤ 2)
    (hm : Word u.isWord m) (hy : Numeral y ny) :
    (patRfc822Datetime u).match? (Weekday.write w ++ (d ++ ' ' :: (m ++ ' ' :: y))) = none := by
  rw [match?, patRfc822Datetime, run_rfc w hd hShort hm, run_number_nil hy (by decide)]

/-- The date of RFC 822. -/
theorem rfcDate_match (w : Option (Weekday u)) (hd : Numeral d nd) (hShort : d.length ≤ 2)
    (hm : Word u.isWord m) (hy : Numeral y ny) :
    (patRfc822Date u).match? (Weekday.write w ++ (d ++ ' ' :: (m ++ ' ' :: y))) =
      some [(.day, d), (.month, m), (.year, y)] := by
  rw [match?, patRfc822Date, run_rfc w hd hShort hm, run_number_atEnd hy]
  rfl

/-- After the month there is no year. -/
theorem rfc_none_of_ends (hd : Numeral d nd) (hShort : d.length ≤ 2) (hm : Word u.isWord m)
    (hEnds : Ends u.isDecimal rest) :
    (all (weekday u :: number u .day :: is ' ' :: .group .month (.plus u.isWord) :: is ' ' ::
      number u .year :: rs)).run [] (d ++ ' ' :: (m ++ ' ' :: rest)) k = none := by
  calc
    _ = (all (number u .year :: rs)).run [(.day, d), (.month, m)] rest k := run_rfc none hd hShort hm
    _ = none := run_number_ends hEnds

/-- After the day there is another mark than a space. -/
theorem rfc_none_of_mark (hd : Numeral d nd) (hShort : d.length ≤ 2) (hMark : Punctuation c)
    (hNe : c ≠ ' ') :
    (all (weekday u :: number u .day :: is ' ' :: rs)).run [] (d ++ c :: rest) k = none := by
  calc
    _ = (all (number u .day :: is ' ' :: rs)).run [] (d ++ c :: rest) k := run_weekday none hShort hMark
    _ = none := run_number_mark_ne hd hMark (by decide) hNe

end Rfc

section Completa

/-- A date in Spanish words. -/
theorem completa_match (hd : Numeral d nd) (hm : Word Char.isAlpha m) (hy : Numeral y ny) :
    (patFechaCompleta u).match? (d ++ ' ' :: 'd' :: 'e' :: ' ' :: (m ++ ' ' :: 'd' :: 'e' :: ' ' :: y)) =
      some [(.day, d), (.month, m), (.year, y)] := by
  rw [match?, patFechaCompleta, run_number_mark hd (by decide), run_is, run_is, run_is,
    run_word_mark (fun _ hc => hc.isAlpha) hm (by decide), run_is, run_is, run_is, run_number_atEnd hy]
  rfl

theorem completa_none (hd : Numeral d nd) (hMark : Punctuation c) (hNe : c ≠ ' ') :
    (patFechaCompleta u).match? (d ++ c :: rest) = none :=
  run_number_mark_ne hd hMark (by decide) hNe

end Completa

section Hora

/-- A date and time with a fraction. -/
theorem hora_match (hd : Numeral d nd) (hm : Numeral m nm) (hy : Numeral y ny) (t : DateTime)
    (fraction : Fraction) :
    (patFechaHora u).match? (d ++ '-' :: (m ++ '-' :: (y ++ ' ' :: (clockOf t ++ '.' :: fraction.text)))) =
      some ([(.day, d), (.month, m), (.year, y)] ++ timeCaptures t) := by
  have hFraction : Word u.isDecimal fraction.text :=
    ⟨fraction.isWord.1, fun c hc => Unicode.isDecimal_of_isDigit (fraction.isWord.2 c hc)⟩
  have hStop : Apart u.isDecimal (all [atEnd]) :=
    apart_stop_all (apart_of_mark (fun _ hc => hc.isDecimal) (by decide))
  rw [match?, patFechaHora, run_number_mark hd (by decide), run_number_mark hm (by decide),
    run_number_mark hy (by decide), run_clockOf, run_class (by decide), ← List.append_nil fraction.text,
    run_plus_all hFraction ends_nil hStop, run_atEnd]
  rfl

/-- After the second nothing is left for the fraction. -/
theorem clock_none {p : Char → Bool} (hHour : Numeral hour nh) (hHourShort : hour.length ≤ 2)
    (hMinute : Numeral minute ni) (hMinuteShort : minute.length ≤ 2) (hSecond : Numeral second ns)
    (hSecondShort : second.length ≤ 2) :
    (all (digits u 2 .hour :: is ':' :: digits u 2 .minute :: is ':' :: digits u 2 .second :: .char p ::
      rs)).run captures (clock hour minute second) k = none := by
  have hColon (rest : Str) : Ends u.isDecimal (':' :: rest) := ends_mark (by decide) rest
  rw [clock]
  rcases Nat.lt_or_eq_of_le hHourShort with hLess | hTwo
  · exact run_digits_none hLess (hColon _)
  rw [run_digits_mark hHour hTwo]
  rcases Nat.lt_or_eq_of_le hMinuteShort with hLess | hTwo
  · exact run_digits_none hLess (hColon _)
  rw [run_digits_mark hMinute hTwo, ← List.append_nil second]
  rcases Nat.lt_or_eq_of_le hSecondShort with hLess | hTwo
  · exact run_digits_none hLess ends_nil
  rw [run_digits hSecond hTwo, run_char_all_nil]

/-- Without the hyphens the pattern with a fraction does not match. -/
theorem hora_none (hd : Numeral d nd) (hm : Numeral m nm) (hy : Numeral y ny) (hc : isSlash c = true)
    (hc' : isSlash c' = true) (hHour : Numeral hour nh) (hHourShort : hour.length ≤ 2)
    (hMinute : Numeral minute ni) (hMinuteShort : minute.length ≤ 2) (hSecond : Numeral second ns)
    (hSecondShort : second.length ≤ 2) :
    (patFechaHora u).match? (d ++ c :: (m ++ c' :: (y ++ ' ' :: clock hour minute second))) = none := by
  rw [match?, patFechaHora]
  by_cases hDash : c = '-'
  · subst hDash
    rw [run_number_mark hd (by decide)]
    by_cases hDash' : c' = '-'
    · subst hDash'
      rw [run_number_mark hm (by decide), run_number_mark hy (by decide)]
      exact clock_none hHour hHourShort hMinute hMinuteShort hSecond hSecondShort
    · exact run_number_mark_ne hm (punctuation_of_isSlash hc') (by decide) hDash'
  · exact run_number_mark_ne hd (punctuation_of_isSlash hc) (by decide) hDash

end Hora

section Slashes

/-- A date and time with slashes, with a year of the given length. -/
theorem slashes_match {length : Nat} (hd : Numeral d nd) (hdShort : d.length ≤ 2) (hm : Numeral m nm)
    (hmShort : m.length ≤ 2) (hy : Numeral y ny) (hLength : y.length = length) (hc : isSlash c = true)
    (hc' : isSlash c' = true) (hHour : Numeral hour nh) (hMinute : Numeral minute ni)
    (hSecond : Numeral second ns) :
    (all [oneOrTwo u .day, .char isSlash, oneOrTwo u .month, .char isSlash, digits u length .year, is ' ',
      number u .hour, is ':', number u .minute, is ':', number u .second, atEnd]).match?
        (d ++ c :: (m ++ c' :: (y ++ ' ' :: clock hour minute second))) =
      some [(.day, d), (.month, m), (.year, y), (.hour, hour), (.minute, minute), (.second, second)] := by
  rw [match?, run_oneOrTwo_slash hd hdShort hc, run_oneOrTwo_slash hm hmShort hc', run_digits_mark hy hLength,
    ← List.append_nil (clock hour minute second), run_clock hHour hMinute, List.append_nil,
    run_number_atEnd hSecond]
  rfl

/-- A year of two digits does not match the pattern with four. -/
theorem longYear_none (hd : Numeral d nd) (hdShort : d.length ≤ 2) (hm : Numeral m nm)
    (hmShort : m.length ≤ 2) (hyShort : y.length < 4) (hc : isSlash c = true) (hc' : isSlash c' = true) :
    (patDdmmyyyyhhmmss u).match? (d ++ c :: (m ++ c' :: (y ++ ' ' :: rest))) = none := by
  rw [match?, patDdmmyyyyhhmmss, run_oneOrTwo_slash hd hdShort hc, run_oneOrTwo_slash hm hmShort hc',
    run_digits_none hyShort (ends_mark (by decide) _)]

end Slashes

end Spidercheck
