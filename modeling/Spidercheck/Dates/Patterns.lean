import Spidercheck.Dates.Forms

/-! What each pattern does with the supported texts. Numbers end where a
punctuation mark stands, so there is one way to read them, and a pattern that
is not meant for a text meets a character that it has no place for. -/
namespace Spidercheck

open Text Regex Pattern

/-- An ASCII character that is neither a letter nor a digit nor an underscore. -/
def Punctuation (c : Char) : Prop := c.toNat < 128 ∧ c.isAlphanum = false ∧ c ≠ '_'

instance : DecidablePred Punctuation :=
  fun c => inferInstanceAs (Decidable (c.toNat < 128 ∧ c.isAlphanum = false ∧ c ≠ '_'))

section Classes
variable {u : Unicode} {c d : Char}

theorem Punctuation.isWord (h : Punctuation c) : u.isWord c = false := by
  rw [u.isWord_ascii c h.1, h.2.1, Bool.false_or, beq_eq_false_iff_ne]
  exact h.2.2

/-- Punctuation is no digit, in every table of characters. -/
theorem Punctuation.isDecimal (h : Punctuation c) : u.isDecimal c = false := by
  have hDigit : c.isDigit = false := (Bool.or_eq_false_iff.mp h.2.1).2
  rw [Unicode.isDecimal_ascii h.1, hDigit]

theorem Punctuation.isAlpha (h : Punctuation c) : c.isAlpha = false :=
  (Bool.or_eq_false_iff.mp h.2.1).1

theorem punctuation_of_isSeparator (h : isSeparator c = true) : Punctuation c := by
  have hAll : "\\/:.,- ".toList.all (fun c => decide (Punctuation c)) = true := by decide
  exact of_decide_eq_true (List.all_eq_true.mp hAll c (by simpa [isSeparator] using h))

theorem punctuation_of_isSlash (h : isSlash c = true) : Punctuation c := by
  obtain rfl | rfl : c = '/' ∨ c = '-' := by simpa [isSlash] using h
  · decide
  · decide

/-- A class without punctuation marks has none of the marks of another one. -/
theorem apart_of_punctuation {p q : Char → Bool} (hWord : ∀ c, Punctuation c → p c = false)
    (hMarks : ∀ c, q c = true → Punctuation c) (c : Char) (h : p c = true) : q c = false := by
  by_contra hNot
  have hMark : Punctuation c := hMarks c (Bool.not_eq_false _ ▸ hNot)
  rw [hWord c hMark] at h
  cases h

theorem apart_of_mark {p : Char → Bool} (hWord : ∀ c, Punctuation c → p c = false)
    {mark : Char} (hMark : Punctuation mark) (c : Char) (h : p c = true) : (c == mark) = false := by
  rw [beq_eq_false_iff_ne]
  rintro rfl
  rw [hWord c hMark] at h
  cases h

end Classes

section Parts
variable {β : Type} {u : Unicode} {field : Field} {rs : List DatePattern}
  {captures : Captures Char Field} {k : Captures Char Field → Str → Option β}
  {s rest : Str} {n length : Nat} {c d : Char}

/-- A mark ends a run of digits. -/
theorem ends_mark (hMark : Punctuation c) (rest : Str) : Ends u.isDecimal (c :: rest) :=
  ends_cons.mpr hMark.isDecimal

theorem Weekday.ends (w : Weekday u) (rest : Str) : Ends u.isDecimal (Weekday.write (some w) ++ rest) := by
  obtain ⟨c, text, hText, -, hDecimal⟩ := w.exists_cons
  rw [Weekday.write, hText]
  exact ends_cons.mpr hDecimal

/-- A mark takes itself. -/
theorem run_is : (all (is c :: rs)).run captures (c :: rest) k = (all rs).run captures rest k := by
  rw [is, run_char_all_cons, if_pos (beq_self_eq_true c)]

/-- A mark takes no other character. -/
theorem run_is_ne (h : d ≠ c) : (all (is c :: rs)).run captures (d :: rest) k = none := by
  rw [is, run_char_all_cons, if_neg (by simpa using h)]

theorem apart_is {p : Char → Bool} (hPlain : ∀ c, Punctuation c → p c = false) (hMark : Punctuation c) :
    Apart p (all (is c :: rs)) :=
  apart_char_all (apart_of_mark hPlain hMark)

theorem run_class {p : Char → Bool} (h : p c = true) :
    (all (.char p :: rs)).run captures (c :: rest) k = (all rs).run captures rest k := by
  rw [run_char_all_cons, if_pos h]

theorem run_atEnd : (all [atEnd]).run captures [] k = k captures [] := rfl

theorem run_atEnd_ne (h : c ≠ '\n') : (all (atEnd :: rs)).run captures (c :: rest) k = none :=
  run_stop_all_cons (by simpa using h)

/-- A run of word characters up to a mark. -/
theorem run_word_mark {p : Char → Bool} (hPlain : ∀ c, Punctuation c → p c = false) (hWord : Word p s)
    (hMark : Punctuation c) :
    (all (.group field (.plus p) :: is c :: rs)).run captures (s ++ c :: rest) k =
      (all rs).run (captures ++ [(field, s)]) rest k := by
  rw [run_group_plus_all hWord (ends_cons.mpr (hPlain c hMark)) (apart_is hPlain hMark), run_is]

/-- A number takes its digits up to the next mark. -/
theorem run_number_mark (h : Numeral s n) (hMark : Punctuation c) :
    (all (number u field :: is c :: rs)).run captures (s ++ c :: rest) k =
      (all rs).run (captures ++ [(field, s)]) rest k :=
  run_word_mark (fun _ hc => hc.isDecimal) (h.decimals u) hMark

/-- A number that is followed by another mark than the pattern has. -/
theorem run_number_mark_ne (h : Numeral s n) (hMark : Punctuation c) (hMark' : Punctuation d)
    (hNe : c ≠ d) : (all (number u field :: is d :: rs)).run captures (s ++ c :: rest) k = none := by
  rw [number, run_group_plus_all (h.decimals u) (ends_mark hMark rest)
    (apart_is (fun _ hc => hc.isDecimal) hMark'), run_is_ne hNe]

theorem run_number_atEnd (h : Numeral s n) :
    (all [number u field, atEnd]).run captures s k = k (captures ++ [(field, s)]) [] := by
  have hRun : (all [number u field, atEnd]).run captures (s ++ []) k =
      (all [atEnd]).run (captures ++ [(field, s)]) [] k :=
    run_group_plus_all (h.decimals u) ends_nil
      (apart_stop_all (apart_of_mark (fun _ hc => hc.isDecimal) (by decide)))
  rwa [List.append_nil] at hRun

/-- A number is not followed by a mark at the end of the text. -/
theorem run_number_nil (h : Numeral s n) (hMark : Punctuation c) :
    (all (number u field :: is c :: rs)).run captures s k = none := by
  have hRun : (all (number u field :: is c :: rs)).run captures (s ++ []) k = none := by
    rw [number, run_group_plus_all (h.decimals u) ends_nil (apart_is (fun _ hc => hc.isDecimal) hMark)]
    rfl
  rwa [List.append_nil] at hRun

theorem run_number_ends (h : Ends u.isDecimal s) : (all (number u field :: rs)).run captures s k = none :=
  run_group_plus_all_ends h

/-- A number of fixed length takes as many digits. -/
theorem run_digits (h : Numeral s n) (hLength : s.length = length) :
    (all (digits u length field :: rs)).run captures (s ++ rest) k =
      (all rs).run (captures ++ [(field, s)]) rest k :=
  run_group_times_all (h.decimals u).2 hLength

theorem run_digits_mark (h : Numeral s n) (hLength : s.length = length) :
    (all (digits u length field :: is c :: rs)).run captures (s ++ c :: rest) k =
      (all rs).run (captures ++ [(field, s)]) rest k := by
  rw [run_digits h hLength, run_is]

theorem run_digits_atEnd (h : Numeral s n) (hLength : s.length = length) :
    (all [digits u length field, atEnd]).run captures s k = k (captures ++ [(field, s)]) [] := by
  calc
    _ = (all [digits u length field, atEnd]).run captures (s ++ []) k := by rw [List.append_nil]
    _ = (all [atEnd]).run (captures ++ [(field, s)]) [] k := run_digits h hLength

/-- Too few digits. -/
theorem run_digits_none (hShort : s.length < length) (hEnds : Ends u.isDecimal rest) :
    (all (digits u length field :: rs)).run captures (s ++ rest) k = none :=
  run_group_times_all_eq_none hEnds hShort

/-- Where there is no digit, no number begins. -/
theorem run_digits_ends (hEnds : Ends u.isDecimal rest) (hSome : 0 < length) :
    (all (digits u length field :: rs)).run captures rest k = none :=
  run_digits_none (s := []) hSome hEnds

/-- `H:M:` in front of a number. -/
theorem run_clock {hour minute second : Str} {nh ni : Nat} (hHour : Numeral hour nh)
    (hMinute : Numeral minute ni) :
    (all (number u .hour :: is ':' :: number u .minute :: is ':' :: rs)).run captures
        (clock hour minute second ++ rest) k =
      (all rs).run (captures ++ [(.hour, hour)] ++ [(.minute, minute)]) (second ++ rest) k := by
  rw [clock_append, run_number_mark hHour (by decide), run_number_mark hMinute (by decide)]

/-- `HH:MM:SS`. -/
theorem run_clockOf (t : DateTime) :
    (all (digits u 2 .hour :: is ':' :: digits u 2 .minute :: is ':' :: digits u 2 .second :: rs)).run
        captures (clockOf t ++ rest) k =
      (all rs).run (captures ++ [(.hour, twoDigits t.hour)] ++ [(.minute, twoDigits t.minute)] ++
        [(.second, twoDigits t.second)]) rest k := by
  rw [clockOf, clock_append, run_digits_mark (numeral_hour t) (length_twoDigits _),
    run_digits_mark (numeral_minute t) (length_twoDigits _), run_digits (numeral_second t) (length_twoDigits _)]

/-- One or two digits in front of a slash are taken together. -/
theorem run_oneOrTwo_slash (h : Numeral s n) (hShort : s.length ≤ 2) (hSlash : isSlash c = true) :
    (all (oneOrTwo u field :: .char isSlash :: rs)).run captures (s ++ c :: rest) k =
      (all rs).run (captures ++ [(field, s)]) rest k := by
  have hMark : Punctuation c := punctuation_of_isSlash hSlash
  rw [oneOrTwo, run_group_one_or_two_all (h.decimals u) hShort (ends_mark hMark rest), run_class hSlash]
  exact apart_char_all (apart_of_punctuation (fun _ hc => hc.isDecimal) fun _ => punctuation_of_isSlash)

end Parts

end Spidercheck
