import Spidercheck.Dates.Parser
import Mathlib.Tactic.IntervalCases

/-! The textual forms that the parsers support, as what a writer chooses: the
widths of the numbers, the separators, a name for the month, and the parts that
the parsers ignore. -/
namespace Spidercheck

open Text Regex

def digit (n : Nat) : Char := Nat.digitChar (n % 10)

def twoDigits (n : Nat) : Str := [digit (n / 10), digit n]

def fourDigits (n : Nat) : Str := [digit (n / 1000), digit (n / 100), digit (n / 10), digit n]

theorem length_twoDigits (n : Nat) : (twoDigits n).length = 2 := rfl

theorem length_fourDigits (n : Nat) : (fourDigits n).length = 4 := rfl

/-- A number below 100, with or without a zero in front. -/
inductive Width where
  | plain
  | padded
  deriving DecidableEq, Repr

def Width.write : Width → Nat → Str
  | plain, n => if n < 10 then [digit n] else twoDigits n
  | padded, n => twoDigits n

/-- A name that `REVERSE_MONTH` knows, in letters of either case. -/
structure MonthName where
  text : Str
  month : Nat
  letters : ∀ c ∈ text, c.isAlpha = true
  known : monthNamed (text.map Char.toUpper) = some month

inductive MonthText where
  | number (width : Width)
  | named (name : MonthName)

def MonthText.write : MonthText → Nat → Str
  | number width, n => width.write n
  | named name, _ => name.text

def MonthText.Names : MonthText → Nat → Prop
  | number _, _ => True
  | named name, n => name.month = n

/-- Three word characters, the first of which is not a digit. -/
structure Weekday (u : Unicode) where
  text : Str
  length_eq : text.length = 3
  letters : ∀ c ∈ text, u.isWord c = true
  notDecimal : ∀ c ∈ text.head?, u.isDecimal c = false

def Weekday.write {u : Unicode} : Option (Weekday u) → Str
  | some w => w.text ++ [',', ' ']
  | none => []

/-- What stands between the time and the end: one line, without space at its end. -/
structure Zone where
  text : Str
  nonempty : text ≠ []
  oneLine : ∀ c ∈ text, isAny c = true
  trimmed : ∀ c ∈ text.getLast?, isSpace c = false

structure Offset where
  sign : { c : Char // isSign c = true }
  hours : Nat
  minutes : Nat

def Offset.write : Option Offset → Str
  | some o => o.sign.1 :: (twoDigits o.hours ++ ':' :: twoDigits o.minutes)
  | none => []

structure Fraction where
  text : Str
  isWord : Word Char.isDigit text

/-- The forms, in the order of the patterns that are meant for them. -/
inductive Form (u : Unicode) where
  | dmy (day : Width) (sep : { c : Char // isSeparator c = true }) (month : MonthText)
      (sep' : { c : Char // isSeparator c = true })
  | datetimeExt (mark : { c : Char // isTimeMark c = true }) (offset : Option Offset)
  | datetimeBasic
  | dateBasic
  | dateExt
  | rfcDatetime (weekday : Option (Weekday u)) (day : Width) (month : MonthName) (zone : Zone)
  | rfcDate (weekday : Option (Weekday u)) (day : Width) (month : MonthName)
  | completa (day : Width) (month : MonthName)
  | hora (day month : Width) (fraction : Fraction)
  | longYear (day : Width) (slash : { c : Char // isSlash c = true }) (month : Width)
      (slash' : { c : Char // isSlash c = true }) (hour minute second : Width)
  | shortYear (day : Width) (slash : { c : Char // isSlash c = true }) (month : Width)
      (slash' : { c : Char // isSlash c = true }) (hour minute second : Width)

def clock (hour minute second : Str) : Str := hour ++ ':' :: (minute ++ ':' :: second)

theorem clock_append {hour minute second rest : Str} : clock hour minute second ++ rest =
    hour ++ ':' :: (minute ++ ':' :: (second ++ rest)) := by
  simp [clock]

def clockOf (t : DateTime) : Str := clock (twoDigits t.hour) (twoDigits t.minute) (twoDigits t.second)

def isoDate (t : DateTime) : Str := fourDigits t.year ++ '-' :: (twoDigits t.month ++ '-' :: twoDigits t.day)

def basicDate (t : DateTime) : Str := fourDigits t.year ++ (twoDigits t.month ++ twoDigits t.day)

namespace Form
variable {u : Unicode}

def write (form : Form u) (t : DateTime) : Str :=
  match form with
  | dmy day sep month sep' =>
      day.write t.day ++ sep.1 :: (month.write t.month ++ sep'.1 :: fourDigits t.year)
  | datetimeExt mark offset => isoDate t ++ mark.1 :: (clockOf t ++ Offset.write offset)
  | datetimeBasic => basicDate t ++ (twoDigits t.hour ++ (twoDigits t.minute ++ twoDigits t.second))
  | dateBasic => basicDate t
  | dateExt => isoDate t
  | rfcDatetime weekday day month zone =>
      Weekday.write weekday ++ (day.write t.day ++ ' ' :: (month.text ++ ' ' ::
        (fourDigits t.year ++ ' ' :: (clockOf t ++ ' ' :: zone.text))))
  | rfcDate weekday day month =>
      Weekday.write weekday ++ (day.write t.day ++ ' ' :: (month.text ++ ' ' :: fourDigits t.year))
  | completa day month =>
      day.write t.day ++ ' ' :: 'd' :: 'e' :: ' ' ::
        (month.text ++ ' ' :: 'd' :: 'e' :: ' ' :: fourDigits t.year)
  | hora day month fraction =>
      day.write t.day ++ '-' :: (month.write t.month ++ '-' :: (fourDigits t.year ++ ' ' ::
        (clockOf t ++ '.' :: fraction.text)))
  | longYear day slash month slash' hour minute second =>
      day.write t.day ++ slash.1 :: (month.write t.month ++ slash'.1 :: (fourDigits t.year ++ ' ' ::
        clock (hour.write t.hour) (minute.write t.minute) (second.write t.second)))
  | shortYear day slash month slash' hour minute second =>
      day.write t.day ++ slash.1 :: (month.write t.month ++ slash'.1 :: (twoDigits t.year ++ ' ' ::
        clock (hour.write t.hour) (minute.write t.minute) (second.write t.second)))

/-- The date has the month that is named, and a year that the form can hold. -/
def Suits (form : Form u) (t : DateTime) : Prop :=
  match form with
  | dmy _ _ month _ => 1000 ≤ t.year ∧ month.Names t.month
  | rfcDatetime _ _ month _ | rfcDate _ _ month | completa _ month =>
      1000 ≤ t.year ∧ month.month = t.month
  | shortYear .. => 2000 ≤ t.year ∧ t.year ≤ 2099
  | _ => 1000 ≤ t.year

def dateOnly : Form u → Bool
  | dmy .. | dateBasic | dateExt | rfcDate .. | completa .. => true
  | _ => false

end Form

def DateTime.midnight (t : DateTime) : DateTime :=
  { t with hour := 0, minute := 0, second := 0
           hourValid := by decide, minuteValid := by decide, secondValid := by decide }

def Form.read {u : Unicode} (form : Form u) (t : DateTime) : DateTime :=
  if form.dateOnly then t.midnight else t

/-- The place of the pattern that is meant for the form. -/
def Form.position {u : Unicode} : Form u → Nat
  | dmy .. => 0
  | datetimeExt .. => 1
  | datetimeBasic => 2
  | dateBasic => 3
  | dateExt => 4
  | rfcDatetime .. => 5
  | rfcDate .. => 6
  | completa .. => 7
  | hora .. => 8
  | longYear .. => 9
  | shortYear .. => 10

section Reading
variable {u : Unicode} {n : Nat} {s : Str} {c : Char}

theorem isDigit_digit (n : Nat) : (digit n).isDigit = true := by
  have hSmall : n % 10 < 10 := Nat.mod_lt n (by decide)
  unfold digit
  generalize n % 10 = d at hSmall
  interval_cases d <;> rfl

theorem decimal_digit (u : Unicode) (n : Nat) : u.decimal (digit n) = some (n % 10) := by
  have hSmall : n % 10 < 10 := Nat.mod_lt n (by decide)
  have hAscii : (digit n).toNat < 128 := by
    have := isDigit_iff.mp (isDigit_digit n)
    omega
  have hValue : (digit n).toNat - 48 = n % 10 := by
    unfold digit
    generalize n % 10 = d at hSmall
    interval_cases d <;> rfl
  rw [u.decimal_ascii _ hAscii, if_pos (isDigit_digit n), hValue]

/-- A text of ASCII digits with that value, which `int` does not refuse. -/
structure Numeral (s : Str) (n : Nat) : Prop where
  isWord : Word Char.isDigit s
  short : s.length ≤ maxStrDigits
  value : ∀ u : Unicode, u.toNat s = some n

/-- Two digits hold a number up to a multiple of a hundred. -/
theorem numeral_two_mod (n : Nat) : Numeral (twoDigits n) (n % 100) where
  isWord := by simp [Word, twoDigits, isDigit_digit]
  short := by simp [twoDigits, maxStrDigits]
  value u := by
    simp only [Unicode.toNat, twoDigits, List.foldlM_cons, List.foldlM_nil, decimal_digit]
    simp
    omega

/-- Two digits write the numbers below 100. -/
theorem numeral_two (h : n < 100) : Numeral (twoDigits n) n := by
  have hMod := numeral_two_mod n
  rwa [Nat.mod_eq_of_lt h] at hMod

/-- Four digits write the numbers below 10000. -/
theorem numeral_four (h : n < 10000) : Numeral (fourDigits n) n where
  isWord := by simp [Word, fourDigits, isDigit_digit]
  short := by simp [fourDigits, maxStrDigits]
  value u := by
    simp only [Unicode.toNat, fourDigits, List.foldlM_cons, List.foldlM_nil, decimal_digit]
    simp
    omega

/-- With or without the zero the same number is written. -/
theorem Width.numeral (w : Width) (h : n < 100) : Numeral (w.write n) n := by
  cases w with
  | padded => exact numeral_two h
  | plain =>
      rw [Width.write]
      split
      · next hSmall =>
        constructor
        · simp [Word, isDigit_digit]
        · simp [maxStrDigits]
        · intro u
          simp only [Unicode.toNat, List.foldlM_cons, List.foldlM_nil, decimal_digit]
          simp
          omega
      · exact numeral_two h

theorem Width.length_write (w : Width) (n : Nat) : (w.write n).length ≤ 2 := by
  cases w with
  | padded => rfl
  | plain =>
      rw [Width.write]
      split
      · simp
      · rfl

/-- Numerals are runs of digits in every table of characters. -/
theorem Numeral.decimals (h : Numeral s n) (u : Unicode) : Word u.isDecimal s :=
  ⟨h.isWord.1, fun c hc => Unicode.isDecimal_of_isDigit (h.isWord.2 c hc)⟩

theorem Numeral.alphanums (h : Numeral s n) : Word Char.isAlphanum s :=
  ⟨h.isWord.1, fun c hc => by simp [Char.isAlphanum, h.isWord.2 c hc]⟩

/-- A numeral is read as what it was written for. -/
theorem Numeral.toInteger (h : Numeral s n) (u : Unicode) : toInteger u s = .ok n := by
  have hCount : ¬ maxStrDigits < (s.takeWhile u.isDecimal).length :=
    Nat.not_lt.mpr ((List.takeWhile_sublist _).length_le.trans h.short)
  simp [Spidercheck.toInteger, hCount, h.value u]

theorem Numeral.allDigits (h : Numeral s n) (u : Unicode) : u.allDigits s = true := by
  have hAll : ∀ c ∈ s, u.isDigit c = true := fun c hc =>
    u.isDigit_of_decimal c ((h.decimals u).2 c hc)
  simpa [Unicode.allDigits, h.isWord.1] using hAll

theorem MonthName.ne_nil (name : MonthName) : name.text ≠ [] := by
  intro hEmpty
  have hNone : monthNamed [] = none := by decide
  have hKnown := name.known
  rw [hEmpty, List.map_nil, hNone] at hKnown
  cases hKnown

theorem MonthName.isAlphanum (name : MonthName) : ∀ c ∈ name.text, c.isAlphanum = true :=
  fun c hc => by simp [Char.isAlphanum, name.letters c hc]

theorem not_isDigit_of_isAlpha (h : c.isAlpha = true) : c.isDigit = false := by
  rw [isAlpha_iff] at h
  rw [Bool.eq_false_iff, ne_eq, isDigit_iff]
  omega

theorem isDecimal_of_isAlpha (h : c.isAlpha = true) : u.isDecimal c = false := by
  rw [Unicode.isDecimal_ascii (lt_of_isAlphanum (by simp [Char.isAlphanum, h])), not_isDigit_of_isAlpha h]

/-- A name is not a number, and its upper case is known. -/
theorem MonthName.allDigits (name : MonthName) (u : Unicode) : u.allDigits name.text = false := by
  obtain ⟨c, rest, hText⟩ := List.exists_cons_of_ne_nil name.ne_nil
  have hAlpha : c.isAlpha = true := name.letters c (by simp [hText])
  have hDigit : u.isDigit c = false := by
    rw [u.isDigit_ascii c (lt_of_isAlphanum (by simp [Char.isAlphanum, hAlpha])), not_isDigit_of_isAlpha hAlpha]
  simp [Unicode.allDigits, hText, hDigit]

/-- Every name of a month is in the table. -/
theorem MonthName.monthOf (name : MonthName) (u : Unicode) :
    monthOf (u.upper name.text) = .ok name.month := by
  have hAscii : ∀ c ∈ name.text, c.toNat < 128 := fun c hc =>
    lt_of_isAlphanum (name.isAlphanum c hc)
  simp [Spidercheck.monthOf, u.upper_ascii _ hAscii, name.known]

theorem Weekday.exists_cons (w : Weekday u) :
    ∃ c rest, w.text = c :: rest ∧ u.isWord c = true ∧ u.isDecimal c = false := by
  obtain ⟨c, rest, hText⟩ : ∃ c rest, w.text = c :: rest := by
    apply List.exists_cons_of_length_pos
    rw [w.length_eq]
    decide
  exact ⟨c, rest, hText, w.letters c (by simp [hText]), w.notDecimal c (by simp [hText])⟩

theorem daysInMonth_le (year month : Nat) : daysInMonth year month ≤ 31 := by
  unfold daysInMonth
  split
  · split <;> decide
  · split <;> decide

variable (t : DateTime)

theorem DateTime.day_lt : t.day < 100 := by
  have := daysInMonth_le t.year t.month
  have := t.dayValid
  omega

theorem DateTime.month_lt : t.month < 100 := by
  have := t.monthValid
  omega

theorem DateTime.hour_lt : t.hour < 100 := Nat.lt_trans t.hourValid (by decide)

theorem DateTime.minute_lt : t.minute < 100 := Nat.lt_trans t.minuteValid (by decide)

theorem DateTime.second_lt : t.second < 100 := Nat.lt_trans t.secondValid (by decide)

theorem numeral_year : Numeral (fourDigits t.year) t.year :=
  numeral_four (Nat.lt_succ_of_le t.yearValid.2)

theorem numeral_month : Numeral (twoDigits t.month) t.month := numeral_two t.month_lt

theorem numeral_day : Numeral (twoDigits t.day) t.day := numeral_two t.day_lt

theorem numeral_hour : Numeral (twoDigits t.hour) t.hour := numeral_two t.hour_lt

theorem numeral_minute : Numeral (twoDigits t.minute) t.minute := numeral_two t.minute_lt

theorem numeral_second : Numeral (twoDigits t.second) t.second := numeral_two t.second_lt

end Reading

end Spidercheck
