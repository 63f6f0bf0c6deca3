import Spidercheck.Calendar.Months
import Spidercheck.Dates.Parsing

/-! The date a month later. The months of all years are numbered one after the
other, and dates are days of this calendar. -/
namespace Spidercheck

open Text Calendar

def daysBeforeYear (year : Nat) : Nat :=
  (year - 1) * 365 + (year - 1) / 4 - (year - 1) / 100 + (year - 1) / 400

def daysBeforeMonth (year month : Nat) : Nat :=
  ((List.range (month - 1)).map fun m => daysInMonth year (m + 1)).sum

/-- `date(year, month, day).toordinal()`. -/
def ordinalOf (year month day : Nat) : Nat := daysBeforeYear year + daysBeforeMonth year month + day

def Date.toOrdinal (d : Date) : Nat := ordinalOf d.year d.month d.day

/-- Dates are compared by year, then by month, then by day. -/
instance : LE Date where
  le d e := d.year < e.year ∨ d.year = e.year ∧ (d.month < e.month ∨ d.month = e.month ∧ d.day ≤ e.day)

instance (d e : Date) : Decidable (d ≤ e) :=
  inferInstanceAs (Decidable (d.year < e.year ∨
    d.year = e.year ∧ (d.month < e.month ∨ d.month = e.month ∧ d.day ≤ e.day)))

/-- `calendar.weekday`: years without dates are those of a cycle of four centuries. -/
def weekdayOf (year month day : Nat) : Nat :=
  let year := if 1 ≤ year ∧ year ≤ 9999 then year else 2000 + year % 400
  (ordinalOf year month day + 6) % 7

def monthrange (year month : Nat) : Except PyError (Nat × Nat) :=
  if 1 ≤ month ∧ month ≤ 12 then .ok (weekdayOf year month 1, daysInMonth year month)
  else .error (valueError ("bad month number " ++ ofInt month ++ "; must be 1-12"))

def given (value : Option Nat) (other : Nat) : Nat :=
  match value with
  | some n => if n = 0 then other else n
  | none => other

/-- `new_date`, on the day `hoy`. -/
def newDate (hoy : Date) (year month day : Option Nat) : Except PyError Date :=
  Date.make (given year hoy.year) (given month hoy.month) (given day hoy.day)

def nextMonth (hoy fecha : Date) : Except PyError Date := do
  let (year, month) := if fecha.month < 12 then (fecha.year, fecha.month + 1) else (fecha.year + 1, 1)
  let (_, days) ← monthrange year month
  newDate hoy (some year) (some month) (some (min days fecha.day))

def nextMonths (hoys : List Date) (fecha : Date) : Except PyError Date :=
  hoys.foldlM (fun fecha hoy => nextMonth hoy fecha) fecha

section Numbering
variable {d e : Date} {year month : Nat}

def monthIndex (year month : Nat) : Nat := 12 * year + (month - 1)

def monthLength (i : Nat) : Nat := daysInMonth (i / 12) (i % 12 + 1)

def lastMonth : Nat := monthIndex 9999 12

def Date.place (d : Date) : ℕ ×ₗ ℕ := toLex (monthIndex d.year d.month, d.day)

theorem monthLength_monthIndex (h : 1 ≤ month ∧ month ≤ 12) :
    monthLength (monthIndex year month) = daysInMonth year month := by
  have hYear : monthIndex year month / 12 = year := by
    unfold monthIndex
    omega
  have hMonth : monthIndex year month % 12 + 1 = month := by
    unfold monthIndex
    omega
  rw [monthLength, hYear, hMonth]

theorem daysInMonth_bounds (year month : Nat) : 28 ≤ daysInMonth year month ∧ daysInMonth year month ≤ 31 := by
  unfold daysInMonth
  repeat' split
  all_goals omega

/-- Dates are in the order of their months, and of the days in these. -/
theorem Date.le_iff_place : d ≤ e ↔ d.place ≤ e.place := by
  have hd := d.monthValid
  have he := e.monthValid
  show (d.year < e.year ∨ d.year = e.year ∧ (d.month < e.month ∨ d.month = e.month ∧ d.day ≤ e.day)) ↔ _
  rw [Date.place, Date.place, Prod.Lex.toLex_le_toLex]
  simp only [monthIndex]
  omega

/-- A year has a day more when it is a leap year. -/
theorem sum_daysInMonth (year : Nat) :
    ((List.range 12).map fun m => daysInMonth year (m + 1)).sum = if isLeap year then 366 else 365 := by
  have hMonths : List.range 12 = [0, 1, 2, 3, 4, 5, 6, 7, 8, 9, 10, 11] := rfl
  cases hLeap : isLeap year <;> simp [hMonths, daysInMonth, hLeap]

theorem map_monthLength {n : Nat} (h : n ≤ 12) :
    (List.range n).map (fun k => monthLength (12 * year + k)) =
      (List.range n).map fun m => daysInMonth year (m + 1) := by
  refine List.map_congr_left fun k hk => ?_
  have hSmall := List.mem_range.mp hk
  have hMonth : 1 ≤ k + 1 ∧ k + 1 ≤ 12 := by omega
  exact monthLength_monthIndex hMonth

/-- A year has 365 days, or 366. -/
theorem start_succ_year (year : Nat) : start monthLength (12 * (year + 1)) =
    start monthLength (12 * year) + if isLeap year then 366 else 365 := by
  rw [Nat.mul_succ, start_add, map_monthLength (Nat.le_refl 12), sum_daysInMonth]

/-- The rule of the Gregorian calendar. -/
theorem isLeap_iff : isLeap year = true ↔ 4 ∣ year ∧ (¬ 100 ∣ year ∨ 400 ∣ year) := by
  simp [isLeap, Nat.dvd_iff_mod_eq_zero]

/-- Each multiple of four ends a leap year, except for those of a hundred that are none of four hundred. -/
theorem daysBeforeYear_succ (year : Nat) :
    daysBeforeYear (year + 2) = daysBeforeYear (year + 1) + if isLeap (year + 1) then 366 else 365 := by
  have hCentury : 100 ∣ year + 1 → 4 ∣ year + 1 := Nat.dvd_trans (by decide)
  have hCycle : 400 ∣ year + 1 → 100 ∣ year + 1 := Nat.dvd_trans (by decide)
  have hLess : year / 100 ≤ year / 4 := Nat.div_le_div_left (by decide) (by decide)
  have hBefore : daysBeforeYear (year + 2) =
      (year + 1) * 365 + (year + 1) / 4 - (year + 1) / 100 + (year + 1) / 400 := rfl
  have hBefore' : daysBeforeYear (year + 1) = year * 365 + year / 4 - year / 100 + year / 400 := rfl
  rw [hBefore, hBefore', Nat.succ_div, Nat.succ_div, Nat.succ_div]
  simp only [isLeap_iff]
  generalize year / 4 = quarters at *
  generalize year / 100 = centuries at *
  generalize year / 400 = cycles at *
  by_cases hFour : 4 ∣ year + 1
  · by_cases hHundred : 100 ∣ year + 1
    · by_cases hAll : 400 ∣ year + 1
      · simp only [hFour, hHundred, hAll, if_true, not_true_eq_false, false_or, and_self]
        omega
      · simp only [hFour, hHundred, hAll, if_true, if_false, not_true_eq_false, false_or, and_false]
        omega
    · have hAll : ¬ 400 ∣ year + 1 := fun h => hHundred (hCycle h)
      simp only [hFour, hHundred, hAll, if_true, if_false, not_false_eq_true, true_or, and_self]
      omega
  · have hHundred : ¬ 100 ∣ year + 1 := fun h => hFour (hCentury h)
    have hAll : ¬ 400 ∣ year + 1 := fun h => hHundred (hCycle h)
    simp only [hFour, hHundred, hAll, if_false, false_and]
    omega

/-- The days before a year, counted by months and by leap years. -/
theorem start_year (year : Nat) :
    start monthLength (12 * (year + 1)) = 366 + daysBeforeYear (year + 1) := by
  induction year with
  | zero =>
      rw [start_succ_year]
      rfl
  | succ year ih =>
      rw [start_succ_year, ih, daysBeforeYear_succ, Nat.add_assoc]

/-- The days before a month, counted by months and by leap years. -/
theorem start_month (hYear : 1 ≤ year) (hMonth : 1 ≤ month ∧ month ≤ 12) :
    start monthLength (monthIndex year month) = 366 + daysBeforeYear year + daysBeforeMonth year month := by
  obtain ⟨year, rfl⟩ := Nat.exists_eq_add_of_le' hYear
  rw [monthIndex, start_add, start_year, map_monthLength (by omega), daysBeforeMonth]

/-- The calendar counts from the year zero, a leap year, and `datetime` from the year one. -/
theorem Date.ordinal_place (d : Date) : ordinal monthLength d.place = 366 + d.toOrdinal := by
  have hStart := start_month d.yearValid.1 d.monthValid
  show start monthLength (monthIndex d.year d.month) + d.day = _
  rw [hStart, Date.toOrdinal, ordinalOf]
  omega

end Numbering

section Next
variable {d : Date}

theorem monthrange_eq_ok {year month : Nat} (h : 1 ≤ month ∧ month ≤ 12) :
    monthrange year month = .ok (weekdayOf year month 1, daysInMonth year month) := if_pos h

theorem given_some {n other : Nat} (h : 1 ≤ n) : given (some n) other = n := if_neg (by omega)

/-- A date that exists is made as it is given. -/
theorem newDate_eq_ok (hoy : Date) {year month day : Nat} (hYear : 1 ≤ year ∧ year ≤ 9999)
    (hMonth : 1 ≤ month ∧ month ≤ 12) (hDay : 1 ≤ day ∧ day ≤ daysInMonth year month) :
    newDate hoy (some year) (some month) (some day) = .ok ⟨year, month, day, hYear, hMonth, hDay⟩ := by
  rw [newDate, given_some hYear.1, given_some hMonth.1, given_some hDay.1]
  exact Date.make_self ⟨year, month, day, hYear, hMonth, hDay⟩

/-- The date that `next_month` makes. -/
theorem nextMonth_place (hoy : Date) (h : monthIndex d.year d.month < lastMonth) :
    ∃ r, nextMonth hoy d = .ok r ∧ r.place = next monthLength d.place := by
  obtain ⟨year, month, hNext, hIndex, hYear, hMonth⟩ : ∃ year month,
      (if d.month < 12 then (d.year, d.month + 1) else (d.year + 1, 1)) = (year, month) ∧
        monthIndex year month = monthIndex d.year d.month + 1 ∧
        (1 ≤ year ∧ year ≤ 9999) ∧ 1 ≤ month ∧ month ≤ 12 := by
    have hYear := d.yearValid
    have hMonth := d.monthValid
    simp only [lastMonth, monthIndex] at h ⊢
    split
    · exact ⟨_, _, rfl, by omega, by omega, by omega⟩
    · exact ⟨_, _, rfl, by omega, by omega, by omega⟩
  have hDays := daysInMonth_bounds year month
  have hDay : 1 ≤ min (daysInMonth year month) d.day ∧
      min (daysInMonth year month) d.day ≤ daysInMonth year month :=
    ⟨le_min (by omega) d.dayValid.1, min_le_left _ _⟩
  refine ⟨⟨year, month, min (daysInMonth year month) d.day, hYear, hMonth, hDay⟩, ?_, ?_⟩
  · rw [nextMonth, hNext]
    show (monthrange year month >>= fun days =>
      newDate hoy (some year) (some month) (some (min days.2 d.day))) = _
    rw [monthrange_eq_ok hMonth, ok_bind, newDate_eq_ok hoy hYear hMonth hDay]
  · have hLength : monthLength (monthIndex d.year d.month + 1) = daysInMonth year month := by
      rw [← hIndex, monthLength_monthIndex hMonth]
    simp only [Date.place, next, ofLex_toLex, hIndex, hLength]

/-- `next_month` over and over takes the steps of the calendar. -/
theorem nextMonths_place (hoys : List Date)
    (h : monthIndex d.year d.month + hoys.length ≤ lastMonth) :
    ∃ r, nextMonths hoys d = .ok r ∧ r.place = (next monthLength)^[hoys.length] d.place := by
  induction hoys generalizing d with
  | nil => exact ⟨d, rfl, rfl⟩
  | cons hoy hoys ih =>
      rw [List.length_cons] at h
      obtain ⟨e, hNext, hPlace⟩ := nextMonth_place (d := d) hoy (by omega)
      have hIndex : monthIndex e.year e.month = monthIndex d.year d.month + 1 :=
        congrArg (fun place => (ofLex place).1) hPlace
      obtain ⟨r, hRest, hEnd⟩ := ih (d := e) (by omega)
      refine ⟨r, ?_, ?_⟩
      · rw [nextMonths, List.foldlM_cons, hNext, ok_bind]
        exact hRest
      · rw [hEnd, hPlace, List.length_cons, Function.iterate_succ_apply]

/-- A month later is 28 to 31 days later. -/
theorem toOrdinal_next {r : Date} (h : r.place = next monthLength d.place) :
    d.toOrdinal + 28 ≤ r.toOrdinal ∧ r.toOrdinal ≤ d.toOrdinal + 31 := by
  have hDay : d.day ≤ monthLength (monthIndex d.year d.month) := by
    rw [monthLength_monthIndex d.monthValid]
    exact d.dayValid.2
  have hBounds (i : Nat) := daysInMonth_bounds (i / 12) (i % 12 + 1)
  obtain ⟨hLower, hUpper⟩ := ordinal_next monthLength (d := d.place) hDay (fun i => (hBounds i).1)
    fun i => (hBounds i).2
  rw [← h, Date.ordinal_place, Date.ordinal_place] at hLower hUpper
  omega

end Next

def endOfJanuary : Date :=
  { sampleTime.toDate with month := 1, day := 31, monthValid := by decide, dayValid := by decide }

/-- After a number of months the date is in the month that is as many later, on the
least of the day and of the lengths of the months that were passed. -/
theorem nextMonths_clipped (d : Date) (hoys : List Date)
    (h : monthIndex d.year d.month + hoys.length ≤ lastMonth) :
    ∃ r, nextMonths hoys d = .ok r ∧
      monthIndex r.year r.month = monthIndex d.year d.month + hoys.length ∧
      r.day = clipped monthLength (monthIndex d.year d.month) hoys.length d.day := by
  obtain ⟨r, hRun, hPlace⟩ := nextMonths_place hoys h
  rw [next_iterate] at hPlace
  exact ⟨r, hRun, congrArg (fun place => (ofLex place).1) hPlace,
    congrArg (fun place => (ofLex place).2) hPlace⟩

theorem nextMonths_clipped_twice : ∃ r, nextMonths [sampleTime.toDate, endOfJanuary] endOfJanuary = .ok r ∧
    monthIndex r.year r.month = monthIndex 2020 1 + 2 ∧ r.day = clipped monthLength (monthIndex 2020 1) 2 31 :=
  nextMonths_clipped endOfJanuary [sampleTime.toDate, endOfJanuary] (by decide)

example : clipped monthLength (monthIndex 2020 1) 2 31 = 29 := by decide

theorem index_lt_lastMonth {d : Date} (hLast : ¬ (d.year = 9999 ∧ d.month = 12)) :
    monthIndex d.year d.month < lastMonth := by
  have hYear := d.yearValid
  have hMonth := d.monthValid
  simp only [lastMonth, monthIndex]
  omega

/-- `next_month` keeps the order of dates and goes between 28 and 31 days ahead. -/
theorem nextMonth_monotone (hoy hoy' d e : Date) (h : d ≤ e)
    (hd : ¬ (d.year = 9999 ∧ d.month = 12)) (he : ¬ (e.year = 9999 ∧ e.month = 12)) :
    ∃ r r', nextMonth hoy d = .ok r ∧ nextMonth hoy' e = .ok r' ∧ r ≤ r' ∧
      (d.toOrdinal + 28 ≤ r.toOrdinal ∧ r.toOrdinal ≤ d.toOrdinal + 31) ∧
      (e.toOrdinal + 28 ≤ r'.toOrdinal ∧ r'.toOrdinal ≤ e.toOrdinal + 31) := by
  obtain ⟨r, hRun, hPlace⟩ := nextMonth_place hoy (index_lt_lastMonth hd)
  obtain ⟨r', hRun', hPlace'⟩ := nextMonth_place hoy' (index_lt_lastMonth he)
  refine ⟨r, r', hRun, hRun', ?_, toOrdinal_next hPlace, toOrdinal_next hPlace'⟩
  rw [Date.le_iff_place, hPlace, hPlace']
  exact next_monotone monthLength (Date.le_iff_place.mp h)

theorem nextMonth_monotone_january :
    ∃ r r', nextMonth endOfJanuary endOfJanuary = .ok r ∧ nextMonth endOfJanuary sampleTime.toDate = .ok r' ∧
      r ≤ r' ∧
      (endOfJanuary.toOrdinal + 28 ≤ r.toOrdinal ∧ r.toOrdinal ≤ endOfJanuary.toOrdinal + 31) ∧
      (sampleTime.toOrdinal + 28 ≤ r'.toOrdinal ∧ r'.toOrdinal ≤ sampleTime.toOrdinal + 31) :=
  nextMonth_monotone endOfJanuary endOfJanuary endOfJanuary sampleTime.toDate (by decide) (by decide) (by decide)

end Spidercheck
