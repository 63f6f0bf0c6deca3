import Spidercheck.Calendar.Days
import Spidercheck.Dates.Months
import Spidercheck.Model.Page

/-! Steps of a day and of an hour. `next_day` goes through the dates without leaving
one out, and so does `last_hours` through the hours. -/
namespace Spidercheck

open Text Calendar

def outOfRange : PyError := overflowError "date value out of range"

/-- `next_day`: `fecha + ONE_DAY` puts a day that its month does not have in the month after. -/
def nextDay (fecha : Date) : Except PyError Date :=
  if fecha.day < daysInMonth fecha.year fecha.month then Date.make fecha.year fecha.month (fecha.day + 1)
  else if fecha.month < 12 then Date.make fecha.year (fecha.month + 1) 1
  else if fecha.year < 9999 then Date.make (fecha.year + 1) 1 1
  else .error outOfRange

def previousDay (fecha : Date) : Except PyError Date :=
  if 1 < fecha.day then Date.make fecha.year fecha.month (fecha.day - 1)
  else if 1 < fecha.month then
    Date.make fecha.year (fecha.month - 1) (daysInMonth fecha.year (fecha.month - 1))
  else if 1 < fecha.year then Date.make (fecha.year - 1) 12 31
  else .error outOfRange

def nextDays : Nat → Date → Except PyError Date
  | 0, fecha => .ok fecha
  | n + 1, fecha => do nextDays n (← nextDay fecha)

def DateTime.minusHour (now : DateTime) : Except PyError DateTime :=
  if 1 ≤ now.hour then
    .ok { now with hour := now.hour - 1, hourValid := Nat.lt_of_le_of_lt (Nat.sub_le _ _) now.hourValid }
  else do
    let date ← previousDay now.toDate
    return { date with
      hour := 23, minute := now.minute, second := now.second
      hourValid := by decide, minuteValid := now.minuteValid, secondValid := now.secondValid }

def lastHoursFrom : Nat → DateTime → Generator (Nat × Nat × Nat × Nat)
  | 0, _ => { yielded := [], raised := none }
  | size + 1, now =>
    match now.minusHour with
    | .error e => { yielded := [(now.year, now.month, now.day, now.hour)], raised := some e }
    | .ok earlier =>
      { yielded := (now.year, now.month, now.day, now.hour) :: (lastHoursFrom size earlier).yielded,
        raised := (lastHoursFrom size earlier).raised }

def lastHours (now : DateTime) (size : Int) : Generator (Nat × Nat × Nat × Nat) :=
  lastHoursFrom size.toNat now

section Days
variable {d e : Date}

theorem Date.isDay_place (d : Date) : IsDay monthLength d.place :=
  ⟨d.dayValid.1, by
    show d.day ≤ monthLength (monthIndex d.year d.month)
    rw [monthLength_monthIndex d.monthValid]
    exact d.dayValid.2⟩

/-- The ordinals are in the order of the dates. -/
theorem Date.toOrdinal_le_iff : d.toOrdinal ≤ e.toOrdinal ↔ d ≤ e := by
  rw [Date.le_iff_place, ← ordinal_le_iff d.isDay_place e.isDay_place, Date.ordinal_place,
    Date.ordinal_place]
  omega

theorem Date.ext_place (h : d.place = e.place) : d = e := by
  have hd := d.monthValid
  have he := e.monthValid
  obtain ⟨hIndex, hDay⟩ := Prod.mk.inj (congrArg ofLex h)
  simp only [monthIndex] at hIndex
  cases d
  cases e
  simp only [Date.mk.injEq] at hd he hIndex hDay ⊢
  omega

/-- Different dates have different ordinals. -/
theorem Date.toOrdinal_inj (h : d.toOrdinal = e.toOrdinal) : d = e := by
  refine Date.ext_place (ordinal_inj d.isDay_place e.isDay_place ?_)
  rw [Date.ordinal_place, Date.ordinal_place, h]

def lastDate : Date where
  year := 9999
  month := 12
  day := 31
  yearValid := by decide
  monthValid := by decide
  dayValid := by decide

theorem le_lastDate (d : Date) : d ≤ lastDate := by
  have hYear := d.yearValid
  have hMonth := d.monthValid
  have hDay := d.dayValid
  have hBound := daysInMonth_bounds d.year d.month
  show d.year < 9999 ∨ d.year = 9999 ∧ (d.month < 12 ∨ d.month = 12 ∧ d.day ≤ 31)
  omega

/-- The day after is in the same month, unless the month is over. -/
theorem tomorrow_place (d : Date) : tomorrow monthLength d.place =
    if d.day < daysInMonth d.year d.month then toLex (monthIndex d.year d.month, d.day + 1)
    else toLex (monthIndex d.year d.month + 1, 1) := by
  rw [tomorrow, ← monthLength_monthIndex d.monthValid]
  rfl

/-- A date that exists is made as it is given. -/
theorem Date.make_eq_ok {year month day : Nat} (hYear : 1 ≤ year ∧ year ≤ 9999)
    (hMonth : 1 ≤ month ∧ month ≤ 12) (hDay : 1 ≤ day ∧ day ≤ daysInMonth year month) :
    Date.make year month day = .ok ⟨year, month, day, hYear, hMonth, hDay⟩ :=
  Date.make_self ⟨year, month, day, hYear, hMonth, hDay⟩

/-- `next_day` gives the day after wherever there is one. -/
theorem nextDay_place (hNot : d ≠ lastDate) :
    ∃ r, nextDay d = .ok r ∧ r.place = tomorrow monthLength d.place := by
  have hYear := d.yearValid
  have hMonth := d.monthValid
  have hDay := d.dayValid
  rw [nextDay, tomorrow_place]
  split_ifs with hMore hMonths hYears
  · exact ⟨_, Date.make_eq_ok hYear hMonth ⟨by omega, hMore⟩, rfl⟩
  · have hFirst : 1 ≤ 1 ∧ 1 ≤ daysInMonth d.year (d.month + 1) :=
      ⟨le_rfl, le_trans (by decide) (daysInMonth_bounds _ _).1⟩
    refine ⟨_, Date.make_eq_ok hYear ⟨by omega, hMonths⟩ hFirst, ?_⟩
    have hIndex : monthIndex d.year (d.month + 1) = monthIndex d.year d.month + 1 := by
      simp only [monthIndex]
      omega
    simp only [Date.place, hIndex]
  · have hFirst : 1 ≤ 1 ∧ 1 ≤ daysInMonth (d.year + 1) 1 :=
      ⟨le_rfl, le_trans (by decide) (daysInMonth_bounds _ _).1⟩
    refine ⟨_, Date.make_eq_ok ⟨by omega, hYears⟩ ⟨le_rfl, by decide⟩ hFirst, ?_⟩
    have hIndex : monthIndex (d.year + 1) 1 = monthIndex d.year d.month + 1 := by
      simp only [monthIndex]
      omega
    simp only [Date.place, hIndex]
  · have hLastYear : d.year = 9999 := by omega
    have hLastMonth : d.month = 12 := by omega
    refine absurd (Date.ext_place ?_) hNot
    have hLastDay : d.day = 31 := by
      rw [hLastYear, hLastMonth] at hMore hDay
      have hDecember : daysInMonth 9999 12 = 31 := rfl
      omega
    simp only [Date.place, hLastYear, hLastMonth, hLastDay, lastDate]

theorem nextDay_lastDate : nextDay lastDate = .error outOfRange := by decide

/-- The day after has the next ordinal. -/
theorem toOrdinal_tomorrow {r : Date} (h : r.place = tomorrow monthLength d.place) :
    r.toOrdinal = d.toOrdinal + 1 := by
  have hOrdinal := ordinal_tomorrow d.isDay_place
  rw [← h, Date.ordinal_place, Date.ordinal_place] at hOrdinal
  omega

theorem nextDay_eq_ok (d r : Date) : nextDay d = .ok r ↔ r.toOrdinal = d.toOrdinal + 1 := by
  by_cases hLast : d = lastDate
  · subst hLast
    have hBound := Date.toOrdinal_le_iff.mpr (le_lastDate r)
    rw [nextDay_lastDate]
    constructor
    · intro h
      cases h
    · intro h
      omega
  · obtain ⟨r', hNext, hPlace⟩ := nextDay_place hLast
    rw [hNext]
    constructor
    · intro h
      cases h
      exact toOrdinal_tomorrow hPlace
    · intro h
      rw [Date.toOrdinal_inj (h.trans (toOrdinal_tomorrow hPlace).symm)]

theorem nextDays_cases (n : Nat) (d : Date) :
    (∃ e, nextDays n d = .ok e ∧ e.toOrdinal = d.toOrdinal + n) ∨
      nextDays n d = .error outOfRange ∧ lastDate.toOrdinal < d.toOrdinal + n := by
  induction n generalizing d with
  | zero => exact .inl ⟨d, rfl, rfl⟩
  | succ n ih =>
      rw [nextDays]
      by_cases hLast : d = lastDate
      · subst hLast
        rw [nextDay_lastDate]
        exact .inr ⟨rfl, by omega⟩
      · obtain ⟨r, hNext, hPlace⟩ := nextDay_place hLast
        have hCount : r.toOrdinal + n = d.toOrdinal + (n + 1) := by
          rw [toOrdinal_tomorrow hPlace]
          omega
        rw [hNext, ok_bind, ← hCount]
        exact ih r

/-- After some days the ordinal is larger by their number. -/
theorem nextDays_eq_ok (n : Nat) (d e : Date) :
    nextDays n d = .ok e ↔ e.toOrdinal = d.toOrdinal + n := by
  rcases nextDays_cases n d with ⟨r, hRun, hCount⟩ | ⟨hRun, hPast⟩
  · rw [hRun, ← hCount]
    exact ⟨fun h => by rw [Except.ok.inj h], fun h => by rw [Date.toOrdinal_inj h]⟩
  · have hBound := Date.toOrdinal_le_iff.mpr (le_lastDate e)
    rw [hRun]
    constructor
    · intro h
      cases h
    · intro h
      omega

/-- `next_day` over and over comes to each later date, once and in order, and it raises
only behind the last date of all. -/
theorem nextDays_reach (d : Date) :
    (∀ e, d ≤ e ↔ ∃ n, nextDays n d = .ok e) ∧
      (∀ n m e f, nextDays n d = .ok e → nextDays m d = .ok f → (n ≤ m ↔ e ≤ f)) ∧
      (∀ n, nextDays n d = .error outOfRange ∨ ∃ e, nextDays n d = .ok e) ∧
      ∃ n, nextDays n d = .ok lastDate ∧ nextDays (n + 1) d = .error outOfRange := by
  refine ⟨fun e => ?_, fun n m e f hn hm => ?_, fun n => ?_, ?_⟩
  · simp only [← Date.toOrdinal_le_iff, nextDays_eq_ok]
    exact ⟨fun h => ⟨e.toOrdinal - d.toOrdinal, by omega⟩, fun ⟨n, h⟩ => by omega⟩
  · rw [nextDays_eq_ok] at hn hm
    rw [← Date.toOrdinal_le_iff]
    omega
  · rcases nextDays_cases n d with ⟨e, hRun, -⟩ | ⟨hRun, -⟩
    · exact .inr ⟨e, hRun⟩
    · exact .inl hRun
  · have hBound := Date.toOrdinal_le_iff.mpr (le_lastDate d)
    have hRun := (nextDays_eq_ok (lastDate.toOrdinal - d.toOrdinal) d lastDate).mpr (by omega)
    refine ⟨_, hRun, ?_⟩
    rcases nextDays_cases (lastDate.toOrdinal - d.toOrdinal + 1) d with ⟨e, -, hCount⟩ | ⟨hEnd, -⟩
    · have hLast := Date.toOrdinal_le_iff.mpr (le_lastDate e)
      omega
    · exact hEnd

/-- The day before is the one whose next day it is. Before the first date of all there is none. -/
theorem previousDay_cases (d : Date) : (∃ r, previousDay d = .ok r ∧ nextDay r = .ok d) ∨
    previousDay d = .error outOfRange ∧ d.toOrdinal = 1 := by
  have hYear := d.yearValid
  have hMonth := d.monthValid
  have hDay := d.dayValid
  rw [previousDay]
  split_ifs with hDays hMonths hYears
  · have hBefore : 1 ≤ d.day - 1 ∧ d.day - 1 ≤ daysInMonth d.year d.month := by omega
    refine .inl ⟨_, Date.make_eq_ok hYear hMonth hBefore, ?_⟩
    have hMore : d.day - 1 < daysInMonth d.year d.month := by omega
    rw [nextDay, if_pos hMore, Nat.sub_add_cancel (by omega)]
    exact d.make_self
  · have hBounds := daysInMonth_bounds d.year (d.month - 1)
    refine .inl ⟨_, Date.make_eq_ok hYear ⟨by omega, by omega⟩ ⟨by omega, le_rfl⟩, ?_⟩
    have hFirst : d.day = 1 := by omega
    rw [nextDay, if_neg (Nat.lt_irrefl _), if_pos (by show d.month - 1 < 12; omega)]
    show Date.make d.year (d.month - 1 + 1) 1 = _
    rw [Nat.sub_add_cancel (by omega), ← hFirst]
    exact d.make_self
  · have hDecember : 1 ≤ 31 ∧ 31 ≤ daysInMonth (d.year - 1) 12 := ⟨by decide, le_rfl⟩
    refine .inl ⟨_, Date.make_eq_ok ⟨by omega, by omega⟩ ⟨by decide, le_rfl⟩ hDecember, ?_⟩
    have hFirst : d.day = 1 ∧ d.month = 1 := by omega
    rw [nextDay, if_neg (by exact Nat.lt_irrefl 31), if_neg (Nat.lt_irrefl 12),
      if_pos (by show d.year - 1 < 9999; omega)]
    show Date.make (d.year - 1 + 1) 1 1 = _
    have hSelf := d.make_self
    rw [hFirst.1, hFirst.2] at hSelf
    rw [Nat.sub_add_cancel (by omega), hSelf]
  · obtain ⟨hFirstYear, hFirstMonth, hFirstDay⟩ : d.year = 1 ∧ d.month = 1 ∧ d.day = 1 := by omega
    refine .inr ⟨rfl, ?_⟩
    rw [Date.toOrdinal, hFirstYear, hFirstMonth, hFirstDay]
    rfl

end Days

section Hours
variable {now : DateTime}

/-- How many hours have gone by at the beginning of the hour. -/
def DateTime.hourNumber (t : DateTime) : Nat := 24 * t.toOrdinal + t.hour

/-- What `last_hours` tells of a time. -/
def DateTime.slot (t : DateTime) : Nat × Nat × Nat × Nat := (t.year, t.month, t.day, t.hour)

theorem toOrdinal_pos (d : Date) : 1 ≤ d.toOrdinal := by
  rw [Date.toOrdinal, ordinalOf]
  exact d.dayValid.1.trans (Nat.le_add_left _ _)

/-- An hour earlier, on the day before if it must be. Before the first hour there is none. -/
theorem minusHour_cases (now : DateTime) :
    (∃ earlier, now.minusHour = .ok earlier ∧ now.hourNumber = earlier.hourNumber + 1) ∨
      now.minusHour = .error outOfRange ∧ now.hourNumber = 24 := by
  rw [DateTime.minusHour]
  split_ifs with hHour
  · refine .inl ⟨_, rfl, ?_⟩
    simp only [DateTime.hourNumber]
    omega
  · rcases previousDay_cases now.toDate with ⟨r, hBefore, hNext⟩ | ⟨hNone, hFirst⟩
    · refine .inl ⟨{ r with
        hour := 23, minute := now.minute, second := now.second
        hourValid := by decide, minuteValid := now.minuteValid, secondValid := now.secondValid }, ?_, ?_⟩
      · rw [hBefore]
        rfl
      · have hOrdinal := (nextDay_eq_ok r now.toDate).mp hNext
        simp only [DateTime.hourNumber]
        omega
    · refine .inr ⟨by rw [hNone]; rfl, ?_⟩
      rw [DateTime.hourNumber, hFirst]
      omega

/-- The loop goes back hour by hour, for as long as there are days. -/
theorem lastHoursFrom_hours (size : Nat) (now : DateTime) : ∃ times : List DateTime,
    (lastHoursFrom size now).yielded = times.map (·.slot) ∧
      times.map (·.hourNumber) = (List.range times.length).map (now.hourNumber - ·) ∧
      if size + 24 ≤ now.hourNumber then
        (lastHoursFrom size now).raised = none ∧ times.length = size
      else (lastHoursFrom size now).raised = some outOfRange ∧ times.length + 23 = now.hourNumber := by
  induction size generalizing now with
  | zero =>
      have hFirst : 24 ≤ now.hourNumber := by
        have hDate := toOrdinal_pos now.toDate
        simp only [DateTime.hourNumber]
        omega
      exact ⟨[], rfl, rfl, by simp [lastHoursFrom, hFirst]⟩
  | succ size ih =>
      rw [lastHoursFrom]
      rcases minusHour_cases now with ⟨earlier, hBefore, hHours⟩ | ⟨hEnd, hHours⟩
      · obtain ⟨times, hSlots, hNumbers, hEnd⟩ := ih earlier
        rw [hBefore]
        refine ⟨now :: times, by simp [hSlots, DateTime.slot], ?_, ?_⟩
        · rw [List.length_cons, List.range_succ_eq_map, List.map_cons, hNumbers, List.map_cons,
            List.map_map]
          refine congrArg (_ :: ·) (List.map_congr_left fun k _ => ?_)
          simp only [Function.comp_apply]
          omega
        · split_ifs at hEnd ⊢ with hEarlier hNow
          · exact ⟨hEnd.1, by rw [List.length_cons, hEnd.2]⟩
          · omega
          · omega
          · refine ⟨hEnd.1, ?_⟩
            rw [List.length_cons]
            omega
      · rw [hEnd]
        refine ⟨[now], rfl, by simp, ?_⟩
        rw [if_neg (by omega)]
        exact ⟨rfl, by simp [hHours]⟩

/-- How many hours have gone by at the beginning of an hour that `last_hours` tells. -/
def slotNumber (slot : Nat × Nat × Nat × Nat) : Nat :=
  24 * ordinalOf slot.1 slot.2.1 slot.2.2.1 + slot.2.2.2

/-- `last_hours` yields the hours back from now, through days, months and years, each of
them once and none left out. It raises where it would go behind the first hour of all. -/
theorem lastHours_hours (now : DateTime) (size : Int) :
    let hours := lastHours now size
    (∀ slot ∈ hours.yielded, ∃ t : DateTime, t.slot = slot) ∧ hours.yielded.Nodup ∧
      hours.yielded.map slotNumber = (List.range hours.yielded.length).map (now.hourNumber - ·) ∧
      if size.toNat + 24 ≤ now.hourNumber then
        hours.raised = none ∧ hours.yielded.length = size.toNat
      else hours.raised = some outOfRange ∧ hours.yielded.length + 23 = now.hourNumber := by
  intro hours
  obtain ⟨times, hSlots, hNumbers, hEnd⟩ := lastHoursFrom_hours size.toNat now
  have hSlots : hours.yielded = times.map (·.slot) := hSlots
  have hLength : hours.yielded.length = times.length := by rw [hSlots, List.length_map]
  have hHours : hours.yielded.map slotNumber =
      (List.range hours.yielded.length).map (now.hourNumber - ·) := by
    rw [hLength, ← hNumbers, hSlots, List.map_map]
    rfl
  have hBound : hours.yielded.length ≤ now.hourNumber := by
    split_ifs at hEnd <;> omega
  refine ⟨fun slot hSlot => ?_, ?_, hHours, by rw [hLength]; exact hEnd⟩
  · rw [hSlots] at hSlot
    obtain ⟨t, -, rfl⟩ := List.mem_map.mp hSlot
    exact ⟨t, rfl⟩
  · refine List.Nodup.of_map slotNumber ?_
    rw [hHours]
    refine List.Nodup.map_on (fun i hi j hj hSame => ?_) List.nodup_range
    have hi := List.mem_range.mp hi
    have hj := List.mem_range.mp hj
    omega

end Hours

end Spidercheck
