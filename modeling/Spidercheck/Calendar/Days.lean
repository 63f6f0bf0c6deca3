import Spidercheck.Calendar.Months

/-! Days one after the other. The day after the last one of a month is the first one
of the month that follows, so a day's number goes up by one and no number is left out. -/
namespace Calendar

variable {length : ℕ → ℕ} {d e : ℕ ×ₗ ℕ}

def IsDay (length : ℕ → ℕ) (d : ℕ ×ₗ ℕ) : Prop := 1 ≤ (ofLex d).2 ∧ (ofLex d).2 ≤ length (ofLex d).1

def tomorrow (length : ℕ → ℕ) (d : ℕ ×ₗ ℕ) : ℕ ×ₗ ℕ :=
  if (ofLex d).2 < length (ofLex d).1 then toLex ((ofLex d).1, (ofLex d).2 + 1)
  else toLex ((ofLex d).1 + 1, 1)

/-- The day after has the next number. -/
theorem ordinal_tomorrow (h : IsDay length d) :
    ordinal length (tomorrow length d) = ordinal length d + 1 := by
  obtain ⟨-, hLast⟩ := h
  rw [tomorrow]
  split_ifs with hMore
  · rfl
  · simp only [ordinal, ofLex_toLex, start_succ]
    omega

theorem start_mono (length : ℕ → ℕ) : Monotone (start length) :=
  monotone_nat_of_le_succ fun i => by simp

/-- An earlier day has a smaller number. -/
theorem ordinal_lt (hd : IsDay length d) (he : IsDay length e) (h : d < e) :
    ordinal length d < ordinal length e := by
  obtain ⟨-, hLast⟩ := hd
  obtain ⟨hFirst, -⟩ := he
  rw [ordinal, ordinal]
  obtain hMonth | ⟨hMonth, hDay⟩ := Prod.Lex.lt_iff.mp h
  · have hStart := start_mono length (Nat.succ_le_of_lt hMonth)
    rw [start_succ] at hStart
    omega
  · rw [hMonth]
    exact Nat.add_lt_add_left hDay _

/-- The numbers of days are in the order of the days. -/
theorem ordinal_le_iff (hd : IsDay length d) (he : IsDay length e) :
    ordinal length d ≤ ordinal length e ↔ d ≤ e := by
  constructor
  · intro h
    by_contra hNot
    exact absurd (ordinal_lt he hd (not_le.mp hNot)) (by omega)
  · intro h
    rcases h.eq_or_lt with rfl | hLess
    · exact le_rfl
    · exact (ordinal_lt hd he hLess).le

/-- Different days have different numbers. -/
theorem ordinal_inj (hd : IsDay length d) (he : IsDay length e)
    (h : ordinal length d = ordinal length e) : d = e :=
  le_antisymm ((ordinal_le_iff hd he).mp h.le) ((ordinal_le_iff he hd).mp h.ge)

end Calendar
