import Mathlib.Data.Prod.Lex
import Mathlib.Algebra.BigOperators.Group.List.Basic
import Mathlib.Algebra.GroupWithZero.Nat
import Mathlib.Order.MinMax

/-! Months that follow each other and have their own lengths. A day is a month and
a number within it, and the days are ordered by both. -/
namespace Calendar

variable (length : ℕ → ℕ)

def start (i : ℕ) : ℕ := ((List.range i).map length).sum

/-- How many days have gone by at the end of the day. -/
def ordinal (d : ℕ ×ₗ ℕ) : ℕ := start length (ofLex d).1 + (ofLex d).2

def next (d : ℕ ×ₗ ℕ) : ℕ ×ₗ ℕ :=
  toLex ((ofLex d).1 + 1, min (length ((ofLex d).1 + 1)) (ofLex d).2)

/-- The day that is left behind the months that follow. -/
def clipped (i n day : ℕ) : ℕ := ((List.range n).map fun k => length (i + (k + 1))).foldl min day

@[simp] theorem start_succ (i : ℕ) : start length (i + 1) = start length i + length i := by
  simp [start, List.range_succ]

theorem start_add (i n : ℕ) :
    start length (i + n) = start length i + ((List.range n).map fun k => length (i + k)).sum := by
  simp [start, List.range_add, Function.comp_def]

/-- One more month clips the day by its length. -/
@[simp] theorem clipped_succ (i n day : ℕ) :
    clipped length i (n + 1) day = min (clipped length i n day) (length (i + (n + 1))) := by
  simp [clipped, List.range_succ]

/-- Each of the months in between cuts the day off. -/
theorem next_iterate (n : ℕ) (d : ℕ ×ₗ ℕ) : (next length)^[n] d =
    toLex ((ofLex d).1 + n, clipped length (ofLex d).1 n (ofLex d).2) := by
  induction n with
  | zero => rfl
  | succ n ih =>
      rw [Function.iterate_succ_apply', ih, clipped_succ, min_comm]
      rfl

/-- The day in the next month is no earlier for a later day. -/
theorem next_monotone : Monotone (next length) := by
  intro d e h
  obtain hMonth | ⟨hMonth, hDay⟩ := Prod.Lex.le_iff.mp h
  · exact Prod.Lex.toLex_le_toLex.mpr (.inl (Nat.succ_lt_succ hMonth))
  · refine Prod.Lex.toLex_le_toLex.mpr (.inr ⟨congrArg Nat.succ hMonth, ?_⟩)
    rw [hMonth]
    exact min_le_min le_rfl hDay

/-- A step is as long as the shorter of the two months at least, and as the longer one at most. -/
theorem ordinal_next {d : ℕ ×ₗ ℕ} {lower upper : ℕ} (hDay : (ofLex d).2 ≤ length (ofLex d).1)
    (hLower : ∀ i, lower ≤ length i) (hUpper : ∀ i, length i ≤ upper) :
    ordinal length d + lower ≤ ordinal length (next length d) ∧
      ordinal length (next length d) ≤ ordinal length d + upper := by
  have hThis := hUpper (ofLex d).1
  have hShort := hLower (ofLex d).1
  have hNext := hLower ((ofLex d).1 + 1)
  simp only [ordinal, next, ofLex_toLex, start_succ]
  omega

end Calendar
