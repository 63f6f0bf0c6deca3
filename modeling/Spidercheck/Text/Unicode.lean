import Spidercheck.Text.Basic

/-! The character tables that `str` and `re` share. They are a parameter: of the
characters outside ASCII nothing is known but that a decimal digit is a digit
and that no word character is white space. -/
namespace Text

theorem isDigit_iff {c : Char} : c.isDigit = true ↔ 48 ≤ c.toNat ∧ c.toNat ≤ 57 := by
  simp only [Char.isDigit, Bool.and_eq_true, decide_eq_true_eq, ge_iff_le, UInt32.le_iff_toNat_le,
    Char.toNat]
  exact Iff.rfl

theorem lt_of_isAlphanum {c : Char} (h : c.isAlphanum = true) : c.toNat < 128 := by
  simp only [Char.isAlphanum, Bool.or_eq_true, isAlpha_iff, isDigit_iff] at h
  omega

theorem toNat_toLower {c : Char} :
    c.toLower.toNat = if 65 ≤ c.toNat ∧ c.toNat ≤ 90 then c.toNat + 32 else c.toNat := by
  have hRange : (c.val ≥ 'A'.val ∧ c.val ≤ 'Z'.val) ↔ 65 ≤ c.toNat ∧ c.toNat ≤ 90 := by
    simp only [ge_iff_le, UInt32.le_iff_toNat_le]
    rfl
  unfold Char.toLower
  split
  · next hUpper =>
      rw [if_pos (hRange.mp hUpper)]
      have hBound := (hRange.mp hUpper).2
      have hShift : ('a'.val - 'A'.val).toNat = 32 := by decide
      show (c.val + ('a'.val - 'A'.val)).toNat = c.toNat + 32
      rw [UInt32.toNat_add, hShift]
      apply Nat.mod_eq_of_lt
      show c.toNat + 32 < _
      omega
  · next hOther => rw [if_neg (mt hRange.mpr hOther)]

theorem toNat_toUpper {c : Char} :
    c.toUpper.toNat = if 97 ≤ c.toNat ∧ c.toNat ≤ 122 then c.toNat - 32 else c.toNat := by
  have hRange : (c.val ≥ 'a'.val ∧ c.val ≤ 'z'.val) ↔ 97 ≤ c.toNat ∧ c.toNat ≤ 122 := by
    simp only [ge_iff_le, UInt32.le_iff_toNat_le]
    rfl
  unfold Char.toUpper
  split
  · next hLower =>
      rw [if_pos (hRange.mp hLower)]
      have hBounds := hRange.mp hLower
      have hShift : ('A'.val - 'a'.val).toNat = 2 ^ 32 - 32 := by decide
      show (c.val + ('A'.val - 'a'.val)).toNat = c.toNat - 32
      rw [UInt32.toNat_add, hShift]
      show (c.toNat + (2 ^ 32 - 32)) % 2 ^ 32 = c.toNat - 32
      omega
  · next hOther => rw [if_neg (mt hRange.mpr hOther)]

/-- Upper case and lower case tell the same characters apart. -/
theorem toUpper_inj {c d : Char} : c.toUpper = d.toUpper ↔ c.toLower = d.toLower := by
  rw [← Char.toNat_inj, ← Char.toNat_inj, toNat_toUpper, toNat_toUpper, toNat_toLower, toNat_toLower]
  split <;> split <;> split <;> split <;> omega

theorem toNat_ofNat_of_lt {n : Nat} (h : n < 0xD800) : (Char.ofNat n).toNat = n := by
  rw [Char.ofNat, dif_pos (.inl h)]
  rfl

theorem toNat_lowerChar {c : Char} : (lowerChar c).toNat =
    if (65 ≤ c.toNat ∧ c.toNat ≤ 90) ∨ (192 ≤ c.toNat ∧ c.toNat ≤ 222 ∧ c.toNat ≠ 215) then c.toNat + 32
    else c.toNat := by
  have hLetter : ('A' ≤ c ∧ c ≤ 'Z') ↔ 65 ≤ c.toNat ∧ c.toNat ≤ 90 := by
    simp only [Char.le_def, UInt32.le_iff_toNat_le]
    rfl
  have hRange : (('A' ≤ c && c ≤ 'Z') || (0xC0 ≤ c.toNat && c.toNat ≤ 0xDE && c.toNat != 0xD7)) = true ↔
      (65 ≤ c.toNat ∧ c.toNat ≤ 90) ∨ (192 ≤ c.toNat ∧ c.toNat ≤ 222 ∧ c.toNat ≠ 215) := by
    simp only [Bool.or_eq_true, Bool.and_eq_true, decide_eq_true_eq, bne_iff_ne, hLetter, and_assoc]
  unfold lowerChar
  by_cases hUpper : (65 ≤ c.toNat ∧ c.toNat ≤ 90) ∨ (192 ≤ c.toNat ∧ c.toNat ≤ 222 ∧ c.toNat ≠ 215)
  · rw [if_pos (hRange.mpr hUpper), if_pos hUpper, toNat_ofNat_of_lt (by omega)]
  · rw [if_neg (mt hRange.mp hUpper), if_neg hUpper]

structure Unicode where
  /-- The value of a character that `\d` matches. -/
  decimal : Char → Option Nat
  /-- `str.isdigit` of one character. -/
  isDigit : Char → Bool
  /-- The characters that `\w` matches. -/
  isWord : Char → Bool
  upper : Str → Str
  lower : Str → Str
  decimal_ascii : ∀ c, c.toNat < 128 → decimal c = if c.isDigit then some (c.toNat - 48) else none
  isDigit_of_decimal : ∀ c, (decimal c).isSome = true → isDigit c = true
  isDigit_ascii : ∀ c, c.toNat < 128 → isDigit c = c.isDigit
  isWord_ascii : ∀ c, c.toNat < 128 → isWord c = (c.isAlphanum || c == '_')
  isSpace_of_isWord : ∀ c, isWord c = true → isSpace c = false
  upper_ascii : ∀ s : Str, (∀ c ∈ s, c.toNat < 128) → upper s = s.map Char.toUpper

theorem isSpace_of_isAlphanum {c : Char} (h : (c.isAlphanum || c == '_') = true) :
    isSpace c = false := by
  have hRange : (48 ≤ c.toNat ∧ c.toNat ≤ 57) ∨ (65 ≤ c.toNat ∧ c.toNat ≤ 90) ∨
      (97 ≤ c.toNat ∧ c.toNat ≤ 122) ∨ c.toNat = 95 := by
    simp only [Char.isAlphanum, Bool.or_eq_true, isAlpha_iff, isDigit_iff, beq_iff_eq] at h
    rcases h with (h | h) | rfl
    · omega
    · omega
    · decide
  simp only [isSpace, Bool.or_eq_false_iff, Bool.and_eq_false_iff, decide_eq_false_iff_not,
    beq_eq_false_iff_ne]
  omega

namespace Unicode

/-- The tables of ASCII, for texts without other characters. -/
def ascii : Unicode where
  decimal c := if c.isDigit then some (c.toNat - 48) else none
  isDigit c := c.isDigit
  isWord c := c.isAlphanum || c == '_'
  upper s := s.map Char.toUpper
  lower s := s.map Char.toLower
  decimal_ascii _ _ := rfl
  isDigit_of_decimal c h := by
    by_contra hNot
    simp [hNot] at h
  isDigit_ascii _ _ := rfl
  isWord_ascii _ _ := rfl
  isSpace_of_isWord _ h := isSpace_of_isAlphanum h
  upper_ascii _ _ := rfl

variable (u : Unicode)

def isDecimal (c : Char) : Bool := (u.decimal c).isSome

def allDigits (s : Str) : Bool := !s.isEmpty && s.all u.isDigit

/-- `int(s)` of a text of digits; a digit without a decimal value is a `ValueError`. -/
def toNat (s : Str) : Option Nat :=
  s.foldlM (fun acc c => (u.decimal c).map (acc * 10 + ·)) 0

variable {u} {c : Char}

theorem isDecimal_ascii (h : c.toNat < 128) : u.isDecimal c = c.isDigit := by
  rw [isDecimal, u.decimal_ascii c h]
  split
  · next hDigit => simp [hDigit]
  · next hDigit => simp [hDigit]

theorem isDecimal_of_isDigit (h : c.isDigit = true) : u.isDecimal c = true := by
  rw [isDecimal_ascii (lt_of_isAlphanum (by simp [Char.isAlphanum, h])), h]

theorem isWord_of_isAlphanum (h : c.isAlphanum = true) : u.isWord c = true := by
  rw [u.isWord_ascii c (lt_of_isAlphanum h), h, Bool.true_or]

end Unicode

end Text
