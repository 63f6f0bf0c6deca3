import Mathlib.Data.List.TakeWhile
import Mathlib.Tactic.Common

/-! Python text as a list of characters, with the `str` methods that the
modules above use. Each operation follows its documented behaviour. -/
namespace Text

abbrev Str := List Char

instance : Coe String Str := ⟨String.toList⟩

def isSpace (c : Char) : Bool :=
  (9 ≤ c.toNat && c.toNat ≤ 13) || (28 ≤ c.toNat && c.toNat ≤ 32) ||
  c.toNat == 0x85 || c.toNat == 0xA0 || c.toNat == 0x1680 ||
  (0x2000 ≤ c.toNat && c.toNat ≤ 0x200A) || c.toNat == 0x2028 || c.toNat == 0x2029 ||
  c.toNat == 0x202F || c.toNat == 0x205F || c.toNat == 0x3000

/-- `s.strip()` for an arbitrary set of characters. -/
def stripOf (p : Char → Bool) (s : Str) : Str :=
  ((s.dropWhile p).reverse.dropWhile p).reverse

def strip (s : Str) : Str := stripOf isSpace s

/-- `str.lower` on the Latin-1 range, which is how HTTP headers are decoded. -/
def lowerChar (c : Char) : Char :=
  if ('A' ≤ c && c ≤ 'Z') || (0xC0 ≤ c.toNat && c.toNat ≤ 0xDE && c.toNat != 0xD7) then
    Char.ofNat (c.toNat + 32)
  else c

def lower (s : Str) : Str := s.map lowerChar

/-- `s.split(c, 1)`, with an empty second half when `c` does not occur. -/
def cut (c : Char) (s : Str) : Str × Str :=
  (s.takeWhile (· != c), (s.dropWhile (· != c)).tail)

def startsWith (pre s : Str) : Bool := pre.isPrefixOf s

/-- A text that a column of that width can hold: short enough, without a NUL. -/
def storable (width : Nat) (s : Str) : Bool := s.length ≤ width && !s.contains (Char.ofNat 0)

@[simp] theorem storable_nil (width : Nat) : storable width [] = true := by
  simp [storable]

def ofInt (n : Int) : Str := (toString n).toList

/-- The value of a run of decimal digits, where one underscore may stand
between two digits. -/
def digitsValue : Nat → Str → Option Nat
  | acc, [] => some acc
  | acc, '_' :: c :: rest =>
      if c.isDigit then digitsValue (acc * 10 + (c.toNat - 48)) rest else none
  | acc, c :: rest =>
      if c.isDigit then digitsValue (acc * 10 + (c.toNat - 48)) rest else none

def maxStrDigits : Nat := 4300

/-- `int(s)` on Latin-1 text; `none` is the `ValueError` of a text that is no numeral,
or that has more digits than the interpreter's default limit. -/
def toInt (s : Str) : Option Int :=
  if maxStrDigits < s.countP Char.isDigit then none
  else match strip s with
  | '-' :: c :: rest => if c.isDigit then (digitsValue 0 (c :: rest)).map (fun n => -(n : Int)) else none
  | '+' :: c :: rest => if c.isDigit then (digitsValue 0 (c :: rest)).map Int.ofNat else none
  | c :: rest => if c.isDigit then (digitsValue 0 (c :: rest)).map Int.ofNat else none
  | [] => none

theorem isAlpha_iff {c : Char} :
    c.isAlpha = true ↔ (65 ≤ c.toNat ∧ c.toNat ≤ 90) ∨ (97 ≤ c.toNat ∧ c.toNat ≤ 122) := by
  have hUpper : c.isUpper = true ↔ 65 ≤ c.toNat ∧ c.toNat ≤ 90 := decide_eq_true_iff
  have hLower : c.isLower = true ↔ 97 ≤ c.toNat ∧ c.toNat ≤ 122 :=
    Bool.and_eq_true_iff.trans (and_congr decide_eq_true_iff decide_eq_true_iff)
  exact Bool.or_eq_true_iff.trans (or_congr hUpper hLower)

section Cut
variable {c : Char} {s t : Str}

private theorem all_bne (h : c ∉ s) : ∀ x ∈ s, (x != c) = true := by
  intro x hx
  rw [bne_iff_ne]
  rintro rfl
  exact h hx

theorem cut_append (h : c ∉ s) : cut c (s ++ c :: t) = (s, t) := by
  simp [cut, List.takeWhile_append_of_pos (all_bne h), List.dropWhile_append_of_pos (all_bne h)]

theorem cut_of_notMem (h : c ∉ s) : cut c s = (s, []) := by
  simp [cut, List.takeWhile_eq_self_iff.mpr (all_bne h), List.dropWhile_eq_nil_iff.mpr (all_bne h)]

theorem notMem_cut_fst : c ∉ (cut c s).1 := by
  intro h
  simpa using List.mem_takeWhile_imp h

theorem mem_of_mem_cut_fst {x : Char} (h : x ∈ (cut c s).1) : x ∈ s :=
  (List.takeWhile_sublist _).subset h

theorem mem_of_mem_cut_snd {x : Char} (h : x ∈ (cut c s).2) : x ∈ s :=
  (List.dropWhile_sublist _).subset (List.mem_of_mem_tail h)

end Cut

section Strip
variable {c : Char} {s t left right : Str}

def Opens (t : Str) : Prop := ∃ c rest, t = c :: rest ∧ isSpace c = false

def Closes (t : Str) : Prop := ∃ initial c, t = initial ++ [c] ∧ isSpace c = false

theorem Opens.append (h : Opens s) (t : Str) : Opens (s ++ t) := by
  obtain ⟨c, rest, rfl, hc⟩ := h
  exact ⟨c, rest ++ t, rfl, hc⟩

theorem Closes.append (h : Closes t) (s : Str) : Closes (s ++ t) := by
  obtain ⟨initial, c, rfl, hc⟩ := h
  exact ⟨s ++ initial, c, (List.append_assoc ..).symm, hc⟩

theorem Closes.cons (h : Closes t) (c : Char) : Closes (c :: t) := h.append [c]

/-- White space around a text is stripped. -/
theorem strip_pad (hLeft : ∀ c ∈ left, isSpace c = true) (hRight : ∀ c ∈ right, isSpace c = true)
    (hOpens : Opens t) (hCloses : Closes t) : strip (left ++ t ++ right) = t := by
  have hFront : (left ++ t ++ right).dropWhile isSpace = t ++ right := by
    obtain ⟨c, rest, rfl, hc⟩ := hOpens
    rw [List.append_assoc, List.dropWhile_append_of_pos hLeft]
    simp [hc]
  have hBack : (t ++ right).reverse.dropWhile isSpace = t.reverse := by
    obtain ⟨initial, c, rfl, hc⟩ := hCloses
    rw [List.reverse_append, List.dropWhile_append_of_pos (by simpa using hRight)]
    simp [hc]
  rw [strip, stripOf, hFront, hBack, List.reverse_reverse]

/-- A stripped text does not end with white space. -/
theorem isSpace_getLast?_strip : ∀ c ∈ (strip s).getLast?, isSpace c = false := by
  intro c hc
  have hLast : ((s.dropWhile isSpace).reverse.dropWhile isSpace).head? = some c := by
    simpa [strip, stripOf] using hc
  have hHead := List.head?_dropWhile_not isSpace (s.dropWhile isSpace).reverse
  rwa [hLast] at hHead

end Strip

end Text
