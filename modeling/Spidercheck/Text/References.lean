import Spidercheck.Text.Basic
import Mathlib.Data.List.Infix

/-! `html.unescape`, which puts characters in the place of the references to them.
A reference is longer than what it stands for, so a text in which one is decoded
loses visible characters. -/
namespace Text

section Visible
variable {s t : Str}

def visible (s : Str) : Str := s.filter fun c => !isSpace c

@[simp] theorem visible_append (s t : Str) : visible (s ++ t) = visible s ++ visible t := List.filter_append ..

theorem visible_cons {c : Char} (h : isSpace c = false) : visible (c :: s) = c :: visible s := by
  simp [visible, h]

theorem length_visible_le (s : Str) : (visible s).length ≤ s.length := List.length_filter_le _ s

theorem visible_of_all (h : ∀ c ∈ s, isSpace c = false) : visible s = s :=
  List.filter_eq_self.mpr fun c hc => by rw [h c hc, Bool.not_false]

end Visible

/-- The tables of references: those with names, and what stands for a number. -/
structure CharRefs where
  /-- `html.entities.html5`. -/
  named : Str → Option Str
  /-- The character with the number, or what stands for an invalid one. -/
  numbered : Nat → Str
  named_visible : ∀ name value, named name = some value → ∀ c ∈ name, isSpace c = false
  named_short : ∀ name value, named name = some value → value.length ≤ name.length
  numbered_short : ∀ n, (numbered n).length ≤ 1

namespace CharRefs

def isNameChar (c : Char) : Bool := !"\t\n\x0c <&#;".toList.contains c

def isHexDigit (c : Char) : Bool := c.isDigit || "abcdefABCDEF".toList.contains c

/-- What stands at the front of a text, with the semicolon behind it if there is one. -/
def closed (front s : Str) : Str :=
  front ++ if (s.drop front.length).head? = some ';' then [';'] else []

/-- The group of `_charref` behind an ampersand, if there is a match. -/
def charref (s : Str) : Option Str :=
  let decimal := (s.drop 1).takeWhile Char.isDigit
  let hex := (s.drop 2).takeWhile isHexDigit
  let name := (s.takeWhile isNameChar).take 32
  if s.head? = some '#' ∧ decimal ≠ [] then some (closed (s.take 1 ++ decimal) s)
  else if s.head? = some '#' ∧ (s[1]? = some 'x' ∨ s[1]? = some 'X') ∧ hex ≠ [] then
    some (closed (s.take 2 ++ hex) s)
  else if name ≠ [] then some (closed name s)
  else none

def numberOf (base : Nat) (digits : Str) : Nat :=
  digits.foldl (fun n c => n * base + if c.isDigit then c.toNat - 48 else c.toLower.toNat - 87) 0

section Unescape
variable (refs : CharRefs) (limit : Nat)

def longestName (group : Str) : Option Str :=
  (List.range' 2 (group.length - 2)).reverse.findSome? fun x =>
    (refs.named (group.take x)).map (· ++ group.drop x)

/-- `_replace_charref`. Decimal numbers with too many digits are refused: the error is their count. -/
def replaceCharref (group : Str) : Except Nat Str :=
  if group.head? = some '#' then
    if group[1]? = some 'x' ∨ group[1]? = some 'X' then
      .ok (refs.numbered (numberOf 16 ((group.drop 2).takeWhile isHexDigit)))
    else
      let digits := (group.drop 1).takeWhile Char.isDigit
      if limit < digits.length then .error digits.length else .ok (refs.numbered (numberOf 10 digits))
  else .ok (((refs.named group).or (refs.longestName group)).getD ('&' :: group))

/-- `_charref.sub(_replace_charref, s)`, behind the characters of a reference that are skipped. -/
def unescapeFrom : Nat → Str → Except Nat Str
  | _, [] => .ok []
  | skip + 1, _ :: rest => unescapeFrom skip rest
  | 0, c :: rest =>
    match if c = '&' then charref rest else none with
    | some group => do return (← refs.replaceCharref limit group) ++ (← unescapeFrom group.length rest)
    | none => do return c :: (← unescapeFrom 0 rest)

def unescape (s : Str) : Except Nat Str := refs.unescapeFrom limit 0 s

end Unescape

section Groups
variable {s front group : Str}

theorem closed_isPrefix (h : front <+: s) : closed front s <+: s := by
  obtain ⟨rest, rfl⟩ := h
  rw [closed, List.drop_left, List.prefix_append_right_inj]
  split
  · next hSemicolon =>
      obtain ⟨rest, rfl⟩ := List.head?_eq_some_iff.mp hSemicolon
      exact ⟨rest, rfl⟩
  · exact List.nil_prefix

theorem take_append_isPrefix {n : Nat} {p : Char → Bool} : s.take n ++ (s.drop n).takeWhile p <+: s := by
  conv_rhs => rw [← List.take_append_drop n s]
  rw [List.prefix_append_right_inj]
  exact List.takeWhile_prefix p

/-- A group is what the text behind the ampersand begins with. -/
theorem charref_isPrefix (h : charref s = some group) : group <+: s := by
  unfold charref at h
  simp only at h
  split at h
  · obtain rfl := Option.some.inj h
    exact closed_isPrefix take_append_isPrefix
  · split at h
    · obtain rfl := Option.some.inj h
      exact closed_isPrefix take_append_isPrefix
    · split at h
      · obtain rfl := Option.some.inj h
        exact closed_isPrefix ((List.take_prefix 32 _).trans (List.takeWhile_prefix _))
      · cases h

end Groups

section Shortening
variable {refs : CharRefs} {limit skip : Nat} {s t group value out : Str}

/-- The text is kept as it is, or some of its visible characters are lost. -/
def KeptOrShort (s out : Str) : Prop := out = s ∨ (visible out).length < (visible s).length

theorem KeptOrShort.append {out' : Str} (h : KeptOrShort s out) (h' : KeptOrShort t out') :
    KeptOrShort (s ++ t) (out ++ out') := by
  rcases h with rfl | hShort
  · rcases h' with rfl | hShort'
    · exact .inl rfl
    · refine .inr ?_
      simp only [visible_append, List.length_append]
      omega
  · have hRest : (visible out').length ≤ (visible t).length := by
      rcases h' with rfl | hShort'
      · exact Nat.le_refl _
      · omega
    refine .inr ?_
    simp only [visible_append, List.length_append]
    omega

/-- A name and what follows it are longer than the value and what follows. -/
theorem short_of_named {name : Str} (h : refs.named name = some value) (rest : Str) :
    (visible (value ++ rest)).length < (visible ('&' :: (name ++ rest))).length := by
  have hName : visible name = name := visible_of_all (refs.named_visible name value h)
  have hValue : (visible value).length ≤ name.length :=
    (length_visible_le value).trans (refs.named_short name value h)
  rw [visible_cons (by decide), visible_append, visible_append, hName]
  simp only [List.length_append, List.length_cons]
  omega

theorem longestName_short (h : refs.longestName group = some value) :
    (visible value).length < (visible ('&' :: group)).length := by
  obtain ⟨x, -, hNamed⟩ := List.exists_of_findSome?_eq_some h
  obtain ⟨front, hFront, rfl⟩ := Option.map_eq_some_iff.mp hNamed
  have hShort := short_of_named hFront (group.drop x)
  rwa [List.take_append_drop] at hShort

theorem short_of_number {n : Nat} (h : group.head? = some '#') :
    (visible (refs.numbered n)).length < (visible ('&' :: group)).length := by
  obtain ⟨rest, rfl⟩ := List.head?_eq_some_iff.mp h
  have hOne : (visible (refs.numbered n)).length ≤ 1 :=
    (length_visible_le _).trans (refs.numbered_short n)
  rw [visible_cons (by decide), visible_cons (by decide), List.length_cons, List.length_cons]
  omega

theorem replaceCharref_short (h : refs.replaceCharref limit group = .ok value) :
    KeptOrShort ('&' :: group) value := by
  unfold replaceCharref at h
  split at h
  · next hNumber =>
    right
    split at h
    · obtain rfl := Except.ok.inj h
      exact short_of_number hNumber
    · simp only at h
      split at h
      · cases h
      · obtain rfl := Except.ok.inj h
        exact short_of_number hNumber
  · obtain rfl := Except.ok.inj h
    cases hNamed : refs.named group with
    | some value =>
        right
        simpa using short_of_named hNamed []
    | none =>
        cases hLongest : refs.longestName group with
        | some value => exact .inr (longestName_short hLongest)
        | none => exact .inl rfl

/-- A reference is replaced and skipped, and any other character is kept. -/
theorem unescapeFrom_cons {c : Char} {rest : Str} (h : refs.unescapeFrom limit 0 (c :: rest) = .ok out) :
    (∃ group value later, c = '&' ∧ charref rest = some group ∧
      refs.replaceCharref limit group = .ok value ∧
      refs.unescapeFrom limit group.length rest = .ok later ∧ out = value ++ later) ∨
    ∃ later, refs.unescapeFrom limit 0 rest = .ok later ∧ out = c :: later := by
  rw [unescapeFrom] at h
  cases hHere : (if c = '&' then charref rest else none) with
  | some group =>
      left
      obtain ⟨hMark, hGroup⟩ : c = '&' ∧ charref rest = some group := by simpa using hHere
      simp only [hHere] at h
      cases hValue : refs.replaceCharref limit group with
      | error e =>
          rw [hValue] at h
          cases h
      | ok value =>
          cases hLater : refs.unescapeFrom limit group.length rest with
          | error e =>
              rw [hValue, hLater] at h
              cases h
          | ok later =>
              rw [hValue, hLater] at h
              exact ⟨group, value, later, hMark, hGroup, hValue, hLater, (Except.ok.inj h).symm⟩
  | none =>
      right
      simp only [hHere] at h
      cases hLater : refs.unescapeFrom limit 0 rest with
      | error e =>
          rw [hLater] at h
          cases h
      | ok later =>
          rw [hLater] at h
          exact ⟨later, rfl, (Except.ok.inj h).symm⟩

theorem unescapeFrom_short (h : refs.unescapeFrom limit skip s = .ok out) :
    KeptOrShort (s.drop skip) out := by
  induction s generalizing skip out with
  | nil =>
      obtain rfl : out = [] := by simpa [unescapeFrom] using h.symm
      exact .inl (List.drop_nil).symm
  | cons c rest ih =>
      cases skip with
      | succ skip => exact ih h
      | zero =>
          obtain ⟨group, value, later, rfl, hGroup, hValue, hLater, rfl⟩ | ⟨later, hLater, rfl⟩ :=
            unescapeFrom_cons h
          · obtain ⟨behind, rfl⟩ := charref_isPrefix hGroup
            have hBehind := ih hLater
            rw [List.drop_left] at hBehind
            exact (replaceCharref_short hValue).append hBehind
          · exact (show KeptOrShort [c] [c] from .inl rfl).append (ih hLater)

/-- Decoding keeps a text as it is or takes visible characters from it. -/
theorem unescape_short (h : refs.unescape limit s = .ok out) : KeptOrShort s out := unescapeFrom_short h

end Shortening

end CharRefs

end Text
