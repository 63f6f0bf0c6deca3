import Spidercheck.Model.Core
import Spidercheck.Text.Unicode

/-! Which `Content-Type` values are taken for HTML. A value is made of a type, a
subtype and parameters, with optional blanks around the semicolons. -/
namespace Spidercheck

open Text

def isTokenChar (c : Char) : Bool := c.isAlphanum || "!#$%&'*+-.^_`|~".toList.contains c

def isBlank (c : Char) : Bool := c == ' ' || c == '\t'

structure Parameter where
  before : Str
  after : Str
  text : Str
  blanks : (∀ c ∈ before, isBlank c = true) ∧ ∀ c ∈ after, isBlank c = true

structure MediaType where
  type : Str
  subtype : Str
  parameters : List Parameter
  typeToken : type ≠ [] ∧ ∀ c ∈ type, isTokenChar c = true
  subtypeToken : subtype ≠ [] ∧ ∀ c ∈ subtype, isTokenChar c = true

def Parameter.write (p : Parameter) : Str := p.before ++ ';' :: (p.after ++ p.text)

def MediaType.write (m : MediaType) : Str :=
  m.type ++ '/' :: m.subtype ++ m.parameters.flatMap Parameter.write

def MediaType.isHtml (m : MediaType) : Prop :=
  m.type.map Char.toLower = "text".toList ∧ m.subtype.map Char.toLower = "html".toList

def MediaType.spaced (m : MediaType) : Prop := ∃ p ∈ m.parameters.head?, p.before ≠ []

section Characters
variable {c : Char} {s t : Str}

/-- Names of types have no slashes and no semicolons. -/
theorem isTokenChar_ne (h : isTokenChar c = true) : c ≠ '/' ∧ c ≠ ';' ∧ c.toNat < 128 := by
  rw [isTokenChar, Bool.or_eq_true] at h
  rcases h with hWord | hMark
  · refine ⟨?_, ?_, lt_of_isAlphanum hWord⟩
    · rintro rfl
      cases hWord
    · rintro rfl
      cases hWord
  · have hMarks : "!#$%&'*+-.^_`|~".toList.all
        (fun c => c != '/' && c != ';' && decide (c.toNat < 128)) = true := by
      decide
    have hThis := List.all_eq_true.mp hMarks c (by simpa using hMark)
    simpa [and_assoc] using hThis

/-- The two ways of ignoring case agree on ASCII. -/
theorem lowerChar_ascii (h : c.toNat < 128) : lowerChar c = c.toLower := by
  apply Char.toNat_inj.mp
  rw [toNat_lowerChar, toNat_toLower]
  split <;> split <;> omega

theorem isBlank_ne (h : isBlank c = true) : lowerChar c = c ∧ c ≠ '/' ∧ c ≠ ';' ∧ c ≠ 'l' := by
  obtain rfl | rfl : c = ' ' ∨ c = '\t' := by simpa [isBlank] using h
  · decide
  · decide

/-- On names of types both ways to ignore case agree. -/
theorem lower_token (h : ∀ c ∈ s, isTokenChar c = true) : lower s = s.map Char.toLower :=
  List.map_congr_left fun c hc => lowerChar_ascii (isTokenChar_ne (h c hc)).2.2

/-- The separator is not a letter of either case. -/
theorem slash_notMem_lower (h : ∀ c ∈ s, isTokenChar c = true) : '/' ∉ lower s := by
  intro hMem
  obtain ⟨c, hc, hSlash⟩ := List.mem_map.mp hMem
  have hToken := isTokenChar_ne (h c hc)
  have hNat : (lowerChar c).toNat = 47 := congrArg Char.toNat hSlash
  rw [toNat_lowerChar] at hNat
  split at hNat
  · omega
  · exact hToken.1 (Char.toNat_inj.mp hNat)

theorem semicolon_notMem (h : ∀ c ∈ s, isTokenChar c = true) : ';' ∉ s :=
  fun hMem => (isTokenChar_ne (h ';' hMem)).2.1 rfl

end Characters

section Recognition
variable {m : MediaType} {headers : Headers} {blanks : Str}

theorem lower_append (s t : Str) : lower (s ++ t) = lower s ++ lower t := List.map_append

/-- The text in front of the parameters, with blanks behind it, is `text/html` only without these. -/
theorem lower_eq_html (hBlanks : ∀ c ∈ blanks, isBlank c = true) :
    lower (m.type ++ '/' :: m.subtype ++ blanks) = "text/html".toList ↔ m.isHtml ∧ blanks = [] := by
  have hSame : lower blanks = blanks := by
    refine (List.map_congr_left fun c hc => ?_).trans (List.map_id blanks)
    exact (isBlank_ne (hBlanks c hc)).1
  have hSplit : lower (m.type ++ '/' :: m.subtype ++ blanks) =
      lower m.type ++ '/' :: (lower m.subtype ++ blanks) := by
    rw [lower_append, lower_append, hSame, List.append_assoc]
    rfl
  have hRight : '/' ∉ lower m.subtype ++ blanks := by
    intro hMem
    rcases List.mem_append.mp hMem with hMem | hMem
    · exact slash_notMem_lower m.subtypeToken.2 hMem
    · exact (isBlank_ne (hBlanks '/' hMem)).2.1 rfl
  have hHtml : "text/html".toList = "text".toList ++ '/' :: "html".toList := rfl
  rw [hSplit, hHtml, List.append_cons_inj_of_notMem (slash_notMem_lower m.typeToken.2) hRight,
    lower_token m.typeToken.2, lower_token m.subtypeToken.2, MediaType.isHtml]
  constructor
  · rintro ⟨hType, -, hRest⟩
    rcases List.eq_nil_or_concat blanks with rfl | ⟨front, c, rfl⟩
    · exact ⟨⟨hType, by rwa [List.append_nil] at hRest⟩, rfl⟩
    · -- the last character would be both a blank and a letter
      have hLast := congrArg List.getLast? hRest
      rw [List.concat_eq_append, ← List.append_assoc, List.getLast?_concat] at hLast
      have hLetter : c = 'l' := Option.some.inj hLast
      exact absurd hLetter (isBlank_ne (hBlanks c (by simp))).2.2.2
  · rintro ⟨⟨hType, hSubtype⟩, rfl⟩
    exact ⟨hType, rfl, by rw [hSubtype, List.append_nil]⟩

/-- What stands in front of the first semicolon of a value. -/
theorem getContentType_write (h : headers.get "content-type" [] = m.write) :
    getContentType headers =
      lower (m.type ++ '/' :: m.subtype ++ (m.parameters.head?.map (·.before)).getD []) := by
  have hFront : ';' ∉ m.type ++ '/' :: m.subtype := by
    intro hMem
    rcases List.mem_append.mp hMem with hMem | hMem
    · exact semicolon_notMem m.typeToken.2 hMem
    · rcases List.mem_cons.mp hMem with hSlash | hMem
      · cases hSlash
      · exact semicolon_notMem m.subtypeToken.2 hMem
  rw [getContentType, h, MediaType.write]
  cases hParameters : m.parameters with
  | nil =>
      simp only [List.flatMap_nil, List.head?_nil, Option.map_none, Option.getD_none, List.append_nil]
      rw [if_neg fun hCut => hFront hCut.2]
  | cons p parameters =>
      have hBefore : ';' ∉ m.type ++ '/' :: m.subtype ++ p.before := by
        intro hMem
        rcases List.mem_append.mp hMem with hMem | hMem
        · exact hFront hMem
        · exact (isBlank_ne (p.blanks.1 ';' hMem)).2.2.1 rfl
      have hValue : m.type ++ '/' :: m.subtype ++ (p :: parameters).flatMap Parameter.write =
          m.type ++ '/' :: m.subtype ++ p.before ++
            ';' :: (p.after ++ p.text ++ parameters.flatMap Parameter.write) := by
        simp [Parameter.write]
      rw [hValue, if_pos ⟨by simp, by simp⟩, cut_append hBefore]
      rfl

end Recognition

/-- A value is taken for what it is unless it is `text/html` with blanks in front of
the first semicolon. -/
theorem contentIsHtml_iff (m : MediaType) (headers : Headers)
    (h : headers.get "content-type" [] = m.write) :
    (contentIsHtml headers = true ↔ m.isHtml) ↔ ¬ (m.isHtml ∧ m.spaced) := by
  have hRecognised : contentIsHtml headers = true ↔ m.isHtml ∧ ¬ m.spaced := by
    rw [contentIsHtml, beq_iff_eq, getContentType_write h, MediaType.spaced]
    cases hParameters : m.parameters with
    | nil =>
        have hBare := lower_eq_html (m := m) (List.forall_mem_nil fun c => isBlank c = true)
        simpa using hBare
    | cons p parameters => simpa using lower_eq_html p.blanks.1
  rw [hRecognised]
  tauto

def htmlCharset (before : Str) (h : before.all isBlank = true) : MediaType where
  type := "text"
  subtype := "html"
  parameters := [{
    before
    after := " "
    text := "charset=utf-8"
    blanks := ⟨List.all_eq_true.mp h, List.all_eq_true.mp rfl⟩ }]
  typeToken := ⟨List.cons_ne_nil _ _, List.all_eq_true.mp rfl⟩
  subtypeToken := ⟨List.cons_ne_nil _ _, List.all_eq_true.mp rfl⟩

/-- Parameters behind the semicolon make no difference. -/
theorem contentIsHtml_iff_charset :
    contentIsHtml [("content-type", "text/html; charset=utf-8")] = true ↔ (htmlCharset [] rfl).isHtml := by
  apply (contentIsHtml_iff (htmlCharset [] rfl) [("content-type", "text/html; charset=utf-8")] (by decide)).mpr
  rintro ⟨-, p, hp, hBefore⟩
  obtain rfl := Option.some.inj hp
  exact hBefore rfl

/-- A blank in front of the semicolon is taken for a part of the subtype. -/
theorem not_contentIsHtml_spaced :
    (htmlCharset " " rfl).write = "text/html ; charset=utf-8".toList ∧ (htmlCharset " " rfl).isHtml ∧
      contentIsHtml [("content-type", "text/html ; charset=utf-8")] = false := by
  refine ⟨by decide, ⟨by decide, by decide⟩, by decide⟩

end Spidercheck
