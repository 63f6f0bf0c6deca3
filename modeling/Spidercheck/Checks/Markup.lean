import Spidercheck.Model.Parser
import Spidercheck.Text.Unicode
import Mathlib.Data.List.Infix

/-! Complete HTML documents. The test of `is_valid_html` for an html tag stays on one
line and asks for any `>` on it, which may be that of the closing tag. -/
namespace Spidercheck

open Text

variable {body content closing tail name text : Str} {c p : Char}

/-- The body, without white space around it, is this content and a closing tag. -/
def EndsHtml (body content : Str) : Prop :=
  ∃ closing, strip body = content ++ closing ∧ lower closing = "</html>".toList

/-- `<html`, in any case, stands in the content, and this comes after it. -/
def HtmlAt (content tail : Str) : Prop :=
  ∃ before name, content = before ++ name ++ tail ∧ lower name = "<html".toList

/-- The rest of a start tag behind its name. -/
def ClosesTag (tail : Str) : Prop :=
  ∃ attrs rest, tail = attrs ++ '>' :: rest ∧ '>' ∉ attrs ∧
    (attrs = [] ∨ ∃ space more, attrs = space :: more ∧ isSpace space = true)

def HasHtmlTag (content : Str) : Prop := ∃ tail, HtmlAt content tail ∧ ClosesTag tail

def CompleteHtml (body : Str) : Prop := ∃ content, EndsHtml body content ∧ HasHtmlTag content

/-- After some `<html` no line breaks before the next `>`. -/
def HasLineTag (content : Str) : Prop :=
  ∃ tail, HtmlAt content tail ∧ '\n' ∉ tail.takeWhile (· != '>')

def Tiny (body : Str) : Prop := ∃ content, EndsHtml body content ∧ lower content = "<html>".toList

/-- A document in which a line breaks after every `<html`. -/
def Broken (body : Str) : Prop :=
  ∃ content, EndsHtml body content ∧ HasHtmlTag content ∧ ¬ HasLineTag content

/-- There is no start tag in front of the closing tag, but some other text with `<html`. -/
def Loose (body : Str) : Prop :=
  ∃ content, EndsHtml body content ∧ ¬ HasHtmlTag content ∧ 7 ≤ content.length ∧ HasLineTag content

/-- A pattern letter of ASCII other than `i` is met in both cases and by nothing else. -/
theorem ignoreCaseMatch_iff (hAscii : p.toNat < 128) (hUpper : p.isUpper = false) (hI : p ≠ 'i') :
    ignoreCaseMatch p c = true ↔ lowerChar c = p := by
  have hRange : ¬ (65 ≤ p.toNat ∧ p.toNat ≤ 90) := by
    have hCode : p.isUpper = true ↔ 65 ≤ p.toNat ∧ p.toNat ≤ 90 := decide_eq_true_iff
    rw [← hCode, hUpper]
    simp
  have hChar (d : Char) : d = p ↔ d.toNat = p.toNat := Char.toNat_inj.symm
  simp only [ignoreCaseMatch, Bool.or_eq_true, beq_iff_eq, Bool.and_eq_true, hI, false_and, or_false]
  rw [hChar, hChar, hChar, toNat_toLower, toNat_lowerChar]
  split <;> split <;> omega

/-- A literal pattern matches the texts whose beginning it is, ignoring case. -/
theorem matchIgnoreCase_iff {pattern : Str}
    (hPattern : ∀ p ∈ pattern, ∀ c, ignoreCaseMatch p c = true ↔ lowerChar c = p) :
    matchIgnoreCase pattern text = true ↔ ∃ name tail, text = name ++ tail ∧ lower name = pattern := by
  induction pattern generalizing text with
  | nil => exact iff_of_true (by simp [matchIgnoreCase]) ⟨[], text, rfl, rfl⟩
  | cons p pattern ih =>
      obtain ⟨hFirst, hRest⟩ := List.forall_mem_cons.mp hPattern
      cases text with
      | nil => simp [matchIgnoreCase, lower]
      | cons c text =>
          rw [matchIgnoreCase, Bool.and_eq_true, hFirst, ih hRest]
          constructor
          · rintro ⟨hChar, name, tail, rfl, hName⟩
            exact ⟨c :: name, tail, rfl, by simp [lower, hChar, ← hName]⟩
          · rintro ⟨name, tail, hText, hName⟩
            cases name with
            | nil => simp [lower] at hName
            | cons d name =>
                obtain ⟨rfl, hText⟩ := List.cons.inj hText
                obtain ⟨hChar, hName⟩ := List.cons.inj hName
                exact ⟨hChar, name, tail, by simpa using hText, hName⟩

theorem name_matches : matchIgnoreCase "<html" text = true ↔
    ∃ name tail, text = name ++ tail ∧ lower name = "<html".toList := by
  apply matchIgnoreCase_iff
  intro p hp c
  have hPlain : ("<html".toList).all (fun p => p.toNat < 128 && !p.isUpper && p != 'i') = true := by rfl
  have hLetter := List.all_eq_true.mp hPlain p hp
  simp only [Bool.and_eq_true, decide_eq_true_eq, Bool.not_eq_true', bne_iff_ne] at hLetter
  obtain ⟨⟨hAscii, hUpper⟩, hI⟩ := hLetter
  exact ignoreCaseMatch_iff hAscii hUpper hI

/-- What `.` does not match between `<html` and `>`. -/
theorem htmlBegins_iff : htmlBegins body = true ↔
    ∃ tail, HtmlAt body tail ∧ '>' ∈ tail.takeWhile (· != '\n') := by
  unfold htmlBegins
  rw [List.any_eq_true]
  constructor
  · rintro ⟨rest, hRest, hMatch⟩
    obtain ⟨before, rfl⟩ := (List.mem_tails _ _).mp hRest
    obtain ⟨hName, hLine⟩ := Bool.and_eq_true_iff.mp hMatch
    obtain ⟨name, tail, rfl, hLower⟩ := name_matches.mp hName
    have hLength : name.length = 5 := by simpa [lower] using congrArg List.length hLower
    refine ⟨tail, ⟨before, name, (List.append_assoc ..).symm, hLower⟩, ?_⟩
    rw [← hLength, List.drop_left] at hLine
    exact List.contains_iff_mem.mp hLine
  · rintro ⟨tail, ⟨before, name, rfl, hLower⟩, hLine⟩
    have hLength : name.length = 5 := by simpa [lower] using congrArg List.length hLower
    refine ⟨name ++ tail, (List.mem_tails _ _).mpr ⟨before, (List.append_assoc ..).symm⟩, ?_⟩
    rw [Bool.and_eq_true]
    refine ⟨name_matches.mpr ⟨name, tail, rfl, hLower⟩, ?_⟩
    rw [← hLength, List.drop_left]
    exact List.contains_iff_mem.mpr hLine

theorem eq_mark_of_lower (h : lowerChar c = '>') : c = '>' := by
  have hNat : (lowerChar c).toNat = 62 := congrArg Char.toNat h
  rw [toNat_lowerChar] at hNat
  have hCode : c.toNat = ('>' : Char).toNat := by
    split at hNat
    · omega
    · exact hNat
  exact Char.toNat_inj.mp hCode

/-- A closing tag stands on one line and ends with its mark. -/
theorem mark_of_closing (hClosing : lower closing = "</html>".toList) : '>' ∈ closing ∧ '\n' ∉ closing := by
  constructor
  · have hMark : '>' ∈ lower closing := by
      rw [hClosing]
      decide
    obtain ⟨c, hc, hLower⟩ := List.mem_map.mp hMark
    rwa [← eq_mark_of_lower hLower]
  · intro hBreak
    have hLower : lowerChar '\n' ∈ lower closing := List.mem_map_of_mem hBreak
    rw [hClosing] at hLower
    exact absurd hLower (by decide)

/-- In front of a closing tag, the line has a `>` unless it ends before the next one. -/
theorem mem_line_iff (hClosing : lower closing = "</html>".toList) :
    '>' ∈ (tail ++ closing).takeWhile (· != '\n') ↔ '\n' ∉ tail.takeWhile (· != '>') := by
  induction tail with
  | nil =>
      obtain ⟨hMark, hBreak⟩ := mark_of_closing hClosing
      have hLine : closing.takeWhile (· != '\n') = closing := by
        apply List.takeWhile_eq_self_iff.mpr
        intro c hc
        rw [bne_iff_ne]
        rintro rfl
        exact hBreak hc
      rw [List.nil_append, hLine]
      exact iff_of_true hMark List.not_mem_nil
  | cons c tail ih =>
      rw [List.cons_append]
      by_cases hLine : c = '\n'
      · subst hLine
        simp
      · by_cases hMark : c = '>'
        · subst hMark
          simp
        · simp [hLine, hMark, ih, Ne.symm hLine, Ne.symm hMark]

/-- No beginning of a closing tag ends as `<html` does. -/
theorem inits_closing : ∀ front ∈ ("</html>".toList).inits, front ≠ [] →
    ¬ front <:+ "<html".toList ∧ ¬ "<html".toList <:+ front := by
  decide

/-- No `<html` reaches into a closing tag. -/
theorem htmlAt_append (hClosing : lower closing = "</html>".toList) :
    HtmlAt (content ++ closing) tail ↔ ∃ rest, HtmlAt content rest ∧ tail = rest ++ closing := by
  constructor
  · rintro ⟨before, name, hText, hName⟩
    rcases List.append_eq_append_iff.mp hText with ⟨inside, hFront, hClose⟩ | ⟨rest, hContent, rfl⟩
    · by_cases hEmpty : inside = []
      · subst hEmpty
        exact ⟨[], ⟨before, name, by simpa using hFront.symm, hName⟩, hClose.symm⟩
      · -- a part of the closing tag would be the end of `<html`, or the other way round
        have hWhole : lower before ++ "<html".toList = lower content ++ lower inside := by
          have hLower := congrArg lower hFront
          simpa only [lower, List.map_append, ← hName] using hLower
        have hInits : lower inside ∈ ("</html>".toList).inits := by
          rw [List.mem_inits, ← hClosing, hClose]
          exact ⟨lower tail, by simp [lower]⟩
        have hSome : lower inside ≠ [] := by simpa [lower] using hEmpty
        obtain ⟨hShort, hLong⟩ := inits_closing _ hInits hSome
        rcases List.suffix_or_suffix_of_suffix (List.suffix_append (lower before) "<html".toList)
          (hWhole ▸ List.suffix_append (lower content) (lower inside)) with hEnd | hEnd
        · exact absurd hEnd hLong
        · exact absurd hEnd hShort
    · exact ⟨rest, ⟨before, name, hContent, hName⟩, rfl⟩
  · rintro ⟨rest, ⟨before, name, rfl, hName⟩, rfl⟩
    exact ⟨before, name, List.append_assoc .., hName⟩

theorem length_closing (hClosing : lower closing = "</html>".toList) : closing.length = 7 := by
  simpa [lower] using congrArg List.length hClosing

/-- What the code asks of the text in front of the closing tag. -/
theorem isValidHtml_of_ends (h : EndsHtml body content) :
    isValidHtml body = true ↔ 7 ≤ content.length ∧ HasLineTag content := by
  obtain ⟨closing, hStrip, hClosing⟩ := h
  have hLength := length_closing hClosing
  have hBegins : htmlBegins (content ++ closing) = true ↔ HasLineTag content := by
    rw [htmlBegins_iff]
    constructor
    · rintro ⟨tail, hAt, hLine⟩
      obtain ⟨rest, hRest, rfl⟩ := (htmlAt_append hClosing).mp hAt
      exact ⟨rest, hRest, (mem_line_iff hClosing).mp hLine⟩
    · rintro ⟨rest, hAt, hLine⟩
      exact ⟨rest ++ closing, (htmlAt_append hClosing).mpr ⟨rest, hAt, rfl⟩, (mem_line_iff hClosing).mpr hLine⟩
  have hEnd : lower ((content ++ closing).drop ((content ++ closing).length - 7)) = "</html>".toList := by
    rw [List.length_append, hLength, Nat.add_sub_cancel, List.drop_left, hClosing]
  simp only [isValidHtml, hStrip, hEnd, hBegins.symm]
  rw [List.length_append, hLength]
  by_cases hShort : content.length + 7 < 14
  · rw [if_pos hShort]
    exact iff_of_false (by simp) fun hBoth => absurd hBoth.1 (by omega)
  · rw [if_neg hShort]
    exact (and_iff_right (by omega)).symm

/-- A valid text has a closing tag at its end. -/
theorem ends_of_isValidHtml (h : isValidHtml body = true) : ∃ content, EndsHtml body content := by
  simp only [isValidHtml] at h
  split at h
  · cases h
  · split at h
    · cases h
    · next hEnd =>
        exact ⟨_, _, (List.take_append_drop _ _).symm, by simpa using hEnd⟩

/-- The content in front of the closing tag is the only one. -/
theorem EndsHtml.unique {other : Str} (h : EndsHtml body content) (h' : EndsHtml body other) :
    content = other := by
  obtain ⟨closing, hStrip, hClosing⟩ := h
  obtain ⟨closing', hStrip', hClosing'⟩ := h'
  have hLength : closing.length = closing'.length :=
    (length_closing hClosing).trans (length_closing hClosing').symm
  exact (List.append_inj' (hStrip.symm.trans hStrip') hLength).1

/-- A start tag takes six characters. -/
theorem tag_of_short (h : HasHtmlTag content) (hShort : content.length < 7) :
    lower content = "<html>".toList := by
  obtain ⟨tail, ⟨before, name, rfl, hName⟩, attrs, rest, rfl, -, -⟩ := h
  have hLength : name.length = 5 := by simpa [lower] using congrArg List.length hName
  simp only [List.length_append, List.length_cons, hLength] at hShort
  obtain rfl : before = [] := List.length_eq_zero_iff.mp (by omega)
  obtain rfl : attrs = [] := List.length_eq_zero_iff.mp (by omega)
  obtain rfl : rest = [] := List.length_eq_zero_iff.mp (by omega)
  simp only [List.nil_append, lower, List.map_append]
  rw [show name.map lowerChar = "<html".toList from hName]
  decide

/-- The shortest start tag is one, and it stands on its line. -/
theorem tag_of_lower (h : lower content = "<html>".toList) :
    content.length < 7 ∧ HasHtmlTag content ∧ HasLineTag content := by
  have hLength : content.length = 6 := by simpa [lower] using congrArg List.length h
  have hText : content = [] ++ content.take 5 ++ content.drop 5 := (List.take_append_drop 5 content).symm
  have hName : lower (content.take 5) = "<html".toList := by
    rw [lower, List.map_take]
    exact congrArg (List.take 5) h
  have hRest : lower (content.drop 5) = ['>'] := by
    rw [lower, List.map_drop]
    exact congrArg (List.drop 5) h
  have hMark : content.drop 5 = ['>'] := by
    obtain ⟨c, hDrop, hChar⟩ := List.map_eq_singleton_iff.mp hRest
    rw [hDrop, eq_mark_of_lower hChar]
  have hAt : HtmlAt content ['>'] := ⟨[], content.take 5, hMark ▸ hText, hName⟩
  exact ⟨by omega, ⟨_, hAt, [], [], rfl, List.not_mem_nil, .inl rfl⟩, ⟨_, hAt, by simp⟩⟩

/-- `is_valid_html` tells complete documents from other texts, except that it refuses
the shortest document and every document that breaks the line after each `<html`,
and takes some texts with `<html` but without a start tag. -/
theorem isValidHtml_iff (body : Str) :
    (isValidHtml body = true ↔ CompleteHtml body) ↔ ¬ Tiny body ∧ ¬ Broken body ∧ ¬ Loose body := by
  by_cases hEnds : ∃ content, EndsHtml body content
  · obtain ⟨content, hContent⟩ := hEnds
    have hOnly (P : Str → Prop) : (∃ other, EndsHtml body other ∧ P other) ↔ P content := by
      constructor
      · rintro ⟨other, hOther, h⟩
        rwa [hContent.unique hOther]
      · exact fun h => ⟨content, hContent, h⟩
    have hTiny : Tiny body ↔ lower content = "<html>".toList := hOnly _
    have hBroken : Broken body ↔ HasHtmlTag content ∧ ¬ HasLineTag content := hOnly _
    have hLoose : Loose body ↔ ¬ HasHtmlTag content ∧ 7 ≤ content.length ∧ HasLineTag content := hOnly _
    have hComplete : CompleteHtml body ↔ HasHtmlTag content := hOnly _
    rw [isValidHtml_of_ends hContent, hComplete, hTiny, hBroken, hLoose]
    have hShort : HasHtmlTag content → ¬ 7 ≤ content.length → lower content = "<html>".toList :=
      fun hTag hLength => tag_of_short hTag (by omega)
    have hLower : lower content = "<html>".toList → ¬ 7 ≤ content.length ∧ HasHtmlTag content := by
      intro h
      obtain ⟨hLength, hTag, -⟩ := tag_of_lower h
      exact ⟨by omega, hTag⟩
    constructor
    · intro hSame
      refine ⟨fun hTiny => ?_, fun h => h.2 (hSame.mpr h.1).2, fun h => h.1 (hSame.mp h.2)⟩
      obtain ⟨hLength, hTag⟩ := hLower hTiny
      exact hLength (hSame.mpr hTag).1
    · rintro ⟨hTiny, hBroken, hLoose⟩
      constructor
      · intro hBoth
        by_contra hTag
        exact hLoose ⟨hTag, hBoth⟩
      · intro hTag
        constructor
        · by_contra hLength
          exact hTiny (hShort hTag hLength)
        · by_contra hLine
          exact hBroken ⟨hTag, hLine⟩
  · have hNone (P : Str → Prop) : ¬ ∃ other, EndsHtml body other ∧ P other := by
      rintro ⟨other, hOther, -⟩
      exact hEnds ⟨other, hOther⟩
    have hFalse : ¬ isValidHtml body = true := fun h => hEnds (ends_of_isValidHtml h)
    exact iff_of_true (iff_of_false hFalse (hNone _)) ⟨hNone _, hNone _, hNone _⟩

/-- A document whose start tag goes over two lines is refused. -/
theorem refuses_broken : ¬ (isValidHtml "<html\nlang='es'><body></body></html>" = true ↔
    CompleteHtml "<html\nlang='es'><body></body></html>") := by
  intro h
  have hComplete : CompleteHtml "<html\nlang='es'><body></body></html>" := by
    refine ⟨"<html\nlang='es'><body></body>", ⟨"</html>", by decide, by decide⟩, "\nlang='es'><body></body>",
      ⟨[], "<html", by decide, by decide⟩, "\nlang='es'", "<body></body>", by decide, by decide, .inr ?_⟩
    exact ⟨'\n', "lang='es'", by decide, by decide⟩
  exact absurd (h.mpr hComplete) (by decide)

end Spidercheck
