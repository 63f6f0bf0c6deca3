import Spidercheck.Dates.Parser
import Spidercheck.Search.Indexing
import Spidercheck.Text.References

/-! `strip_tags` on a text that has no tags any more. The text is read as HTML once
again, by a parser that is fed and never closed. -/
namespace Spidercheck

open Text

/-- A character behind `<` with which a tag, a comment, a declaration or an instruction begins. -/
def opensMarkup (c : Char) : Bool := c.isAlpha || c == '/' || c == '!' || c == '?'

/-- The parts of `HTMLParser` that its main loop calls. -/
structure HtmlParser where
  refs : CharRefs
  /-- The methods `parse_starttag`, `parse_endtag` and so on, and what the loop does in an element
  that holds no markup: the data that is handed on, and how much of the text is behind the parser
  then. Without the latter it waits for more. -/
  construct : Str → Except PyError (List Str × Option Nat)
  construct_taken : ∀ c rest data n, opensMarkup c = true →
    construct ('<' :: c :: rest) = .ok (data, some n) → 0 < n ∧ n ≤ rest.length + 2
  /-- The markup itself is not handed on. In CPython there is one exception, which is left out
  here: `<` and a name are handed on as text when a NUL stands directly behind the name. -/
  construct_lossy : ∀ c rest data taken, opensMarkup c = true →
    construct ('<' :: c :: rest) = .ok (data, taken) →
      (visible data.flatten).length <
        (visible (('<' :: c :: rest).take (taken.getD (rest.length + 2)))).length

/-- A reference may be cut off at the end of the text: the last ampersand of 34 characters has
no blank and no semicolon behind it. -/
def heldBack (chunk : Str) : Bool :=
  let tail := chunk.drop (chunk.length - 34)
  tail.contains '&' && (tail.reverse.takeWhile (· != '&')).all fun c => !(isSpace c || c == ';')

namespace HtmlParser
variable (p : HtmlParser)

def decoded (chunk : Str) : Except PyError (List Str) :=
  if chunk = [] then .ok []
  else match p.refs.unescape maxStrDigits chunk with
  | .ok text => .ok [text]
  | .error count => .error (valueError ("Exceeds the limit (" ++ ofInt maxStrDigits ++
      " digits) for integer string conversion: value has " ++ ofInt count ++
      " digits; use sys.set_int_max_str_digits() to increase the limit"))

/-- A turn of the loop at a `<` in front of the rest, before the loop goes on. -/
def atMark (loop : Str → Except PyError (List Str)) (rest : Str) : Except PyError (List Str) :=
  match rest with
  | [] => .ok []
  | c :: _ =>
    if opensMarkup c then do
      match ← p.construct ('<' :: rest) with
      | (data, none) => return data
      | (data, some n) => return data ++ (← loop (('<' :: rest).drop n))
    else return "<".toList :: (← loop rest)

/-- `goahead(0)` with `convert_charrefs`: the texts that are handed to `handle_data`. -/
def goahead : Nat → Str → Except PyError (List Str)
  | 0, _ => .ok []
  | fuel + 1, s =>
    let chunk := s.takeWhile (· != '<')
    match s.dropWhile (· != '<') with
    | [] => if heldBack chunk then .ok [] else p.decoded chunk
    | _ :: rest => return (← p.decoded chunk) ++ (← p.atMark (goahead fuel) rest)

def feed (s : Str) : Except PyError (List Str) := p.goahead (s.length + 1) s

/-- Nothing in the text looks like markup, no reference in it is decoded, and its end is not
taken for the beginning of a reference. -/
structure Harmless (t : Str) : Prop where
  marks : ∀ front rest, t = front ++ '<' :: rest → ∃ c, rest.head? = some c ∧ opensMarkup c = false
  references : ∀ chunk ∈ t.splitOn '<', p.refs.unescape maxStrDigits chunk = .ok chunk
  tail : ∀ chunk ∈ (t.splitOn '<').getLast?, heldBack chunk = false

end HtmlParser

section Harmless
variable {p : HtmlParser} {chunk rest : Str}

/-- Without a mark a text is harmless when its references stay. -/
theorem harmless_iff_of_notMem (h : '<' ∉ chunk) : p.Harmless chunk ↔
    p.refs.unescape maxStrDigits chunk = .ok chunk ∧ heldBack chunk = false := by
  have hSplit : chunk.splitOn '<' = [chunk] := List.splitOn_eq_singleton h
  constructor
  · intro ⟨_, hReferences, hTail⟩
    rw [hSplit] at hReferences hTail
    exact ⟨hReferences chunk (List.mem_singleton_self chunk), hTail chunk rfl⟩
  · intro ⟨hReferences, hTail⟩
    refine ⟨?_, ?_, ?_⟩
    · rintro front rest rfl
      exact absurd (by simp) h
    · rw [hSplit]
      simpa using hReferences
    · rw [hSplit]
      simpa using hTail

/-- The marks of a text are its first one and those behind it. -/
theorem marks_append_iff (h : '<' ∉ chunk) {P : Str → Prop} :
    (∀ front behind, chunk ++ '<' :: rest = front ++ '<' :: behind → P behind) ↔
      P rest ∧ ∀ front behind, rest = front ++ '<' :: behind → P behind := by
  constructor
  · intro hAll
    refine ⟨hAll chunk rest rfl, ?_⟩
    rintro front behind rfl
    exact hAll (chunk ++ '<' :: front) behind (by simp)
  · intro ⟨hFirst, hRest⟩ front behind hSame
    obtain ⟨front', rfl, hBehind⟩ | ⟨front', rfl, hBehind⟩ := List.append_eq_append_iff.mp hSame
    · cases front' with
      | nil =>
          obtain rfl : rest = behind := by simpa using hBehind
          exact hFirst
      | cons c front' =>
          obtain ⟨-, rfl⟩ := List.cons.inj hBehind
          exact hRest front' behind rfl
    · cases front' with
      | nil =>
          obtain rfl : behind = rest := by simpa using hBehind
          exact hFirst
      | cons c front' =>
          obtain ⟨rfl, -⟩ := List.cons.inj hBehind
          exact absurd (by simp) h

/-- At a mark the text is harmless when both sides are and the mark opens nothing. -/
theorem harmless_append_iff (h : '<' ∉ chunk) : p.Harmless (chunk ++ '<' :: rest) ↔
    p.refs.unescape maxStrDigits chunk = .ok chunk ∧
      (∃ c, rest.head? = some c ∧ opensMarkup c = false) ∧ p.Harmless rest := by
  have hSplit : (chunk ++ '<' :: rest).splitOn '<' = chunk :: rest.splitOn '<' :=
    List.splitOn_append_cons_self_of_not_mem h rest
  have hLast : (chunk :: rest.splitOn '<').getLast? = (rest.splitOn '<').getLast? := by
    obtain ⟨first, later, hParts⟩ := List.exists_cons_of_ne_nil (List.splitOn_ne_nil '<' rest)
    rw [hParts, List.getLast?_cons_cons]
  constructor
  · intro ⟨hMarks, hReferences, hTail⟩
    rw [hSplit] at hReferences hTail
    rw [hLast] at hTail
    obtain ⟨hFirst, hRest⟩ := (marks_append_iff h).mp hMarks
    exact ⟨hReferences chunk (List.mem_cons_self ..), hFirst, hRest,
      fun other hOther => hReferences other (List.mem_cons_of_mem chunk hOther), hTail⟩
  · intro ⟨hChunk, hFirst, hRest, hReferences, hTail⟩
    refine ⟨(marks_append_iff h).mpr ⟨hFirst, hRest⟩, ?_, ?_⟩
    · rw [hSplit]
      intro other hOther
      rcases List.mem_cons.mp hOther with rfl | hOther
      · exact hChunk
      · exact hReferences other hOther
    · rw [hSplit, hLast]
      exact hTail

end Harmless

section Loop
variable {p : HtmlParser} {chunk rest s : Str} {data out : List Str} {fuel : Nat}

/-- A chunk is handed on as it is, or shorter. -/
theorem decoded_short (h : p.decoded chunk = .ok data) :
    (p.refs.unescape maxStrDigits chunk = .ok chunk ∧ data.flatten = chunk) ∨
      (visible data.flatten).length < (visible chunk).length := by
  unfold HtmlParser.decoded at h
  split at h
  · next hEmpty =>
      obtain rfl := Except.ok.inj h
      subst hEmpty
      exact .inl ⟨rfl, rfl⟩
  · split at h
    · next text hText =>
        obtain rfl := Except.ok.inj h
        rw [List.flatten_singleton]
        rcases CharRefs.unescape_short hText with rfl | hShort
        · exact .inl ⟨hText, rfl⟩
        · exact .inr hShort
    · cases h

theorem decoded_of_unescape (h : p.refs.unescape maxStrDigits chunk = .ok chunk) :
    ∃ data, p.decoded chunk = .ok data ∧ data.flatten = chunk := by
  unfold HtmlParser.decoded
  split
  · next hEmpty => exact ⟨[], rfl, hEmpty.symm⟩
  · rw [h]
    exact ⟨[chunk], rfl, List.flatten_singleton⟩

theorem ne_of_notMem (h : '<' ∉ chunk) : ∀ c ∈ chunk, (c != '<') = true := by
  intro c hc
  rw [bne_iff_ne]
  rintro rfl
  exact h hc

/-- Without a mark the text is handed on, or held back. -/
theorem goahead_of_notMem (h : '<' ∉ s) :
    p.goahead (fuel + 1) s = if heldBack s then .ok [] else p.decoded s := by
  rw [HtmlParser.goahead, List.dropWhile_eq_nil_iff.mpr (ne_of_notMem h),
    List.takeWhile_eq_self_iff.mpr (ne_of_notMem h)]

/-- The loop hands on the text in front of the mark first. -/
theorem goahead_append (h : '<' ∉ chunk) : p.goahead (fuel + 1) (chunk ++ '<' :: rest) =
    (do return (← p.decoded chunk) ++ (← p.atMark (p.goahead fuel) rest)) := by
  have hChunk : (chunk ++ '<' :: rest).takeWhile (· != '<') = chunk := by
    rw [List.takeWhile_append_of_pos (ne_of_notMem h)]
    simp
  have hRest : (chunk ++ '<' :: rest).dropWhile (· != '<') = '<' :: rest := by
    rw [List.dropWhile_append_of_pos (ne_of_notMem h)]
    simp
  rw [HtmlParser.goahead, hChunk, hRest]

/-- What a turn hands on at a `<`: nothing at the end of the text, what is left of markup, or
the character itself. -/
theorem atMark_eq_ok {loop : Str → Except PyError (List Str)} (h : p.atMark loop rest = .ok out) :
    (rest = [] ∧ out = []) ∨
    (∃ c tail, rest = c :: tail ∧ opensMarkup c = true ∧ p.construct ('<' :: rest) = .ok (out, none)) ∨
    (∃ c tail data n later, rest = c :: tail ∧ opensMarkup c = true ∧
      p.construct ('<' :: rest) = .ok (data, some n) ∧ loop (('<' :: rest).drop n) = .ok later ∧
      out = data ++ later) ∨
    ∃ c tail later, rest = c :: tail ∧ opensMarkup c = false ∧ loop rest = .ok later ∧
      out = "<".toList :: later := by
  cases rest with
  | nil => exact .inl ⟨rfl, (Except.ok.inj h).symm⟩
  | cons c tail =>
      right
      rw [HtmlParser.atMark] at h
      cases hOpens : opensMarkup c with
      | true =>
          rw [hOpens, if_pos rfl] at h
          obtain ⟨⟨data, taken⟩, hConstruct, h⟩ := (except_bind_eq_ok _).mp h
          cases taken with
          | none =>
              obtain rfl := Except.ok.inj h
              exact .inl ⟨c, tail, rfl, hOpens, hConstruct⟩
          | some n =>
              obtain ⟨later, hLater, h⟩ := (except_bind_eq_ok _).mp h
              exact .inr (.inl ⟨c, tail, data, n, later, rfl, hOpens, hConstruct, hLater,
                (Except.ok.inj h).symm⟩)
      | false =>
          rw [hOpens, if_neg Bool.false_ne_true] at h
          obtain ⟨later, hLater, h⟩ := (except_bind_eq_ok _).mp h
          exact .inr (.inr ⟨c, tail, later, rfl, hOpens, hLater, (Except.ok.inj h).symm⟩)

/-- The whole text is handed on, which is harmless then, or visible characters are lost. -/
def HandedOn (p : HtmlParser) (s : Str) (out : List Str) : Prop :=
  (p.Harmless s ∧ out.flatten = s) ∨ (visible out.flatten).length < (visible s).length

/-- Never more is handed on than there was. -/
theorem HandedOn.length_le (h : HandedOn p s out) : (visible out.flatten).length ≤ (visible s).length := by
  rcases h with ⟨-, hAll⟩ | hShort
  · rw [hAll]
  · exact hShort.le

theorem visible_mark (s : Str) : visible ('<' :: s) = '<' :: visible s := visible_cons (by decide)

/-- At a mark that opens markup something is lost. -/
theorem atMark_short {loop : Str → Except PyError (List Str)} (h : p.atMark loop rest = .ok out)
    (hLoop : ∀ s out, s.length ≤ rest.length → loop s = .ok out → HandedOn p s out) :
    ((∃ c, rest.head? = some c ∧ opensMarkup c = false) ∧ p.Harmless rest ∧ out.flatten = '<' :: rest) ∨
      (visible out.flatten).length < (visible ('<' :: rest)).length := by
  rcases atMark_eq_ok h with ⟨rfl, rfl⟩ | ⟨c, tail, rfl, hOpens, hConstruct⟩ |
    ⟨c, tail, data, n, later, rfl, hOpens, hConstruct, hLater, rfl⟩ | ⟨c, tail, later, rfl, hOpens, hLater, rfl⟩
  · right
    rw [visible_mark]
    exact Nat.zero_lt_succ _
  · right
    have hLossy := p.construct_lossy c tail out none hOpens hConstruct
    rwa [Option.getD_none, List.take_of_length_le (by simp)] at hLossy
  · right
    obtain ⟨hPositive, -⟩ := p.construct_taken c tail data n hOpens hConstruct
    have hLossy := p.construct_lossy c tail data (some n) hOpens hConstruct
    have hRest : (visible later.flatten).length ≤ (visible (('<' :: c :: tail).drop n)).length := by
      refine (hLoop _ later ?_ hLater).length_le
      rw [List.length_drop, List.length_cons]
      omega
    rw [Option.getD_some] at hLossy
    rw [List.flatten_append, visible_append, List.length_append]
    calc
      _ < (visible (('<' :: c :: tail).take n)).length + (visible (('<' :: c :: tail).drop n)).length :=
        Nat.add_lt_add_of_lt_of_le hLossy hRest
      _ = (visible ('<' :: c :: tail)).length := by
        rw [← List.length_append, ← visible_append, List.take_append_drop]
  · have hMark : ("<".toList :: later).flatten = '<' :: later.flatten := rfl
    rw [hMark]
    rcases hLoop _ later (Nat.le_refl _) hLater with ⟨hHarmless, hAll⟩ | hShort
    · exact .inl ⟨⟨c, rfl, hOpens⟩, hHarmless, by rw [hAll]⟩
    · right
      rw [visible_mark, visible_mark]
      exact Nat.succ_lt_succ hShort

theorem lt_of_heldBack (h : heldBack s = true) : 0 < (visible s).length := by
  have hTail : (s.drop (s.length - 34)).contains '&' = true := (Bool.and_eq_true_iff.mp h).1
  have hMem : '&' ∈ s := List.mem_of_mem_drop (List.contains_iff_mem.mp hTail)
  exact List.length_pos_of_mem (List.mem_filter.mpr ⟨hMem, by decide⟩)

/-- The loop hands on a harmless text, and loses some of any other one. -/
theorem goahead_short (hFuel : s.length < fuel) (h : p.goahead fuel s = .ok out) : HandedOn p s out := by
  induction fuel generalizing s out with
  | zero => omega
  | succ fuel ih =>
      by_cases hMark : '<' ∈ s
      · obtain ⟨chunk, rest, rfl, hChunk⟩ := List.eq_append_cons_of_mem hMark
        rw [goahead_append hChunk] at h
        obtain ⟨data, hData, h⟩ := (except_bind_eq_ok _).mp h
        obtain ⟨later, hLater, h⟩ := (except_bind_eq_ok _).mp h
        obtain rfl := Except.ok.inj h
        have hLength : rest.length < fuel := by
          rw [List.length_append, List.length_cons] at hFuel
          omega
        have hRest := atMark_short hLater fun s out hs => ih (by omega)
        rw [HandedOn, harmless_append_iff hChunk, List.flatten_append, visible_append, visible_append,
          List.length_append, List.length_append]
        rcases decoded_short hData with ⟨hPlain, hAll⟩ | hShort
        · rcases hRest with ⟨hNext, hHarmless, hAllRest⟩ | hShort
          · exact .inl ⟨⟨hPlain, hNext, hHarmless⟩, by rw [hAll, hAllRest]⟩
          · rw [hAll]
            exact .inr (Nat.add_lt_add_left hShort _)
        · right
          have hLe : (visible later.flatten).length ≤ (visible ('<' :: rest)).length := by
            rcases hRest with ⟨-, -, hAllRest⟩ | hShort
            · rw [hAllRest]
            · exact hShort.le
          exact Nat.add_lt_add_of_lt_of_le hShort hLe
      · rw [goahead_of_notMem hMark] at h
        rw [HandedOn, harmless_iff_of_notMem hMark]
        split at h
        · next hHeld =>
            obtain rfl := Except.ok.inj h
            exact .inr (lt_of_heldBack hHeld)
        · next hFree =>
            rcases decoded_short h with ⟨hPlain, hAll⟩ | hShort
            · exact .inl ⟨⟨hPlain, Bool.not_eq_true _ ▸ hFree⟩, hAll⟩
            · exact .inr hShort

/-- A harmless text is handed on as it is. -/
theorem goahead_of_harmless (hFuel : s.length < fuel) (h : p.Harmless s) :
    ∃ out, p.goahead fuel s = .ok out ∧ out.flatten = s := by
  induction fuel generalizing s with
  | zero => omega
  | succ fuel ih =>
      by_cases hMark : '<' ∈ s
      · obtain ⟨chunk, rest, rfl, hChunk⟩ := List.eq_append_cons_of_mem hMark
        obtain ⟨hPlain, ⟨c, hHead, hOpens⟩, hRest⟩ := (harmless_append_iff hChunk).mp h
        obtain ⟨tail, rfl⟩ := List.head?_eq_some_iff.mp hHead
        have hLength : (c :: tail).length < fuel := by
          rw [List.length_append, List.length_cons] at hFuel
          omega
        obtain ⟨later, hLater, hAllRest⟩ := ih hLength hRest
        obtain ⟨data, hData, hAll⟩ := decoded_of_unescape hPlain
        refine ⟨data ++ "<".toList :: later, ?_, ?_⟩
        · rw [goahead_append hChunk, hData, HtmlParser.atMark, hOpens, if_neg Bool.false_ne_true, hLater]
          rfl
        · rw [List.flatten_append, hAll, List.flatten_cons, hAllRest]
          rfl
      · obtain ⟨hPlain, hFree⟩ := (harmless_iff_of_notMem hMark).mp h
        obtain ⟨data, hData, hAll⟩ := decoded_of_unescape hPlain
        refine ⟨data, ?_, hAll⟩
        rw [goahead_of_notMem hMark, hFree, if_neg Bool.false_ne_true, hData]

end Loop

section Words

theorem visible_intercalate (ws : List Str) : visible (List.intercalate " ".toList ws) = visible ws.flatten := by
  have hBlank : visible " ".toList = [] := by decide
  induction ws with
  | nil => rfl
  | cons w ws ih =>
      cases ws with
      | nil => simp
      | cons w' ws =>
          rw [List.intercalate_cons_cons, List.flatten_cons, visible_append, visible_append, visible_append, ih,
            hBlank, List.append_nil]

theorem flatten_splitOnP {α : Type} (p : α → Bool) (l : List α) :
    (l.splitOnP p).flatten = l.filter fun a => !p a := by
  induction l with
  | nil => rfl
  | cons a l ih =>
      obtain ⟨first, rest, hParts⟩ := List.exists_cons_of_ne_nil (List.splitOnP_ne_nil p l)
      rw [hParts] at ih
      rw [List.splitOnP_cons_eq_if_modifyHead, List.filter_cons, ← ih]
      cases p a <;> simp [hParts]

/-- The words of a text are its visible characters. -/
theorem flatten_words (s : Str) : (words s).flatten = visible s := by
  rw [words, List.flatten_filter_ne_nil, flatten_splitOnP, visible]

theorem visible_words (s : Str) : visible (List.intercalate " ".toList (words s)) = visible s := by
  rw [visible_intercalate, flatten_words]
  simp [visible]

end Words

/-- The words of a text are all kept exactly when the text is harmless. -/
theorem stripTags_iff {Tag : Type} (markup : Markup Tag) (p : HtmlParser) (t : Str) :
    stripTags { markup with data := p.feed } t = .ok (List.intercalate " ".toList (words t)) ↔
      p.Harmless t := by
  have hFuel : t.length < t.length + 1 := Nat.lt_succ_self _
  constructor
  · intro h
    obtain ⟨chunks, hFeed, h⟩ := (except_bind_eq_ok _).mp h
    have hSame := congrArg visible (Except.ok.inj h)
    rw [visible_words, visible_words] at hSame
    rcases goahead_short hFuel hFeed with ⟨hHarmless, -⟩ | hShort
    · exact hHarmless
    · rw [hSame] at hShort
      exact absurd hShort (Nat.lt_irrefl _)
  · intro h
    obtain ⟨chunks, hFeed, hAll⟩ := goahead_of_harmless hFuel h
    have hData : p.feed t = .ok chunks := hFeed
    simp [stripTags, hData, hAll]

/-- The names of the marks that markup is made of. -/
def basicNames : List (String × String) := [
  ("amp", "&"), ("amp;", "&"), ("lt", "<"), ("lt;", "<"), ("gt", ">"), ("gt;", ">")]

/-- The names are longer than what they stand for. -/
theorem basicNames_fit {name value : Str}
    (h : (basicNames.find? (·.1.toList == name)).map (·.2.toList) = some value) :
    (∀ c ∈ name, isSpace c = false) ∧ value.length ≤ name.length := by
  obtain ⟨entry, hFound, rfl⟩ := Option.map_eq_some_iff.mp h
  obtain rfl : entry.1.toList = name := by simpa using List.find?_some hFound
  have hAll : basicNames.all (fun entry => entry.1.toList.all (fun c => !isSpace c) &&
      decide (entry.2.toList.length ≤ entry.1.toList.length)) = true := by decide
  simpa using List.all_eq_true.mp hAll entry (List.mem_of_find?_eq_some hFound)

def basicRefs : CharRefs where
  named name := (basicNames.find? (·.1.toList == name)).map (·.2.toList)
  numbered n := [Char.ofNat n]
  named_visible _ _ h := (basicNames_fit h).1
  named_short _ _ h := (basicNames_fit h).2
  numbered_short _ := Nat.le_refl 1

/-- A parser for texts without markup, which waits for the end of any. -/
def plainParser : HtmlParser where
  refs := basicRefs
  construct _ := .ok ([], none)
  construct_taken := by simp
  construct_lossy := by
    intro c rest data taken _ h
    obtain ⟨rfl, rfl⟩ := Prod.mk.inj (Except.ok.inj h)
    rw [Option.getD_none, List.take_of_length_le (by simp), visible_mark]
    exact Nat.zero_lt_succ _

def plainMarkup : Markup Str where
  soup := .ok
  find := fun tag _ => some tag
  findAll := fun _ _ => []
  text := id
  attrs := fun _ => []
  data := plainParser.feed

example : stripTags plainMarkup "1 < 2\n& 3 > 2" = .ok "1 < 2 & 3 > 2".toList := by rfl

/-- All of a text is lost when it ends with what may become a reference. -/
theorem stripTags_loses_text : stripTags plainMarkup "projects of R&D" = .ok [] ∧
    List.intercalate " ".toList (words "projects of R&D") = "projects of R&D".toList := by
  decide

end Spidercheck
