import Spidercheck.Url.Locator

/-! What the components of a URL look like after splitting, and the round trip:
components that look so are read back from the URL that is put together from them. -/
namespace Url

open Text

variable {chk : NetlocCheck} {url scheme netloc path query fragment rest s t : Str}

/-- A text from which nothing is removed inside. -/
def Clean (s : Str) : Prop := ∀ c ∈ s, unsafeByte c = false

theorem clean_nil : Clean [] := by
  intro c hc
  cases hc

theorem Clean.append (hs : Clean s) (ht : Clean t) : Clean (s ++ t) := by
  intro c hc
  rcases List.mem_append.mp hc with hc | hc
  · exact hs c hc
  · exact ht c hc

theorem Clean.cons {c : Char} (hc : unsafeByte c = false) (hs : Clean s) : Clean (c :: s) := by
  intro d hd
  rcases List.mem_cons.mp hd with rfl | hd
  · exact hc
  · exact hs d hd

theorem Clean.subset (hs : Clean s) (h : t ⊆ s) : Clean t := fun c hc => hs c (h hc)

theorem Clean.marked {mark : Char} (hMark : unsafeByte mark = false) (hs : Clean s) :
    Clean (marked mark s) := by
  unfold Url.marked
  split
  · exact clean_nil
  · exact hs.cons hMark

theorem clean_sanitize (url : Str) : Clean (sanitize url) := by
  intro c hc
  simpa using (List.mem_filter.mp hc).2

/-- The clean-up leaves a clean text alone that does not begin with a blank. -/
theorem sanitize_of_clean (h : Clean s) (hHead : ∀ c, s.head? = some c → c0ControlOrSpace c = false) :
    sanitize s = s := by
  have hDrop : s.dropWhile c0ControlOrSpace = s := by
    cases s with
    | nil => rfl
    | cons c rest => rw [List.dropWhile_cons_of_neg (by simp [hHead c rfl])]
  rw [sanitize, hDrop, List.filter_eq_self]
  intro c hc
  simp [h c hc]

structure SchemeText (scheme : Str) : Prop where
  begins : ∃ c, scheme.head? = some c ∧ c.isAlpha = true
  chars : scheme.all schemeChar = true
  lower : scheme.map Char.toLower = scheme

theorem SchemeText.notMem_colon (h : SchemeText scheme) : ':' ∉ scheme := by
  intro hMem
  exact absurd (List.all_eq_true.mp h.chars ':' hMem) (by decide)

theorem splitScheme_of_scheme (h : SchemeText scheme) (default : Str) :
    splitScheme (scheme ++ ':' :: rest) default = (scheme, rest) := by
  have hBefore : (scheme ++ ':' :: rest).takeWhile (· != ':') = scheme :=
    congrArg Prod.fst (cut_append h.notMem_colon)
  obtain ⟨c, hHead, hAlpha⟩ := h.begins
  have hAny : (scheme ++ ':' :: rest).head?.any Char.isAlpha = true := by
    simp [List.head?_append, hHead, hAlpha]
  simp only [splitScheme, hBefore]
  rw [if_pos ⟨by simp, hAny, h.chars⟩, h.lower]
  simp

theorem splitScheme_of_head (h : ∀ c, url.head? = some c → c.isAlpha = false) (default : Str) :
    splitScheme url default = (default, url) := by
  have hAny : url.head?.any Char.isAlpha = false := by
    cases hHead : url.head? with
    | none => rfl
    | some c => exact h c hHead
  simp [splitScheme, hAny]

theorem subset_splitScheme (url default : Str) : (splitScheme url default).2 ⊆ url := by
  unfold splitScheme
  simp only
  split
  · exact List.drop_subset _ _
  · exact List.Subset.refl _

theorem splitNetloc_of_slashes (hNetloc : ∀ c ∈ netloc, netlocChar c = true)
    (hRest : ∀ c, rest.head? = some c → netlocChar c = false) :
    splitNetloc ("//" ++ netloc ++ rest) = (netloc, rest) := by
  have hText : ("//" ++ netloc ++ rest : Str) = '/' :: '/' :: (netloc ++ rest) := rfl
  have hTake : rest.takeWhile netlocChar = [] := by
    cases rest with
    | nil => rfl
    | cons c rest => exact List.takeWhile_cons_of_neg (by simp [hRest c rfl])
  have hDrop : rest.dropWhile netlocChar = rest := by
    cases rest with
    | nil => rfl
    | cons c rest => exact List.dropWhile_cons_of_neg (by simp [hRest c rfl])
  rw [hText]
  simp only [splitNetloc]
  rw [List.takeWhile_append_of_pos hNetloc, List.dropWhile_append_of_pos hNetloc, hTake, hDrop,
    List.append_nil]

theorem splitNetloc_of_not (h : startsWith "//" url ≠ true) : splitNetloc url = ([], url) := by
  unfold splitNetloc
  split
  · next rest => exact absurd (by simp [startsWith, List.isPrefixOf]) h
  · rfl

theorem splitNetloc_subset (url : Str) :
    (splitNetloc url).1 ⊆ url ∧ (splitNetloc url).2 ⊆ url := by
  unfold splitNetloc
  split
  · next rest =>
      have hRest : rest ⊆ '/' :: '/' :: rest := fun c hc => by simp [hc]
      exact ⟨List.Subset.trans (List.takeWhile_sublist _).subset hRest,
        List.Subset.trans (List.dropWhile_sublist _).subset hRest⟩
  · exact ⟨List.nil_subset _, List.Subset.refl _⟩

theorem netlocChar_splitNetloc (url : Str) : ∀ c ∈ (splitNetloc url).1, netlocChar c = true := by
  unfold splitNetloc
  split
  · intro c hc
    exact List.mem_takeWhile_imp hc
  · intro c hc
    cases hc

/-- Behind a network location comes a slash, a mark or nothing. -/
theorem head_splitNetloc (h : (splitNetloc url).1 ≠ []) :
    ∀ c, (splitNetloc url).2.head? = some c → netlocChar c = false := by
  unfold splitNetloc at h ⊢
  split at h
  · intro c hc
    have := List.head?_dropWhile_not netlocChar
    grind
  · exact absurd rfl h

/-- What splitting guarantees of the components, whatever the URL. -/
structure SplitResult.Legible (chk : NetlocCheck) (r : SplitResult) : Prop where
  netlocChars : ∀ c ∈ r.netloc, netlocChar c = true
  netlocClean : Clean r.netloc
  allowed : chk.allows r.netloc = true
  pathQuery : '?' ∉ r.path
  pathFragment : '#' ∉ r.path
  pathClean : Clean r.path
  queryFragment : '#' ∉ r.query
  queryClean : Clean r.query
  fragmentClean : Clean r.fragment

theorem allows_nil (chk : NetlocCheck) : chk.allows [] = true := by
  simp [NetlocCheck.allows]

theorem cut_subset (c : Char) (s : Str) : (cut c s).1 ⊆ s ∧ (cut c s).2 ⊆ s :=
  ⟨fun _ h => mem_of_mem_cut_fst h, fun _ h => mem_of_mem_cut_snd h⟩

theorem urlsplit_eq_some {default : Str} {r : SplitResult} (h : urlsplit chk url default = some r) :
    ∃ located, (∃ schemed, located = splitNetloc schemed ∧ schemed ⊆ sanitize url) ∧
      chk.allows located.1 = true ∧ r.netloc = located.1 ∧
      r.path = (cut '?' (cut '#' located.2).1).1 ∧ r.query = (cut '?' (cut '#' located.2).1).2 ∧
      r.fragment = (cut '#' located.2).2 := by
  unfold urlsplit at h
  simp only [Option.ite_none_right_eq_some, Option.some.injEq] at h
  obtain ⟨hAllowed, rfl⟩ := h
  exact ⟨_, ⟨_, rfl, subset_splitScheme _ _⟩, hAllowed, rfl, rfl, rfl, rfl⟩

theorem legible_urlsplit {default : Str} {r : SplitResult} (h : urlsplit chk url default = some r) :
    r.Legible chk := by
  obtain ⟨located, ⟨schemed, rfl, hSubset⟩, hAllowed, hNetloc, hPath, hQuery, hFragment⟩ :=
    urlsplit_eq_some h
  obtain ⟨hNetlocSubset, hRest⟩ := splitNetloc_subset schemed
  have hClean : Clean (splitNetloc schemed).2 := (clean_sanitize url).subset (List.Subset.trans hRest hSubset)
  have hFirst : Clean (cut '#' (splitNetloc schemed).2).1 := hClean.subset (cut_subset _ _).1
  constructor
  · rw [hNetloc]
    exact netlocChar_splitNetloc schemed
  · rw [hNetloc]
    exact (clean_sanitize url).subset (List.Subset.trans hNetlocSubset hSubset)
  · rw [hNetloc]
    exact hAllowed
  · rw [hPath]
    exact notMem_cut_fst
  · rw [hPath]
    exact fun hMem => notMem_cut_fst (mem_of_mem_cut_fst hMem)
  · rw [hPath]
    exact hFirst.subset (cut_subset _ _).1
  · rw [hQuery]
    exact fun hMem => notMem_cut_fst (mem_of_mem_cut_snd hMem)
  · rw [hQuery]
    exact hFirst.subset (cut_subset _ _).2
  · rw [hFragment]
    exact hClean.subset (cut_subset _ _).2

/-- A path behind a network location is empty or begins with a slash. -/
theorem rooted_urlsplit {default : Str} {r : SplitResult} (h : urlsplit chk url default = some r)
    (hNetloc : r.netloc ≠ []) : Rooted r.path := by
  obtain ⟨located, ⟨schemed, rfl, -⟩, -, hEq, hPath, -, -⟩ := urlsplit_eq_some h
  have hHead := head_splitNetloc (hEq ▸ hNetloc)
  rw [hPath]
  rcases hRest : (splitNetloc schemed).2 with _ | ⟨c, rest⟩
  · exact .inl rfl
  · rw [hRest] at hHead
    have hChar := hHead c rfl
    by_cases hSlash : c = '/'
    · subst hSlash
      exact .inr (by simp [cut])
    · refine .inl ?_
      by_cases hMark : c = '?'
      · simp [cut, hMark]
      · obtain rfl : c = '#' := by simpa [netlocChar, hSlash, hMark] using hChar
        simp [cut]

section RoundTrip
variable {r : SplitResult}

def SplitResult.tail (r : SplitResult) : Str :=
  r.path ++ marked '?' r.query ++ marked '#' r.fragment

theorem head_tail (hRooted : Rooted r.path) :
    ∀ c, r.tail.head? = some c → c = '/' ∨ c = '?' ∨ c = '#' := by
  intro c hc
  rcases hPath : r.path with _ | ⟨d, path⟩
  · by_cases hQuery : r.query = []
    · by_cases hFragment : r.fragment = []
      · simp [SplitResult.tail, hPath, hQuery, hFragment, marked] at hc
      · obtain rfl : '#' = c := by
          simpa [SplitResult.tail, hPath, hQuery, hFragment, marked] using hc
        exact .inr (.inr rfl)
    · obtain rfl : '?' = c := by simpa [SplitResult.tail, hPath, hQuery, marked] using hc
      exact .inr (.inl rfl)
  · obtain rfl : d = '/' := by simpa [Rooted, hPath] using hRooted
    obtain rfl : '/' = c := by simpa [SplitResult.tail, hPath] using hc
    exact .inl rfl

theorem cut_tail (h : r.Legible chk) : cut '#' r.tail = (r.path ++ marked '?' r.query, r.fragment) := by
  apply cut_append_marked
  unfold marked
  split
  · simpa using h.pathFragment
  · simp [h.pathFragment, h.queryFragment]

/-- What is read from a text once its scheme and network location are taken off. -/
theorem urlsplit_of_located (h : r.Legible chk) {located default : Str}
    (hScheme : splitScheme (sanitize url) ((stripOf c0ControlOrSpace default).filter (!unsafeByte ·)) =
      (r.scheme, located))
    (hNetloc : splitNetloc located = (r.netloc, r.tail)) : urlsplit chk url default = some r := by
  have hQuery : cut '?' (r.path ++ marked '?' r.query) = (r.path, r.query) :=
    cut_append_marked h.pathQuery
  simp only [urlsplit, hScheme, hNetloc, cut_tail h, hQuery, h.allowed, ↓reduceIte]

theorem clean_tail (h : r.Legible chk) : Clean r.tail :=
  (h.pathClean.append (h.queryClean.marked (by decide))).append (h.fragmentClean.marked (by decide))

def SplitResult.place (r : SplitResult) : Str :=
  if Authoritative r.scheme r.netloc ∨ startsWith "//" r.path then "//" ++ r.netloc ++ r.tail
  else r.tail

theorem urlunsplit_eq (hRooted : Rooted r.path) :
    urlunsplit r = (if r.scheme ≠ [] then r.scheme ++ [':'] else []) ++ r.place := by
  by_cases hAuthority : Authoritative r.scheme r.netloc
  · rw [urlunsplit, locator_of_authoritative hAuthority, slashed_of_rooted hRooted]
    simp [SplitResult.place, SplitResult.tail, hAuthority]
  · have hNetloc : r.netloc = [] := by
      by_contra hSome
      exact hAuthority (.inl hSome)
    rw [urlunsplit, locator_of_not hAuthority]
    by_cases hTwo : startsWith "//" r.path = true
    · have hPlace : r.place = "//" ++ r.netloc ++ r.tail := if_pos (.inr hTwo)
      rw [if_pos hTwo, hPlace, hNetloc]
      simp [SplitResult.tail]
    · have hPlace : r.place = r.tail := if_neg (not_or.mpr ⟨hAuthority, hTwo⟩)
      rw [if_neg hTwo, hPlace]
      simp [SplitResult.tail]

/-- Two slashes at the front of the tail come from the path. -/
theorem startsWith_tail (hRooted : Rooted r.path) (h : startsWith "//" r.path ≠ true) :
    startsWith "//" r.tail ≠ true := by
  intro hTail
  obtain ⟨more, hMore⟩ := List.isPrefixOf_iff_prefix.mp hTail
  have hMark : ∀ c, (marked '?' r.query ++ marked '#' r.fragment).head? = some c → c ≠ '/' := by
    intro c hc
    have hNil : Rooted ({ r with path := [] } : SplitResult).path := rooted_nil
    rcases head_tail hNil c (by simpa [SplitResult.tail] using hc) with rfl | rfl | rfl
    · unfold marked at hc
      split at hc
      · split at hc
        · simp at hc
        · simp at hc
      · simp at hc
    · decide
    · decide
  rcases hPath : r.path with _ | ⟨c, path⟩
  · rw [SplitResult.tail, hPath, List.nil_append] at hMore
    exact hMark '/' (by rw [← hMore]; rfl) rfl
  · obtain rfl : c = '/' := by simpa [Rooted, hPath] using hRooted
    rcases path with _ | ⟨d, path⟩
    · have hRest : '/' :: more = marked '?' r.query ++ marked '#' r.fragment := by
        simpa [SplitResult.tail, hPath] using hMore
      exact hMark '/' (by rw [← hRest]; rfl) rfl
    · rw [hPath] at h
      obtain ⟨rfl, -⟩ : '/' = d ∧ _ := by simpa [SplitResult.tail, hPath] using hMore
      exact h (by simp [startsWith, List.isPrefixOf])

theorem splitNetloc_place (h : r.Legible chk) (hRooted : Rooted r.path) :
    splitNetloc r.place = (r.netloc, r.tail) := by
  unfold SplitResult.place
  split
  · apply splitNetloc_of_slashes h.netlocChars
    intro c hc
    rcases head_tail hRooted c hc with rfl | rfl | rfl <;> decide
  · next hNot =>
      have hNetloc : r.netloc = [] := by
        by_contra hSome
        exact hNot (.inl (.inl hSome))
      rw [splitNetloc_of_not (startsWith_tail hRooted fun hTwo => hNot (.inr hTwo)), hNetloc]

theorem clean_place (h : r.Legible chk) : Clean r.place := by
  unfold SplitResult.place
  split
  · have hSlashes : Clean "//" := by
      intro c hc
      obtain rfl : c = '/' := by simpa using hc
      decide
    exact (hSlashes.append h.netlocClean).append (clean_tail h)
  · exact clean_tail h

theorem head_place (hRooted : Rooted r.path) :
    ∀ c, r.place.head? = some c → c = '/' ∨ c = '?' ∨ c = '#' := by
  unfold SplitResult.place
  split
  · intro c hc
    obtain rfl : '/' = c := by simpa using hc
    exact .inl rfl
  · exact head_tail hRooted

theorem c0ControlOrSpace_of_isAlpha {c : Char} (h : c.isAlpha = true) :
    c0ControlOrSpace c = false := by
  by_contra hBlank
  have hSmall : c.toNat ≤ 32 := by simpa [c0ControlOrSpace] using hBlank
  rcases isAlpha_iff.mp h with h | h
  · omega
  · omega

theorem SchemeText.clean (h : SchemeText scheme) : Clean scheme := by
  intro c hc
  by_contra hUnsafe
  have hChar := List.all_eq_true.mp h.chars c hc
  have hByte : unsafeByte c = true := by simpa using hUnsafe
  obtain (rfl | rfl) | rfl : (c = '\t' ∨ c = '\r') ∨ c = '\n' := by
    simpa only [unsafeByte, Bool.or_eq_true, beq_iff_eq] using hByte
  · exact absurd hChar (by decide)
  · exact absurd hChar (by decide)
  · exact absurd hChar (by decide)

/-- Legible components are read back from the URL that they make. -/
theorem urlsplit_urlunsplit (h : r.Legible chk) (hRooted : Rooted r.path)
    (hScheme : r.scheme = [] ∨ SchemeText r.scheme) : urlsplit chk (urlunsplit r) [] = some r := by
  apply urlsplit_of_located h ?_ (splitNetloc_place h hRooted)
  rw [urlunsplit_eq hRooted]
  rcases hScheme with hScheme | hScheme
  · rw [hScheme]
    have hText : sanitize r.place = r.place := by
      apply sanitize_of_clean (clean_place h)
      intro c hc
      rcases head_place hRooted c hc with rfl | rfl | rfl <;> decide
    have hHead : ∀ c, r.place.head? = some c → c.isAlpha = false := by
      intro c hc
      rcases head_place hRooted c hc with rfl | rfl | rfl <;> decide
    simp only [ne_eq, not_true_eq_false, ↓reduceIte, List.nil_append, hText]
    exact splitScheme_of_head hHead _
  · obtain ⟨first, hFirst, hAlpha⟩ := hScheme.begins
    have hSome : r.scheme ≠ [] := by
      rintro hNone
      simp [hNone] at hFirst
    have hText : sanitize (r.scheme ++ ':' :: r.place) = r.scheme ++ ':' :: r.place := by
      apply sanitize_of_clean (hScheme.clean.append ((clean_place h).cons (by decide)))
      intro c hc
      obtain rfl : first = c := by simpa [List.head?_append, hFirst] using hc
      exact c0ControlOrSpace_of_isAlpha hAlpha
    simp only [hSome, ne_eq, not_false_eq_true, ↓reduceIte, List.append_assoc, List.cons_append,
      List.nil_append, hText]
    exact splitScheme_of_scheme hScheme _

end RoundTrip

end Url
