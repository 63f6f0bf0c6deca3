import Spidercheck.Url.Joining

/-! A path that is read again as a URL of its own, and resolved against itself. Two
slashes at its front are then taken for those of a network location. -/
namespace Url

open Text

variable {chk : NetlocCheck} {path : Str}

/-- The text of a path behind a network location. -/
def PathText (path : Str) : Prop := Rooted path ∧ ∀ c ∈ path, pathChar c = true

theorem splitNetloc_append (h : startsWith "//" path = true) :
    path = "//" ++ (splitNetloc path).1 ++ (splitNetloc path).2 := by
  obtain ⟨rest, rfl⟩ := List.isPrefixOf_iff_prefix.mp h
  have hText : ("//" ++ rest : Str) = '/' :: '/' :: rest := rfl
  rw [hText]
  show '/' :: '/' :: rest = '/' :: '/' :: (rest.takeWhile netlocChar ++ rest.dropWhile netlocChar)
  rw [List.takeWhile_append_dropWhile]

/-- Behind the network location the path goes on with a slash, or ends. -/
theorem rooted_splitNetloc (h : PathText path) : Rooted (splitNetloc path).2 := by
  by_cases hTwo : startsWith "//" path = true
  · obtain ⟨rest, rfl⟩ := List.isPrefixOf_iff_prefix.mp hTwo
    show Rooted (rest.dropWhile netlocChar)
    cases hRest : rest.dropWhile netlocChar with
    | nil => exact rooted_nil
    | cons d more =>
        have hMem : d ∈ rest.dropWhile netlocChar := by
          rw [hRest]
          exact List.mem_cons_self
        have hText : pathChar d = true :=
          h.2 d (List.mem_append_right _ ((List.dropWhile_sublist _).subset hMem))
        have hStop : netlocChar d = false := by
          have := List.head?_dropWhile_not netlocChar rest
          simpa [hRest] using this
        obtain rfl : d = '/' := by
          by_contra hOther
          simp only [netlocChar, Bool.and_eq_false_iff, bne_eq_false_iff_eq] at hStop
          rcases hStop with (hSlash | rfl) | rfl
          · exact hOther hSlash
          · exact absurd hText (by decide)
          · exact absurd hText (by decide)
        exact rooted_cons more
  · rw [splitNetloc_of_not hTwo]
    exact h.1

theorem lastSegment_rooted {s t : Str} (h : Rooted t) (hSome : t ≠ []) :
    lastSegment (s ++ t) = lastSegment t := by
  obtain ⟨d, rest, rfl⟩ := List.exists_cons_of_ne_nil hSome
  obtain rfl : d = '/' := by simpa [Rooted] using h
  rw [lastSegment_slash s rest]
  exact (lastSegment_slash [] rest).symm

/-- The last segment behind the network location is that of the whole path. -/
theorem lastSegment_splitNetloc (h : PathText path) :
    lastSegment (splitNetloc path).2 ⊆ lastSegment path := by
  by_cases hEmpty : (splitNetloc path).2 = []
  · rw [hEmpty]
    exact List.nil_subset _
  · by_cases hTwo : startsWith "//" path = true
    · have hWhole : lastSegment path = lastSegment (splitNetloc path).2 :=
        (congrArg lastSegment (splitNetloc_append hTwo)).trans
          (lastSegment_rooted (rooted_splitNetloc h) hEmpty)
      rw [hWhole]
      exact List.Subset.refl _
    · rw [splitNetloc_of_not hTwo]
      exact List.Subset.refl _

/-- What is read from a path alone. -/
theorem urlparse_path (chk : NetlocCheck) (h : PathText path) (hSegment : ';' ∉ lastSegment path) :
    urlparse chk path [] =
      if chk.allows (splitNetloc path).1 = true then
        some { scheme := [], netloc := (splitNetloc path).1, path := (splitNetloc path).2, params := [],
               query := [], fragment := [] }
      else none := by
  obtain ⟨hQuery, hFragment, hClean⟩ := legible_path h.2
  have hHead : ∀ c, path.head? = some c → c = '/' := by
    intro c hc
    rcases h.1 with hNil | hSlash
    · simp [hNil] at hc
    · exact Option.some.inj (hc.symm.trans hSlash)
  have hText : sanitize path = path := by
    apply sanitize_of_clean hClean
    intro c hc
    rw [hHead c hc]
    decide
  have hScheme : splitScheme path [] = ([], path) := by
    apply splitScheme_of_head
    intro c hc
    rw [hHead c hc]
    decide
  have hNil : (stripOf c0ControlOrSpace []).filter (!unsafeByte ·) = [] := rfl
  have hSubset := (splitNetloc_subset path).2
  have hHash : cut '#' (splitNetloc path).2 = ((splitNetloc path).2, []) :=
    cut_of_notMem fun hMem => hFragment (hSubset hMem)
  have hMark : cut '?' (splitNetloc path).2 = ((splitNetloc path).2, []) :=
    cut_of_notMem fun hMem => hQuery (hSubset hMem)
  have hParams : splitParams (splitNetloc path).2 = ((splitNetloc path).2, []) :=
    splitParams_of_notMem fun hMem => hSegment (lastSegment_splitNetloc h hMem)
  simp only [urlparse, urlsplit, hText, hNil, hScheme, hHash, hMark]
  split
  · simp only [Option.map_some, hParams, ite_self]
  · rfl

/-- What a path becomes when it is resolved against itself. -/
def selfJoined (path : Str) : Str :=
  if (splitNetloc path).1 ≠ [] then path
  else if (splitNetloc path).2 = [] then []
  else urlunparse { scheme := [], netloc := [], path := mergePath (splitNetloc path).2 (splitNetloc path).2,
                    params := [], query := [], fragment := [] }

/-- A network location in front comes behind two slashes. -/
theorem startsWith_of_host (h : (splitNetloc path).1 ≠ []) : startsWith "//" path = true := by
  by_contra hNot
  rw [splitNetloc_of_not hNot] at h
  exact h rfl

theorem urlunparse_path (path : Str) :
    urlunparse { scheme := [], netloc := [], path := path, params := [], query := [], fragment := [] } =
      if startsWith "//" path then "//" ++ path else path := by
  have hAuthority : ¬ Authoritative [] [] := by simp [Authoritative]
  have hLocator : locator [] [] path = if startsWith "//" path then "//" ++ path else path :=
    locator_of_not hAuthority
  simp only [urlunparse, urlunsplit, marked_nil, List.append_nil, hLocator]

theorem urljoin_self (h : PathText path) (hSegment : ';' ∉ lastSegment path) :
    urljoin chk path path =
      if chk.allows (splitNetloc path).1 = true then some (selfJoined path) else none := by
  by_cases hEmpty : path = []
  · subst hEmpty
    have hNone : splitNetloc [] = ([], []) := rfl
    simp [urljoin, selfJoined, hNone, allows_nil]
  · have hParse := urlparse_path chk h hSegment
    by_cases hAllowed : chk.allows (splitNetloc path).1 = true
    · rw [if_pos hAllowed] at hParse ⊢
      have hNil : ([] : Str) ∈ usesRelative ∧ ([] : Str) ∈ usesNetloc := by decide
      rw [urljoin_of_parse hEmpty hEmpty hParse hParse rfl hNil.1 hNil.2, Option.some.injEq]
      unfold selfJoined resolveParts
      split
      · next hHost =>
          have hAuthority : Authoritative [] (splitNetloc path).1 := .inl hHost
          have hText := splitNetloc_append (startsWith_of_host hHost)
          simp only [urlunparse, urlunsplit, marked_nil, List.append_nil]
          rw [locator_of_authoritative hAuthority, slashed_of_rooted (rooted_splitNetloc h)]
          simpa using hText.symm
      · next hHost =>
          have hNone : (splitNetloc path).1 = [] := not_not.mp hHost
          by_cases hRest : (splitNetloc path).2 = []
          · simp [hNone, hRest, urlunparse_path, startsWith]
          · simp [hNone, hRest]
    · rw [if_neg hAllowed] at hParse ⊢
      simp [urljoin, hEmpty, hParse]

/-- The text is made of that of the path. -/
theorem pathChar_selfJoined (h : PathText path) : ∀ d ∈ selfJoined path, pathChar d = true := by
  have hRest : ∀ d ∈ (splitNetloc path).2, pathChar d = true :=
    fun d hd => h.2 d ((splitNetloc_subset path).2 hd)
  unfold selfJoined
  split
  · exact h.2
  · split
    · intro d hd
      cases hd
    · rw [urlunparse_path]
      split
      · intro d hd
        rcases List.mem_append.mp hd with hd | hd
        · obtain rfl : d = '/' := by simpa using hd
          decide
        · exact pathChar_mergePath hRest hRest d hd
      · exact pathChar_mergePath hRest hRest

theorem lastSegment_selfJoined (h : PathText path) : lastSegment (selfJoined path) ⊆ lastSegment path := by
  have hMerged := lastSegment_mergePath_subset (splitNetloc path).2 (splitNetloc path).2
  unfold selfJoined
  split
  · exact List.Subset.refl _
  · split
    · exact List.nil_subset _
    · rw [urlunparse_path]
      split
      · have hSlashes (t : Str) : lastSegment ("//" ++ t) = lastSegment t := lastSegment_slash ['/'] t
        rw [hSlashes]
        exact List.Subset.trans hMerged (lastSegment_splitNetloc h)
      · exact List.Subset.trans hMerged (lastSegment_splitNetloc h)

/-- A path that resolving it against itself does not change: it names a network
location, or it has no segments of dots and not two or three slashes in front. -/
def Steady (path : Str) : Prop :=
  (splitNetloc path).1 ≠ [] ∨
    (Undotted path ∧ (startsWith "//" path = true → startsWith "////" path = true))

instance : DecidablePred Steady := fun path =>
  inferInstanceAs (Decidable ((splitNetloc path).1 ≠ [] ∨
    (Undotted path ∧ (startsWith "//" path = true → startsWith "////" path = true))))

theorem undotted_slashes {rest : Str} : Undotted ("//" ++ rest) ↔ Undotted rest := by
  have hNil : ¬ IsDots [] := by decide
  simp [Undotted, splitOn_slash, hNil]

/-- Joining gives a path from the root back exactly when it has no segment of dots. -/
theorem slashed_merged_iff {rest : Str} (hRoot : rest.head? = some '/') (hOne : startsWith "//" rest ≠ true) :
    slashed (urlunparse { scheme := [], netloc := [], path := mergePath rest rest, params := [],
                          query := [], fragment := [] }) = rest ↔ Undotted rest := by
  rw [urlunparse_path]
  constructor
  · intro hEq
    by_cases hTwo : startsWith "//" (mergePath rest rest) = true
    · rw [if_pos hTwo] at hEq
      have hFront : startsWith "//" rest = true := by
        rw [← hEq]
        simp [slashed, startsWith, List.isPrefixOf]
      exact absurd hFront hOne
    · rw [if_neg hTwo] at hEq
      rw [← hEq]
      exact undotted_slashed (undotted_mergePath _ _)
  · intro hUndotted
    rw [mergePath_of_undotted hRoot hUndotted, if_neg hOne, slashed_of_rooted (.inr hRoot)]

/-- With two slashes too many in front they are kept only if two more follow. -/
theorem slashed_doubled_iff {rest : Str} (hRoot : rest.head? = some '/') :
    slashed (urlunparse { scheme := [], netloc := [], path := mergePath rest rest, params := [],
                          query := [], fragment := [] }) = "//" ++ rest ↔
      Undotted rest ∧ startsWith "//" rest = true := by
  rw [urlunparse_path]
  constructor
  · intro hEq
    by_cases hTwo : startsWith "//" (mergePath rest rest) = true
    · rw [if_pos hTwo] at hEq
      have hSame : mergePath rest rest = rest := by simpa [slashed] using hEq
      exact ⟨hSame ▸ undotted_mergePath rest rest, hSame ▸ hTwo⟩
    · -- with one slash in front there is no second one
      rw [if_neg hTwo] at hEq
      rcases hMerged : mergePath rest rest with _ | ⟨d, more⟩
      · exact absurd hMerged (mergePath_ne_nil _ _)
      · rw [hMerged] at hEq hTwo
        by_cases hSlash : d = '/'
        · subst hSlash
          rw [slashed_of_rooted (rooted_cons more)] at hEq
          rw [hEq] at hTwo
          exact absurd (by simp [startsWith, List.isPrefixOf]) hTwo
        · have hText : slashed (d :: more) = '/' :: d :: more := by simp [slashed, hSlash]
          rw [hText] at hEq
          have hSecond : d = '/' := by simpa using congrArg (fun l : Str => l.tail.head?) hEq
          exact absurd hSecond hSlash
  · rintro ⟨hUndotted, hTwo⟩
    rw [mergePath_of_undotted hRoot hUndotted, if_pos hTwo]
    rfl

theorem slashed_selfJoined_iff (h : PathText path) (hSome : path ≠ []) :
    slashed (selfJoined path) = path ↔ Steady path := by
  have hRoot : path.head? = some '/' := h.1.resolve_left hSome
  unfold selfJoined Steady
  by_cases hHost : (splitNetloc path).1 ≠ []
  · rw [if_pos hHost]
    exact iff_of_true (slashed_of_rooted h.1) (.inl hHost)
  · rw [if_neg hHost, or_iff_right hHost]
    by_cases hTwo : startsWith "//" path = true
    · have hNone : (splitNetloc path).1 = [] := not_not.mp hHost
      have hText : path = "//" ++ (splitNetloc path).2 := by
        simpa [hNone] using splitNetloc_append hTwo
      have hFour : startsWith "////" path = startsWith "//" (splitNetloc path).2 := by
        conv_lhs => rw [hText]
        rfl
      have hUndotted : Undotted path ↔ Undotted (splitNetloc path).2 := by
        conv_lhs => rw [hText]
        exact undotted_slashes
      by_cases hRest : (splitNetloc path).2 = []
      · rw [if_pos hRest, hFour, hRest]
        refine iff_of_false (fun hEq => hSome hEq.symm) ?_
        rintro ⟨-, hImp⟩
        cases hImp hTwo
      · rw [if_neg hRest, hFour, hUndotted, imp_iff_right hTwo,
          ← slashed_doubled_iff ((rooted_splitNetloc h).resolve_left hRest), ← hText]
    · rw [splitNetloc_of_not hTwo, if_neg hSome, slashed_merged_iff hRoot hTwo]
      exact (and_iff_left fun hFront => absurd hFront hTwo).symm

end Url
