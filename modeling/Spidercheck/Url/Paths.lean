import Spidercheck.Url.Parsing

/-! Paths as lists of segments. Merging a path into a base removes the dot
segments, and does nothing else to a path from the root. -/
namespace Url

open Text

variable {base path seg : Str} {segments resolved : List Str} {c : Char}

/-- A segment that a resolved path does not have. -/
def IsDots (seg : Str) : Prop := seg = ['.'] ∨ seg = ['.', '.']

instance : DecidablePred IsDots :=
  fun seg => inferInstanceAs (Decidable (seg = ['.'] ∨ seg = ['.', '.']))

def Undotted (path : Str) : Prop := ∀ seg ∈ path.splitOn '/', ¬ IsDots seg

instance : DecidablePred Undotted :=
  fun path => inferInstanceAs (Decidable (∀ seg ∈ path.splitOn '/', ¬ IsDots seg))

/-- The segments that are resolved when a path is merged into a base. -/
def mergedSegments (base path : Str) : List Str :=
  if path.head? = some '/' then path.splitOn '/'
  else squeeze (baseParts base ++ path.splitOn '/')

/-- The resolved segments, with an empty one for a dot segment at the end. -/
def closeSegments (segments : List Str) : List Str :=
  let resolved := segments.foldl resolveSegment []
  if segments.getLast? = some ['.'] ∨ segments.getLast? = some ['.', '.'] then resolved ++ [[]]
  else resolved

def joinSegments (segments : List Str) : Str :=
  if ['/'].intercalate segments = [] then ['/'] else ['/'].intercalate segments

theorem mergePath_eq (base path : Str) :
    mergePath base path = joinSegments (closeSegments (mergedSegments base path)) := rfl

theorem splitOn_cons (c : Char) (path : Str) :
    (c = '/' ∧ (c :: path).splitOn '/' = [] :: path.splitOn '/') ∨
    (c ≠ '/' ∧ ∃ first rest, path.splitOn '/' = first :: rest ∧
      (c :: path).splitOn '/' = (c :: first) :: rest) := by
  by_cases hSlash : c = '/'
  · exact .inl ⟨hSlash, by simp [List.splitOn, List.splitOnP_cons_eq_if_modifyHead, hSlash]⟩
  · cases hParts : path.splitOn '/' with
    | nil => exact absurd hParts (List.splitOnP_ne_nil _ _)
    | cons first rest =>
        refine .inr ⟨hSlash, first, rest, rfl, ?_⟩
        rw [List.splitOn] at hParts ⊢
        simp [List.splitOnP_cons_eq_if_modifyHead, hSlash, hParts]

theorem splitOn_slash (path : Str) : ('/' :: path).splitOn '/' = [] :: path.splitOn '/' := by
  rcases splitOn_cons '/' path with ⟨-, h⟩ | ⟨hNe, -⟩
  · exact h
  · exact absurd rfl hNe

theorem splitOn_ne_nil (path : Str) : path.splitOn '/' ≠ [] := List.splitOnP_ne_nil _ _

/-- A segment has no slash, and its characters come from the path. -/
theorem mem_splitOn (h : seg ∈ path.splitOn '/') : '/' ∉ seg ∧ seg ⊆ path := by
  induction path generalizing seg with
  | nil =>
      obtain rfl : seg = [] := by simpa using h
      exact ⟨by simp, List.nil_subset _⟩
  | cons c path ih =>
      have hLater {s : Str} (hSeg : s ∈ path.splitOn '/') : '/' ∉ s ∧ s ⊆ c :: path :=
        ⟨(ih hSeg).1, List.Subset.trans (ih hSeg).2 (List.subset_cons_self c path)⟩
      rcases splitOn_cons c path with ⟨-, hSplit⟩ | ⟨hNe, first, rest, hParts, hSplit⟩
      · rw [hSplit] at h
        rcases List.mem_cons.mp h with rfl | h
        · exact ⟨by simp, List.nil_subset _⟩
        · exact hLater h
      · rw [hSplit] at h
        rcases List.mem_cons.mp h with rfl | h
        · obtain ⟨hSlash, hSubset⟩ := ih (hParts ▸ List.mem_cons_self ..)
          exact ⟨by simp [hSlash, hNe.symm], List.cons_subset_cons c hSubset⟩
        · exact hLater (hParts ▸ List.mem_cons_of_mem _ h)

theorem mem_intercalate (h : c ∈ ['/'].intercalate segments) :
    c = '/' ∨ ∃ seg ∈ segments, c ∈ seg := by
  induction segments with
  | nil => simp at h
  | cons first rest ih =>
      cases rest with
      | nil => exact .inr ⟨first, by simp, by simpa using h⟩
      | cons second rest =>
          rw [List.intercalate_cons_cons, List.append_assoc] at h
          rcases List.mem_append.mp h with h | h
          · exact .inr ⟨first, by simp, h⟩
          · rcases List.mem_append.mp h with h | h
            · exact .inl (by simpa using h)
            · rcases ih h with hSlash | ⟨seg, hSeg, hc⟩
              · exact .inl hSlash
              · exact .inr ⟨seg, List.mem_cons_of_mem _ hSeg, hc⟩

theorem lastSegment_slash (s t : Str) : lastSegment (s ++ '/' :: t) = lastSegment t := by
  have hStop : ('/' :: s.reverse).takeWhile (· != '/') = [] := List.takeWhile_cons_of_neg (by simp)
  simp only [lastSegment, List.reverse_append, List.reverse_cons, List.append_assoc,
    List.singleton_append, List.takeWhile_append, hStop]
  split
  · next hAll =>
      have hWhole := (List.takeWhile_prefix _).eq_of_length hAll
      rw [List.append_nil, hWhole]
  · rfl

theorem lastSegment_intercalate (hSlash : ∀ seg ∈ segments, '/' ∉ seg)
    (hLast : segments.getLast? = some seg) : lastSegment (['/'].intercalate segments) = seg := by
  induction segments with
  | nil => cases hLast
  | cons first rest ih =>
      cases rest with
      | nil =>
          obtain rfl : first = seg := by simpa using hLast
          simpa using lastSegment_of_notMem (hSlash first (by simp))
      | cons second rest =>
          rw [List.intercalate_cons_cons, List.append_assoc, List.singleton_append, lastSegment_slash]
          apply ih (fun s hs => hSlash s (List.mem_cons_of_mem _ hs))
          simpa [List.getLast?_cons_cons] using hLast

theorem getLast_splitOn (path : Str) : (path.splitOn '/').getLast? = some (lastSegment path) := by
  obtain ⟨seg, hLast⟩ := Option.ne_none_iff_exists'.mp
    (mt List.getLast?_eq_none_iff.mp (splitOn_ne_nil path))
  have hSegment : lastSegment (['/'].intercalate (path.splitOn '/')) = seg :=
    lastSegment_intercalate (fun s hs => (mem_splitOn hs).1) hLast
  rw [List.intercalate_splitOn] at hSegment
  rw [hLast, hSegment]

/-- What is left after resolving are segments that are no dots. -/
theorem mem_foldl_resolve (h : seg ∈ segments.foldl resolveSegment resolved) :
    seg ∈ resolved ∨ (seg ∈ segments ∧ ¬ IsDots seg) := by
  induction segments generalizing resolved with
  | nil => exact .inl h
  | cons first rest ih =>
      rcases ih h with hBefore | ⟨hRest, hDots⟩
      · unfold resolveSegment at hBefore
        split at hBefore
        · exact .inl ((List.dropLast_subset _ hBefore))
        · next hTwo =>
            split at hBefore
            · exact .inl hBefore
            · next hOne =>
                rcases List.mem_append.mp hBefore with hBefore | hBefore
                · exact .inl hBefore
                · obtain rfl : seg = first := by simpa using hBefore
                  exact .inr ⟨List.mem_cons_self .., fun hDots => hDots.elim hOne hTwo⟩
      · exact .inr ⟨List.mem_cons_of_mem _ hRest, hDots⟩

theorem resolveSegment_of_not (h : ¬ IsDots seg) (resolved : List Str) :
    resolveSegment resolved seg = resolved ++ [seg] := by
  have hTwo : seg ≠ ['.', '.'] := fun hEq => h (.inr hEq)
  have hOne : seg ≠ ['.'] := fun hEq => h (.inl hEq)
  simp [resolveSegment, hTwo, hOne]

/-- Segments without dots stay as they are. -/
theorem foldl_resolve_of_undotted (h : ∀ seg ∈ segments, ¬ IsDots seg) (resolved : List Str) :
    segments.foldl resolveSegment resolved = resolved ++ segments := by
  induction segments generalizing resolved with
  | nil => simp
  | cons first rest ih =>
      rw [List.foldl_cons, resolveSegment_of_not (h first (List.mem_cons_self ..)),
        ih fun seg hSeg => h seg (List.mem_cons_of_mem _ hSeg)]
      simp

theorem closeSegments_of_undotted (h : ∀ seg ∈ segments, ¬ IsDots seg) :
    closeSegments segments = segments := by
  have hLast : ¬ (segments.getLast? = some ['.'] ∨ segments.getLast? = some ['.', '.']) := by
    rintro (hEq | hEq)
    · exact h _ (List.mem_of_getLast? hEq) (.inl rfl)
    · exact h _ (List.mem_of_getLast? hEq) (.inr rfl)
  simp only [closeSegments, if_neg hLast]
  simpa using foldl_resolve_of_undotted h []

theorem mem_closeSegments (h : seg ∈ closeSegments segments) :
    seg = [] ∨ (seg ∈ segments ∧ ¬ IsDots seg) := by
  have hResolved (hMem : seg ∈ segments.foldl resolveSegment []) :
      seg = [] ∨ (seg ∈ segments ∧ ¬ IsDots seg) := by
    rcases mem_foldl_resolve hMem with hNil | hSeg
    · cases hNil
    · exact .inr hSeg
  simp only [closeSegments] at h
  split at h
  · rcases List.mem_append.mp h with h | h
    · exact hResolved h
    · exact .inl (by simpa using h)
  · exact hResolved h

/-- The last segment stays, unless it is one of dots. -/
theorem getLast_closeSegments {last : Str} (h : segments.getLast? = some last) :
    (closeSegments segments).getLast? = some (if IsDots last then [] else last) := by
  obtain ⟨init, rfl⟩ := List.getLast?_eq_some_iff.mp h
  simp only [closeSegments, h, Option.some.injEq]
  by_cases hDots : IsDots last
  · have hEnds : last = ['.'] ∨ last = ['.', '.'] := hDots
    rw [if_pos hDots, if_pos hEnds]
    simp
  · have hEnds : ¬ (last = ['.'] ∨ last = ['.', '.']) := hDots
    rw [if_neg hDots, if_neg hEnds, List.foldl_append, List.foldl_cons, List.foldl_nil, resolveSegment_of_not hDots]
    simp

theorem getLast_squeeze (segments : List Str) : (squeeze segments).getLast? = segments.getLast? := by
  cases segments with
  | nil => rfl
  | cons first rest =>
      cases hRest : rest.getLast? with
      | none =>
          obtain rfl := List.getLast?_eq_none_iff.mp hRest
          rfl
      | some last =>
          have hNe : rest ≠ [] := by
            rintro rfl
            cases hRest
          simp only [squeeze, hRest]
          rw [List.getLast?_cons, List.getLast?_cons, hRest]
          simp

theorem squeeze_subset (segments : List Str) : squeeze segments ⊆ segments := by
  cases segments with
  | nil => exact List.nil_subset _
  | cons first rest =>
      apply List.cons_subset_cons
      intro seg hSeg
      rcases List.mem_append.mp hSeg with hSeg | hSeg
      · exact List.dropLast_subset _ (List.mem_filter.mp hSeg).1
      · exact List.mem_of_getLast? (by simpa using hSeg)

theorem baseParts_subset (base : Str) : baseParts base ⊆ base.splitOn '/' := by
  unfold baseParts
  simp only
  split
  · exact List.Subset.refl _
  · exact List.dropLast_subset _

theorem mem_mergedSegments (h : seg ∈ mergedSegments base path) :
    seg ∈ base.splitOn '/' ∨ seg ∈ path.splitOn '/' := by
  unfold mergedSegments at h
  split at h
  · exact .inr h
  · rcases List.mem_append.mp (squeeze_subset _ h) with h | h
    · exact .inl (baseParts_subset base h)
    · exact .inr h

theorem getLast_mergedSegments (base path : Str) :
    (mergedSegments base path).getLast? = some (lastSegment path) := by
  unfold mergedSegments
  split
  · exact getLast_splitOn path
  · rw [getLast_squeeze, List.getLast?_append, getLast_splitOn]
    rfl

theorem slash_mergedSegments (base path : Str) : ∀ seg ∈ closeSegments (mergedSegments base path),
    '/' ∉ seg := by
  intro seg hSeg
  rcases mem_closeSegments hSeg with rfl | ⟨hMem, -⟩
  · simp
  · rcases mem_mergedSegments hMem with hMem | hMem
    · exact (mem_splitOn hMem).1
    · exact (mem_splitOn hMem).1

/-- A merged path has no dot segments. -/
theorem undotted_mergePath (base path : Str) : Undotted (mergePath base path) := by
  rw [mergePath_eq, joinSegments]
  split
  · decide
  · next hSome =>
      have hNe : closeSegments (mergedSegments base path) ≠ [] := by
        intro hNil
        exact hSome (by rw [hNil]; rfl)
      rw [Undotted, List.splitOn_intercalate '/' (slash_mergedSegments base path) hNe]
      intro seg hSeg
      rcases mem_closeSegments hSeg with rfl | ⟨-, hDots⟩
      · decide
      · exact hDots

theorem mem_mergePath (h : c ∈ mergePath base path) : c = '/' ∨ c ∈ base ∨ c ∈ path := by
  rw [mergePath_eq, joinSegments] at h
  split at h
  · exact .inl (by simpa using h)
  · rcases mem_intercalate h with hSlash | ⟨seg, hSeg, hc⟩
    · exact .inl hSlash
    · rcases mem_closeSegments hSeg with rfl | ⟨hMem, -⟩
      · cases hc
      · rcases mem_mergedSegments hMem with hMem | hMem
        · exact .inr (.inl ((mem_splitOn hMem).2 hc))
        · exact .inr (.inr ((mem_splitOn hMem).2 hc))

/-- What stands in the last segment of a merged path was in the last segment before. -/
theorem lastSegment_mergePath_subset (base path : Str) :
    lastSegment (mergePath base path) ⊆ lastSegment path := by
  rw [mergePath_eq, joinSegments]
  split
  · exact List.nil_subset _
  · rw [lastSegment_intercalate (slash_mergedSegments base path)
      (getLast_closeSegments (getLast_mergedSegments base path))]
    split
    · exact List.nil_subset _
    · exact List.Subset.refl _

theorem mergePath_ne_nil (base path : Str) : mergePath base path ≠ [] := by
  rw [mergePath_eq, joinSegments]
  split
  · simp
  · next hSome => exact hSome

/-- From the root, merging a path without dot segments changes nothing. -/
theorem mergePath_of_undotted (hRoot : path.head? = some '/') (h : Undotted path) :
    mergePath base path = path := by
  have hNe : path ≠ [] := by
    rintro rfl
    cases hRoot
  rw [mergePath_eq, mergedSegments, if_pos hRoot, closeSegments_of_undotted h, joinSegments,
    List.intercalate_splitOn, if_neg hNe]

theorem slashed_ne_nil (h : path ≠ []) : slashed path ≠ [] := by
  unfold slashed
  split
  · exact absurd rfl h
  · exact h
  · simp

theorem undotted_slashed (h : Undotted path) : Undotted (slashed path) := by
  unfold slashed
  split
  · decide
  · exact h
  · intro seg hSeg
    rw [splitOn_slash] at hSeg
    rcases List.mem_cons.mp hSeg with rfl | hSeg
    · decide
    · exact h seg hSeg

theorem lastSegment_slashed (path : Str) : lastSegment (slashed path) = lastSegment path := by
  unfold slashed
  split
  · rfl
  · rfl
  · exact lastSegment_slash [] path

end Url
