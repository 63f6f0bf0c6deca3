import Spidercheck.Url.Splitting

/-! Parsing: splitting with the parameters of the last segment taken off the
path. The round trip carries over from splitting. -/
namespace Url

open Text

variable {chk : NetlocCheck} {url default path params s t : Str}

theorem uptoLastSlash_append (path : Str) : uptoLastSlash path ++ lastSegment path = path := by
  rw [uptoLastSlash, lastSegment, ← List.reverse_append, List.takeWhile_append_dropWhile,
    List.reverse_reverse]

theorem notMem_lastSegment (path : Str) : '/' ∉ lastSegment path := by
  intro hMem
  have := List.mem_takeWhile_imp (List.mem_reverse.mp hMem)
  simp at this

theorem lastSegment_append (h : '/' ∉ t) : lastSegment (s ++ t) = lastSegment s ++ t := by
  have hAll : ∀ c ∈ t.reverse, (c != '/') = true := by
    intro c hc
    rw [bne_iff_ne]
    rintro rfl
    exact h (List.mem_reverse.mp hc)
  simp [lastSegment, List.takeWhile_append_of_pos hAll]

theorem lastSegment_of_notMem (h : '/' ∉ s) : lastSegment s = s := by
  have hAppend : lastSegment ([] ++ s) = lastSegment [] ++ s := lastSegment_append h
  simpa [lastSegment] using hAppend

theorem uptoLastSlash_append_of_notMem (h : '/' ∉ t) : uptoLastSlash (s ++ t) = uptoLastSlash s := by
  have hAll : ∀ c ∈ t.reverse, (c != '/') = true := by
    intro c hc
    rw [bne_iff_ne]
    rintro rfl
    exact h (List.mem_reverse.mp hc)
  simp [uptoLastSlash, List.dropWhile_append_of_pos hAll]

theorem splitParams_of_notMem (h : ';' ∉ lastSegment path) : splitParams path = (path, []) := by
  rw [splitParams, cut_of_notMem h, uptoLastSlash_append]

theorem splitParams_append (h : ';' ∉ lastSegment path) (hParams : '/' ∉ params) :
    splitParams (path ++ ';' :: params) = (path, params) := by
  have hSlash : '/' ∉ ';' :: params := by simpa using hParams
  rw [splitParams, lastSegment_append hSlash, uptoLastSlash_append_of_notMem hSlash, cut_append h,
    uptoLastSlash_append]

theorem cut_isPrefix (c : Char) (s : Str) : (cut c s).1 ++ marked c (cut c s).2 <+: s := by
  by_cases hMem : c ∈ s
  · obtain ⟨before, after, rfl, hNone⟩ := List.eq_append_cons_of_mem hMem
    rw [cut_append hNone]
    unfold marked
    split
    · rw [List.append_nil]
      exact List.prefix_append _ _
    · exact List.prefix_refl _
  · rw [cut_of_notMem hMem]
    simp [marked]

/-- Splitting and putting together loses at most an empty mark. -/
theorem splitParams_isPrefix (path : Str) :
    (splitParams path).1 ++ marked ';' (splitParams path).2 <+: path := by
  have hCut := cut_isPrefix ';' (lastSegment path)
  calc (splitParams path).1 ++ marked ';' (splitParams path).2
      = uptoLastSlash path ++ ((cut ';' (lastSegment path)).1 ++
          marked ';' (cut ';' (lastSegment path)).2) := by rw [splitParams, List.append_assoc]
    _ <+: uptoLastSlash path ++ lastSegment path := (List.prefix_append_right_inj _).mpr hCut
    _ = path := uptoLastSlash_append path

def ParseResult.toSplit (r : ParseResult) : SplitResult where
  scheme := r.scheme
  netloc := r.netloc
  path := r.path ++ marked ';' r.params
  query := r.query
  fragment := r.fragment

theorem urlunparse_eq (r : ParseResult) : urlunparse r = urlunsplit r.toSplit := rfl

/-- What parsing guarantees of the components under a scheme with parameters. -/
structure ParseResult.Legible (chk : NetlocCheck) (r : ParseResult) : Prop where
  split : r.toSplit.Legible chk
  paramsSlash : '/' ∉ r.params
  pathParams : ';' ∉ lastSegment r.path

/-- Parsing is splitting, and then taking off parameters where there may be some. -/
theorem urlparse_eq_some {r : ParseResult} (h : urlparse chk url default = some r) :
    ∃ split, urlsplit chk url default = some split ∧ r.scheme = split.scheme ∧
      r.netloc = split.netloc ∧ r.query = split.query ∧ r.fragment = split.fragment ∧
      (r.path, r.params) =
        if split.scheme ∈ usesParams ∧ ';' ∈ split.path then splitParams split.path
        else (split.path, []) := by
  obtain ⟨split, hSplit, rfl⟩ := Option.map_eq_some_iff.mp h
  refine ⟨split, hSplit, rfl, rfl, rfl, rfl, rfl⟩

theorem urlparse_path_isPrefix {r : ParseResult} {split : SplitResult}
    (h : (r.path, r.params) =
      if split.scheme ∈ usesParams ∧ ';' ∈ split.path then splitParams split.path
      else (split.path, [])) : r.toSplit.path <+: split.path := by
  split at h
  · obtain ⟨hPath, hParams⟩ := Prod.mk.inj h
    rw [ParseResult.toSplit, hPath, hParams]
    exact splitParams_isPrefix split.path
  · obtain ⟨hPath, hParams⟩ := Prod.mk.inj h
    rw [ParseResult.toSplit, hPath, hParams]
    simp [marked]

theorem legible_toSplit {r : ParseResult} (h : urlparse chk url default = some r) :
    r.toSplit.Legible chk := by
  obtain ⟨split, hSplit, -, hNetloc, hQuery, hFragment, hPath⟩ := urlparse_eq_some h
  have hLegible := legible_urlsplit hSplit
  have hSubset := (urlparse_path_isPrefix hPath).subset
  have hRest : r.toSplit = { split with scheme := r.scheme, path := r.toSplit.path } := by
    rw [ParseResult.toSplit, hNetloc, hQuery, hFragment]
  rw [hRest]
  exact { hLegible with
    pathQuery := fun hMem => hLegible.pathQuery (hSubset hMem)
    pathFragment := fun hMem => hLegible.pathFragment (hSubset hMem)
    pathClean := hLegible.pathClean.subset hSubset }

/-- A path behind a network location is empty or begins with a slash. -/
theorem rooted_toSplit {r : ParseResult} (h : urlparse chk url default = some r)
    (hNetloc : r.netloc ≠ []) : Rooted r.toSplit.path := by
  obtain ⟨split, hSplit, -, hEq, -, -, hPath⟩ := urlparse_eq_some h
  obtain ⟨rest, hRest⟩ := urlparse_path_isPrefix hPath
  cases hText : r.toSplit.path with
  | nil => exact rooted_nil
  | cons c text =>
      rcases rooted_urlsplit hSplit (hEq ▸ hNetloc) with hNil | hHead
      · rw [hNil, hText] at hRest
        cases hRest
      · rw [← hRest, hText] at hHead
        exact .inr (by simpa using hHead)

theorem notMem_splitParams (path : Str) :
    '/' ∉ (splitParams path).2 ∧ ';' ∉ lastSegment (splitParams path).1 := by
  constructor
  · exact fun hMem => notMem_lastSegment path (mem_of_mem_cut_snd hMem)
  · have hSlash : '/' ∉ (cut ';' (lastSegment path)).1 :=
      fun hMem => notMem_lastSegment path (mem_of_mem_cut_fst hMem)
    have hEmpty : lastSegment (uptoLastSlash path) = [] := by
      rw [lastSegment, uptoLastSlash, List.reverse_reverse, List.reverse_eq_nil_iff]
      cases hRest : path.reverse.dropWhile (· != '/') with
      | nil => rfl
      | cons c rest =>
          have hHead : (c != '/') = false := by
            have := List.head?_dropWhile_not (· != '/') path.reverse
            simpa [hRest] using this
          exact List.takeWhile_cons_of_neg (by simp [hHead])
    rw [splitParams, lastSegment_append hSlash, hEmpty]
    exact notMem_cut_fst

theorem legible_urlparse {r : ParseResult} (h : urlparse chk url default = some r)
    (hScheme : r.scheme ∈ usesParams) : r.Legible chk := by
  obtain ⟨split, hSplit, hEq, -, -, -, hPath⟩ := urlparse_eq_some h
  have hBoth : '/' ∉ r.params ∧ ';' ∉ lastSegment r.path := by
    split at hPath
    · obtain ⟨hPath, hParams⟩ := Prod.mk.inj hPath
      rw [hPath, hParams]
      exact notMem_splitParams split.path
    · next hNot =>
        obtain ⟨hPath, hParams⟩ := Prod.mk.inj hPath
        rw [hPath, hParams]
        refine ⟨by simp, fun hMem => hNot ⟨hEq ▸ hScheme, ?_⟩⟩
        rw [← uptoLastSlash_append split.path]
        exact List.mem_append_right _ hMem
  exact ⟨legible_toSplit h, hBoth.1, hBoth.2⟩

/-- Legible components are read back from the URL that they make. -/
theorem urlparse_urlunparse {r : ParseResult} (h : r.Legible chk) (hRooted : Rooted r.toSplit.path)
    (hScheme : r.scheme = [] ∨ SchemeText r.scheme) (hUses : r.scheme ∈ usesParams) :
    urlparse chk (urlunparse r) [] = some r := by
  rw [urlunparse_eq, urlparse, urlsplit_urlunsplit h.split hRooted hScheme]
  have hParams : (if r.toSplit.scheme ∈ usesParams ∧ ';' ∈ r.toSplit.path then
      splitParams r.toSplit.path else (r.toSplit.path, [])) = (r.path, r.params) := by
    by_cases hNone : r.params = []
    · have hPath : r.toSplit.path = r.path := by simp [ParseResult.toSplit, hNone, marked]
      rw [hPath, splitParams_of_notMem h.pathParams, hNone]
      split <;> rfl
    · have hPath : r.toSplit.path = r.path ++ ';' :: r.params := by
        simp [ParseResult.toSplit, hNone, marked]
      rw [hPath, if_pos ⟨hUses, by simp⟩]
      exact splitParams_append h.pathParams h.paramsSlash
  simp only [Option.map_some, hParams]
  rfl

end Url
