import Spidercheck.Url.Paths

/-! Resolving a reference against a base, in terms of the components of both. -/
namespace Url

open Text

variable {chk : NetlocCheck} {base url default scheme s : Str} {b r : ParseResult}

def resolveParts (b r : ParseResult) : ParseResult :=
  if r.netloc ≠ [] then r
  else if r.path = [] ∧ r.params = [] then
    { r with netloc := b.netloc, path := b.path, params := b.params,
             query := if r.query = [] then b.query else r.query }
  else { r with netloc := b.netloc, path := mergePath b.path r.path }

theorem resolveParts_scheme : (resolveParts b r).scheme = r.scheme := by
  unfold resolveParts
  split
  · rfl
  · split <;> rfl

/-- Without the authority of the base the rest is resolved in the same way. -/
theorem resolveParts_withoutAuthority (hScheme : r.scheme = []) (scheme : Str) :
    resolveParts { b with scheme := [], netloc := [] } r =
      { resolveParts b { r with scheme := scheme } with scheme := [], netloc := r.netloc } := by
  unfold resolveParts
  by_cases hHost : r.netloc = []
  · by_cases hPath : r.path = [] ∧ r.params = []
    · simp [hHost, hPath, hScheme]
    · simp [hHost, hPath, hScheme]
  · have hBare : r = { r with scheme := [] } := by rw [← hScheme]
    simpa [hHost] using hBare

theorem urljoin_of_parse (hBase : base ≠ []) (hUrl : url ≠ []) (hb : urlparse chk base [] = some b)
    (hr : urlparse chk url b.scheme = some r) (hScheme : r.scheme = b.scheme)
    (hRelative : b.scheme ∈ usesRelative) (hNetloc : b.scheme ∈ usesNetloc) :
    urljoin chk base url = some (urlunparse (resolveParts b r)) := by
  simp only [urljoin, if_neg hBase, if_neg hUrl, hb, hr, Option.bind_eq_bind, Option.bind_some,
    hScheme, hNetloc, true_and, ↓reduceIte, resolveParts]
  by_cases hHost : r.netloc = []
  · by_cases hPath : r.path = [] ∧ r.params = []
    · simp [hHost, hPath, hRelative]
    · simp [hHost, hPath, hRelative]
  · simp [hHost, hRelative]

/-- A reference with a scheme of its own is not resolved. -/
theorem urljoin_of_scheme_ne (hBase : base ≠ []) (hUrl : url ≠ [])
    (hb : urlparse chk base [] = some b) (hr : urlparse chk url b.scheme = some r)
    (hScheme : r.scheme ≠ b.scheme) : urljoin chk base url = some url := by
  simp [urljoin, hBase, hUrl, hb, hr, hScheme]

theorem urljoin_of_none (hBase : base ≠ []) (hUrl : url ≠ [])
    (hb : urlparse chk base [] = some b) (hr : urlparse chk url b.scheme = none) :
    urljoin chk base url = none := by
  simp [urljoin, hBase, hUrl, hb, hr]

/-- A default scheme that the clean-up does not change. -/
def CleanDefault (default : Str) : Prop :=
  (stripOf c0ControlOrSpace default).filter (!unsafeByte ·) = default

/-- A URL has a scheme of its own, or it takes the default one. -/
theorem splitScheme_default (url : Str) :
    (∃ scheme rest, scheme ≠ [] ∧ ∀ default, splitScheme url default = (scheme, rest)) ∨
    ∀ default, splitScheme url default = (default, url) := by
  by_cases hOwn : ':' ∈ url ∧ url.head?.any Char.isAlpha = true ∧
      (url.takeWhile (· != ':')).all schemeChar = true
  · refine .inl ⟨(url.takeWhile (· != ':')).map Char.toLower, _, ?_, fun default => if_pos hOwn⟩
    obtain ⟨-, hHead, -⟩ := hOwn
    rcases url with _ | ⟨c, url⟩
    · simp at hHead
    · have hNe : c ≠ ':' := by
        rintro rfl
        have hColon : (':' : Char).isAlpha = false := by decide
        simp [hColon] at hHead
      simp [hNe]
  · exact .inr fun default => if_neg hOwn

variable (chk url) in
theorem urlsplit_default (hDefault : CleanDefault default) :
    (urlsplit chk url default = urlsplit chk url [] ∧
      ∀ r, urlsplit chk url [] = some r → r.scheme ≠ []) ∨
    (urlsplit chk url default = (urlsplit chk url []).map ({ · with scheme := default }) ∧
      ∀ r, urlsplit chk url [] = some r → r.scheme = []) := by
  have hNil : (stripOf c0ControlOrSpace []).filter (!unsafeByte ·) = [] := rfl
  rcases splitScheme_default (sanitize url) with ⟨scheme, rest, hSome, hOwn⟩ | hNone
  · refine .inl ⟨?_, ?_⟩
    · simp only [urlsplit, hOwn]
    · intro r hr
      simp only [urlsplit, hOwn, Option.ite_none_right_eq_some, Option.some.injEq] at hr
      obtain ⟨-, rfl⟩ := hr
      exact hSome
  · refine .inr ⟨?_, ?_⟩
    · simp only [urlsplit, hNone]
      rw [hNil, hDefault]
      split <;> rfl
    · intro r hr
      simp only [urlsplit, hNone, Option.ite_none_right_eq_some, Option.some.injEq] at hr
      obtain ⟨-, rfl⟩ := hr
      exact hNil

variable (chk url) in
/-- Parsing under a default scheme that has parameters as the empty one has. -/
theorem urlparse_default (hDefault : CleanDefault default) (hUses : default ∈ usesParams) :
    (urlparse chk url default = urlparse chk url [] ∧
      ∀ r, urlparse chk url [] = some r → r.scheme ≠ []) ∨
    (urlparse chk url default = (urlparse chk url []).map ({ · with scheme := default }) ∧
      ∀ r, urlparse chk url [] = some r → r.scheme = []) := by
  have hScheme (P : Str → Prop) (h : ∀ r, urlsplit chk url [] = some r → P r.scheme) :
      ∀ r, urlparse chk url [] = some r → P r.scheme := by
    intro r hr
    obtain ⟨split, hSplit, hEq, -⟩ := urlparse_eq_some hr
    exact hEq ▸ h split hSplit
  rcases urlsplit_default chk url hDefault with ⟨hSame, hOwn⟩ | ⟨hTaken, hNone⟩
  · exact .inl ⟨by rw [urlparse, urlparse, hSame], hScheme (· ≠ []) hOwn⟩
  · refine .inr ⟨?_, hScheme (· = []) hNone⟩
    have hNil : ([] : Str) ∈ usesParams := by decide
    rw [urlparse, urlparse, hTaken]
    cases hSplit : urlsplit chk url [] with
    | none => rfl
    | some split => simp [hNone split hSplit, hUses, hNil]

/-- Parsing fails or not whatever the default scheme is. -/
theorem urlparse_isSome (default : Str) :
    (urlparse chk url default).isSome = (urlparse chk url []).isSome := by
  have hRest (s t : Str) : (splitScheme (sanitize url) s).2 = (splitScheme (sanitize url) t).2 := by
    rcases splitScheme_default (sanitize url) with ⟨scheme, rest, -, hOwn⟩ | hTaken
    · rw [hOwn, hOwn]
    · rw [hTaken, hTaken]
  have hSplit : (urlsplit chk url default).isSome = (urlsplit chk url []).isSome := by
    simp only [urlsplit, hRest _ []]
    split <;> rfl
  rw [urlparse, urlparse, Option.isSome_map, Option.isSome_map, hSplit]

def FromRoot (path : Str) : Prop := path.head? = some '/' ∧ startsWith "//" path = false

instance : DecidablePred FromRoot :=
  fun path => inferInstanceAs (Decidable (path.head? = some '/' ∧ startsWith "//" path = false))

theorem FromRoot.rooted {path : Str} (h : FromRoot path) : Rooted path := .inr h.1

theorem FromRoot.ne_nil {path : Str} (h : FromRoot path) : path ≠ [] := by
  rintro rfl
  cases h.1

def pathChar (c : Char) : Bool := c != '?' && c != '#' && !unsafeByte c

/-- The look of a path, character by character. -/
theorem legible_path (hChars : ∀ c ∈ s, pathChar c = true) : '?' ∉ s ∧ '#' ∉ s ∧ Clean s := by
  refine ⟨?_, ?_, ?_⟩
  · intro hMem
    exact absurd (hChars '?' hMem) (by decide)
  · intro hMem
    exact absurd (hChars '#' hMem) (by decide)
  · intro c hc
    have hChar := hChars c hc
    simp only [pathChar, Bool.and_eq_true, Bool.not_eq_true'] at hChar
    exact hChar.2

theorem ParseResult.Legible.pathChars (h : b.Legible chk) : ∀ c ∈ b.toSplit.path, pathChar c = true := by
  intro c hc
  have hQuery : c ≠ '?' := fun hEq => h.split.pathQuery (hEq ▸ hc)
  have hFragment : c ≠ '#' := fun hEq => h.split.pathFragment (hEq ▸ hc)
  simp [pathChar, hQuery, hFragment, h.split.pathClean c hc]

theorem pathChar_slashed {path : Str} (h : ∀ d ∈ path, pathChar d = true) :
    ∀ d ∈ slashed path, pathChar d = true := by
  unfold slashed
  split
  · exact h
  · exact h
  · intro d hd
    rcases List.mem_cons.mp hd with rfl | hd
    · decide
    · exact h d hd

theorem pathChar_mergePath (hBase : ∀ c ∈ base, pathChar c = true)
    (hPath : ∀ c ∈ s, pathChar c = true) : ∀ c ∈ mergePath base s, pathChar c = true := by
  intro c hc
  rcases mem_mergePath hc with rfl | hc | hc
  · decide
  · exact hBase c hc
  · exact hPath c hc

/-- Other authorities leave the rest legible. -/
theorem ParseResult.Legible.withAuthority (h : b.Legible chk) (hr : r.Legible chk) (scheme : Str) :
    ({ b with scheme := scheme, netloc := r.netloc } : ParseResult).Legible chk where
  split := { h.split with
    netlocChars := hr.split.netlocChars
    netlocClean := hr.split.netlocClean
    allowed := hr.split.allowed }
  paramsSlash := h.paramsSlash
  pathParams := h.pathParams

theorem ParseResult.Legible.withoutAuthority (h : b.Legible chk) :
    ({ b with scheme := [], netloc := [] } : ParseResult).Legible chk where
  split := { h.split with
    netlocChars := by simp [ParseResult.toSplit]
    netlocClean := clean_nil
    allowed := allows_nil chk }
  paramsSlash := h.paramsSlash
  pathParams := h.pathParams

theorem legible_resolveParts (hb : b.Legible chk) (hr : r.Legible chk) :
    (resolveParts b r).Legible chk := by
  unfold resolveParts
  split
  · exact hr
  · split
    · refine ⟨?_, hb.paramsSlash, hb.pathParams⟩
      by_cases hQuery : r.query = []
      · rw [if_pos hQuery]
        exact { hb.split with fragmentClean := hr.split.fragmentClean }
      · rw [if_neg hQuery]
        exact { hb.split with
          queryFragment := hr.split.queryFragment
          queryClean := hr.split.queryClean
          fragmentClean := hr.split.fragmentClean }
    · refine ⟨?_, hr.paramsSlash, ?_⟩
      · have hChars : ∀ c ∈ mergePath b.path r.path ++ marked ';' r.params, pathChar c = true := by
          intro c hc
          rcases List.mem_append.mp hc with hc | hc
          · apply pathChar_mergePath _ _ c hc
            · exact fun d hd => hb.pathChars d (List.mem_append_left _ hd)
            · exact fun d hd => hr.pathChars d (List.mem_append_left _ hd)
          · exact hr.pathChars c (List.mem_append_right _ hc)
        obtain ⟨hQuery, hFragment, hClean⟩ := legible_path hChars
        exact {
          netlocChars := hb.split.netlocChars
          netlocClean := hb.split.netlocClean
          allowed := hb.split.allowed
          pathQuery := hQuery
          pathFragment := hFragment
          pathClean := hClean
          queryFragment := hr.split.queryFragment
          queryClean := hr.split.queryClean
          fragmentClean := hr.split.fragmentClean }
      · exact fun hMem => hr.pathParams (lastSegment_mergePath_subset _ _ hMem)

end Url
