import Spidercheck.Addresses.Exclusion
import Spidercheck.Model.Saving
import Spidercheck.Url.Reparsing

/-! The URL that is tested and the URL that is fetched. A link is resolved
against the full URL of its page for the tests, and against the relative URL for
storage; the stored path and query are rejoined to the path of the site later. -/
namespace Spidercheck

open Text Url Robots Execution

variable {py : Platform} {site : Site} {page row : Page} {robots : RobotFileParser}
  {link found : Str} {b c r : ParseResult}

/-- An empty path stands for the root. -/
def located (path : Str) : Str := if path = [] then ['/'] else path

/-- What a URL locates: it is read without its fragment. -/
def locate (py : Platform) (url : Str) : Option SplitResult :=
  (urlsplit py.netlocCheck url []).map fun r => { r with path := located r.path, fragment := [] }

/-- The row will be fetched from the URL that the link resolves to. -/
def Fetches (py : Platform) (site : Site) (page : Page) (link : Str) (row : Page) : Prop :=
  ∃ target url place, page.resolve py site link = .ok target ∧ row.getFullUrl py site = .ok url ∧
    locate py target = some place ∧ locate py url = some place

def Page.location (py : Platform) (site : Site) (page : Page) : Option ParseResult :=
  (urljoin py.netlocCheck site.path page.subpath).map fun path =>
    { scheme := site.scheme, netloc := site.netloc, path := path, params := [],
      query := page.params, fragment := [] }

def Page.points (py : Platform) (site : Site) (page : Page) (link : Str) : Option ParseResult := do
  let b ← page.location py site
  let r ← urlparse py.netlocCheck link site.scheme
  return resolveParts b r

/-- The site was created from a URL with a host, with the schemes of the web. -/
structure Site.Web (py : Platform) (site : Site) : Prop where
  scheme : site.scheme = "http".toList ∨ site.scheme = "https".toList
  host : site.netloc ≠ []
  path : site.path = [] ∨ FromRoot site.path
  legible : ({ scheme := site.scheme, netloc := site.netloc, path := site.path, params := [],
               query := [], fragment := [] } : ParseResult).Legible py.netlocCheck

/-- The path of the page, rejoined to that of its site, begins at the root. -/
structure Page.Plain (py : Platform) (site : Site) (page : Page) (b : ParseResult) : Prop where
  located : page.location py site = some b
  legible : b.Legible py.netlocCheck
  path : FromRoot b.path

/-- The link names the host when it names the scheme, and does not climb above the root. -/
def Direct (py : Platform) (link : Str) (c : ParseResult) : Prop :=
  (c.path = [] ∨ FromRoot c.path) ∧
    ∀ r, urlparse py.netlocCheck link [] = some r → r.scheme ≠ [] → r.netloc ≠ []

/-- Rejoining the path to that of the site gives it back, an empty one as `/`. -/
def Site.Rejoins (site : Site) (path : Str) : Prop :=
  (path = [] → site.path = [] ∨ site.path = ['/']) ∧ (path ≠ [] → site.path = [] ∨ Undotted path)

/-- The schemes of the web can be read off the front of a URL. -/
theorem schemeText_web {scheme : Str} (h : scheme = "http".toList ∨ scheme = "https".toList) :
    SchemeText scheme := by
  rcases h with hScheme | hScheme <;> rw [hScheme] <;>
    exact ⟨⟨'h', rfl, by decide⟩, by decide, by decide⟩

theorem Site.Web.schemeText (h : site.Web py) : SchemeText site.scheme := schemeText_web h.scheme

theorem Site.Web.usesParams (h : site.Web py) : site.scheme ∈ usesParams := by
  rcases h.scheme with hScheme | hScheme <;> rw [hScheme] <;> decide

theorem Site.Web.usesNetloc (h : site.Web py) : site.scheme ∈ usesNetloc := by
  rcases h.scheme with hScheme | hScheme <;> rw [hScheme] <;> decide

theorem Site.Web.usesRelative (h : site.Web py) : site.scheme ∈ usesRelative := by
  rcases h.scheme with hScheme | hScheme <;> rw [hScheme] <;> decide

theorem Site.Web.cleanDefault (h : site.Web py) : CleanDefault site.scheme := by
  rcases h.scheme with hScheme | hScheme <;> rw [hScheme] <;> rfl

/-- The full URL writes the components of the page. -/
theorem getFullUrl_of_location (h : page.location py site = some b) :
    page.getFullUrl py site = .ok (urlunparse b) := by
  obtain ⟨path, hPath, rfl⟩ := Option.map_eq_some_iff.mp h
  simp [Page.getFullUrl, hPath]

/-- The relative URL writes the same components without the authority. -/
theorem getRelativeUrl_of_location (h : page.location py site = some b) :
    page.getRelativeUrl py site = .ok (urlunparse { b with scheme := [], netloc := [] }) := by
  obtain ⟨path, hPath, rfl⟩ := Option.map_eq_some_iff.mp h
  simp [Page.getRelativeUrl, hPath]

theorem location_fields (h : page.location py site = some b) :
    b.scheme = site.scheme ∧ b.netloc = site.netloc ∧ b.params = [] := by
  obtain ⟨path, -, rfl⟩ := Option.map_eq_some_iff.mp h
  exact ⟨rfl, rfl, rfl⟩

theorem urlunparse_ne_nil {p : ParseResult} (hPath : p.path ≠ []) : urlunparse p ≠ [] := by
  intro hNil
  have hPlace : locator p.scheme p.netloc p.toSplit.path = [] := by
    rw [urlunparse_eq, urlunsplit, List.append_assoc] at hNil
    exact (List.append_eq_nil_iff.mp hNil).1
  have hPathNil : p.toSplit.path ≠ [] := by
    simp [ParseResult.toSplit, hPath]
  by_cases hAuthority : Authoritative p.scheme p.netloc
  · rw [locator_of_authoritative hAuthority] at hPlace
    simp at hPlace
  · rw [locator_of_not hAuthority] at hPlace
    have hRest := (List.append_eq_nil_iff.mp hPlace).2
    split at hRest
    · simp at hRest
    · exact hPathNil hRest

theorem Page.Plain.params (h : page.Plain py site b) : b.toSplit.path = b.path := by
  simp [ParseResult.toSplit, (location_fields h.located).2.2]

/-- The full URL of a plain page is read as its components. -/
theorem Page.Plain.urlparse_full (h : page.Plain py site b) (hWeb : site.Web py) :
    urlparse py.netlocCheck (urlunparse b) [] = some b := by
  have hScheme := (location_fields h.located).1
  apply urlparse_urlunparse h.legible
  · exact h.params ▸ h.path.rooted
  · exact .inr (hScheme ▸ hWeb.schemeText)
  · exact hScheme ▸ hWeb.usesParams

/-- The relative URL of a plain page is read as its components, without the authority. -/
theorem Page.Plain.urlparse_relative (h : page.Plain py site b) :
    urlparse py.netlocCheck (urlunparse { b with scheme := [], netloc := [] }) [] =
      some { b with scheme := [], netloc := [] } := by
  apply urlparse_urlunparse h.legible.withoutAuthority
  · have hPath : ({ b with scheme := [], netloc := [] } : ParseResult).toSplit.path = b.path := h.params
    rw [hPath]
    exact h.path.rooted
  · exact .inl rfl
  · have hNil : ([] : Str) ∈ usesParams := by decide
    exact hNil

/-- What the tests have established of an accepted link. -/
theorem points_of_leads (hWeb : site.Web py) (hPlain : page.Plain py site b) {target : Str}
    (hLeads : page.Leads py site link target) :
    ∃ r, urlparse py.netlocCheck link site.scheme = some r ∧ r.scheme = site.scheme ∧ link ≠ [] ∧
      target = urlunparse (resolveParts b r) := by
  obtain ⟨hResolve, hOther, hLocal⟩ := hLeads
  have hScheme := (location_fields hPlain.located).1
  have hFull := getFullUrl_of_location hPlain.located
  have hBase : urlunparse b ≠ [] := urlunparse_ne_nil hPlain.path.ne_nil
  have hParse := hPlain.urlparse_full hWeb
  have hJoin : urljoin py.netlocCheck (urlunparse b) link = some target := by
    simpa [Page.resolve, hFull, orValueError_eq_ok] using hResolve
  have hLink : link ≠ [] := by
    rintro rfl
    rw [urljoin, if_neg hBase, if_pos rfl, Option.some.injEq] at hJoin
    exact hOther (hJoin ▸ hFull)
  cases hr : urlparse py.netlocCheck link b.scheme with
  | none =>
      rw [urljoin_of_none hBase hLink hParse hr] at hJoin
      cases hJoin
  | some r =>
      by_cases hSame : r.scheme = b.scheme
      · rw [urljoin_of_parse hBase hLink hParse hr hSame (hScheme ▸ hWeb.usesRelative)
          (hScheme ▸ hWeb.usesNetloc), Option.some.injEq] at hJoin
        exact ⟨r, hScheme ▸ hr, hSame.trans hScheme, hLink, hJoin.symm⟩
      · -- a link with another scheme is no local one
        rw [urljoin_of_scheme_ne hBase hLink hParse hr hSame, Option.some.injEq] at hJoin
        subst hJoin
        rw [hScheme] at hr hSame
        have hOwn : urlparse py.netlocCheck link [] = some r ∧ r.scheme ≠ [] := by
          rcases urlparse_default py.netlocCheck link hWeb.cleanDefault hWeb.usesParams with
            ⟨hSameParse, hOwn⟩ | ⟨hTaken, -⟩
          · exact ⟨hSameParse ▸ hr, hOwn r (hSameParse ▸ hr)⟩
          · rw [hTaken] at hr
            obtain ⟨r₀, -, rfl⟩ := Option.map_eq_some_iff.mp hr
            exact absurd rfl hSame
        simp [Site.isLocal, orValueError, hOwn.1, hOwn.2, hSame] at hLocal

/-- The resolved path may follow a host. -/
theorem rooted_resolveParts (hPlain : page.Plain py site b)
    (hr : urlparse py.netlocCheck link site.scheme = some r)
    (hPath : (resolveParts b r).path = [] ∨ FromRoot (resolveParts b r).path) :
    Rooted (resolveParts b r).toSplit.path := by
  rcases hPath with hEmpty | hRoot
  · by_cases hHost : r.netloc = []
    · -- without a host the path comes from the page
      unfold resolveParts at hEmpty
      rw [if_neg (not_not.mpr hHost)] at hEmpty
      split at hEmpty
      · exact absurd hEmpty hPlain.path.ne_nil
      · exact absurd hEmpty (mergePath_ne_nil _ _)
    · have hSame : resolveParts b r = r := if_pos hHost
      rw [hSame]
      exact rooted_toSplit hr hHost
  · exact .inr (by simp [ParseResult.toSplit, List.head?_append, hRoot.1])

/-- Behind a host there are no parameters without a path. -/
theorem params_of_path_nil (h : Rooted c.toSplit.path) (hPath : c.path = []) : c.params = [] := by
  by_contra hSome
  simp [ParseResult.toSplit, hPath, Url.marked, hSome, Rooted] at h

/-- The link resolved against the relative URL has the path and the query of the
link resolved against the full URL. -/
theorem urlparse_found (hWeb : site.Web py) (hPlain : page.Plain py site b)
    (hr : urlparse py.netlocCheck link site.scheme = some r) (hSame : r.scheme = site.scheme)
    (hLink : link ≠ []) (hDirect : Direct py link (resolveParts b r))
    (hFound : urljoin py.netlocCheck (urlunparse { b with scheme := [], netloc := [] }) link =
      some found) :
    ∃ info, urlparse py.netlocCheck found [] = some info ∧ info.path = (resolveParts b r).path ∧
      info.query = (resolveParts b r).query := by
  have hBase : urlunparse { b with scheme := [], netloc := [] } ≠ [] :=
    urlunparse_ne_nil hPlain.path.ne_nil
  have hLegible : r.Legible py.netlocCheck := legible_urlparse hr (hSame ▸ hWeb.usesParams)
  rcases urlparse_default py.netlocCheck link hWeb.cleanDefault hWeb.usesParams with
    ⟨hOwnParse, hOwn⟩ | ⟨hTaken, hNone⟩
  · -- a link with its scheme is stored as it is written
    rw [hOwnParse] at hr
    have hHost := hDirect.2 r hr (hOwn r hr)
    have hWhole : resolveParts b r = r := if_pos hHost
    rw [urljoin_of_scheme_ne hBase hLink hPlain.urlparse_relative hr (hOwn r hr),
      Option.some.injEq] at hFound
    exact ⟨r, hFound ▸ hr, by rw [hWhole], by rw [hWhole]⟩
  · obtain ⟨r₀, hr₀, rfl⟩ := Option.map_eq_some_iff.mp (hTaken ▸ hr)
    have hBare : r₀.scheme = [] := hNone r₀ hr₀
    have hNil : ([] : Str) ∈ usesRelative ∧ ([] : Str) ∈ usesNetloc ∧ ([] : Str) ∈ usesParams := by
      decide
    rw [urljoin_of_parse hBase hLink hPlain.urlparse_relative hr₀ hBare hNil.1 hNil.2.1,
      Option.some.injEq] at hFound
    refine ⟨{ resolveParts b { r₀ with scheme := site.scheme } with
      scheme := [], netloc := r₀.netloc }, ?_, rfl, rfl⟩
    rw [← hFound, resolveParts_withoutAuthority hBare site.scheme]
    apply urlparse_urlunparse ((legible_resolveParts hPlain.legible hLegible).withAuthority hLegible [])
    · exact rooted_resolveParts hPlain hr hDirect.1
    · exact .inl rfl
    · exact hNil.2.2

def bare (path : Str) : ParseResult where
  scheme := []
  netloc := []
  path := path
  params := []
  query := []
  fragment := []

theorem urlunparse_bare_eq (path : Str) : urlunparse (bare path) =
    if startsWith "//" path then "//" ++ path else path := urlunparse_path path

theorem urlunparse_bare {path : Str} (h : startsWith "//" path = false) :
    urlunparse (bare path) = path := by
  rw [urlunparse_bare_eq, h]
  rfl

/-- A path from the root is read as a path. -/
theorem urlparse_bare {path : Str} (hRoot : FromRoot path) (h : (bare path).Legible py.netlocCheck) :
    urlparse py.netlocCheck path [] = some (bare path) := by
  have hPath : (bare path).toSplit.path = path := by simp [ParseResult.toSplit, bare]
  have hNil : ([] : Str) ∈ usesParams := by decide
  have hParse : urlparse py.netlocCheck (urlunparse (bare path)) [] = some (bare path) :=
    urlparse_urlunparse h (by rw [hPath]; exact hRoot.rooted) (.inl rfl) hNil
  rwa [urlunparse_bare hRoot.2] at hParse

def Site.rejoined (site : Site) (path : Str) : Str :=
  if site.path = [] then path
  else if path = [] then site.path
  else urlunparse (bare (mergePath site.path path))

/-- Rejoining a path that is empty or from the root always succeeds. -/
theorem urljoin_rejoined (hWeb : site.Web py) {path : Str} (hPath : path = [] ∨ FromRoot path)
    (h : (bare path).Legible py.netlocCheck) :
    urljoin py.netlocCheck site.path path = some (site.rejoined path) := by
  unfold Site.rejoined
  by_cases hSite : site.path = []
  · simp [urljoin, hSite]
  · by_cases hEmpty : path = []
    · simp [urljoin, hSite, hEmpty]
    · have hRoot : FromRoot site.path := hWeb.path.resolve_left hSite
      have hBase : urlparse py.netlocCheck site.path [] = some (bare site.path) :=
        urlparse_bare hRoot hWeb.legible.withoutAuthority
      have hUrl : urlparse py.netlocCheck path [] = some (bare path) :=
        urlparse_bare (hPath.resolve_left hEmpty) h
      have hNil : ([] : Str) ∈ usesRelative ∧ ([] : Str) ∈ usesNetloc := by decide
      have hParts : resolveParts (bare site.path) (bare path) = bare (mergePath site.path path) := by
        simp [resolveParts, bare, hEmpty]
      rw [if_neg hSite, if_neg hEmpty,
        urljoin_of_parse hSite hEmpty hBase hUrl rfl hNil.1 hNil.2, hParts]

/-- The path of a legible URL is legible by itself. -/
theorem bare_legible (h : c.Legible py.netlocCheck) : (bare c.path).Legible py.netlocCheck := by
  have hSubset : (bare c.path).toSplit.path ⊆ c.toSplit.path := by
    simp [ParseResult.toSplit, bare]
  refine ⟨?_, by simp [bare], h.pathParams⟩
  exact { h.withoutAuthority.split with
    pathQuery := fun hMem => h.split.pathQuery (hSubset hMem)
    pathFragment := fun hMem => h.split.pathFragment (hSubset hMem)
    pathClean := h.split.pathClean.subset hSubset
    queryFragment := by simp [ParseResult.toSplit, bare]
    queryClean := clean_nil
    fragmentClean := clean_nil }

/-- The path and the query alone can be read again too. -/
theorem stored_legible (h : c.Legible py.netlocCheck) :
    ({ bare c.path with query := c.query } : ParseResult).Legible py.netlocCheck where
  split := { (bare_legible h).split with
    queryFragment := h.split.queryFragment
    queryClean := h.split.queryClean }
  paramsSlash := (bare_legible h).paramsSlash
  pathParams := h.pathParams

/-- What is put behind a path from the root leaves its beginning as it is. -/
theorem fromRoot_append {path : Str} (h : FromRoot path) {rest : Str} (hRest : rest.head? ≠ some '/') :
    startsWith "//" (path ++ rest) = false := by
  obtain ⟨hHead, hOne⟩ := h
  rcases path with _ | ⟨d, path⟩
  · cases hHead
  · obtain rfl : d = '/' := by simpa using hHead
    rcases path with _ | ⟨e, path⟩
    · rcases rest with _ | ⟨f, rest⟩
      · decide
      · have hNe : f ≠ '/' := by simpa using hRest
        simp [startsWith, List.isPrefixOf, hNe.symm]
    · have hNe : e ≠ '/' := by
        rintro rfl
        simp [startsWith, List.isPrefixOf] at hOne
      simp [startsWith, List.isPrefixOf, hNe.symm]

/-- Joining to the path of the site gives the path with its parameters exactly
when there are none, and no segment of dots that the join removes. -/
theorem slashed_rejoined_iff {path params : Str} (hSite : site.path ≠ []) (hPath : FromRoot path)
    (hSegment : ';' ∉ lastSegment path) (hParams : '/' ∉ params) :
    slashed (site.rejoined path) = path ++ Url.marked ';' params ↔ params = [] ∧ Undotted path := by
  rw [Site.rejoined, if_neg hSite, if_neg hPath.ne_nil, urlunparse_bare_eq]
  constructor
  · intro hEq
    have hOne : startsWith "//" (path ++ Url.marked ';' params) = false :=
      fromRoot_append hPath (marked_head_ne ';' (by decide) params)
    by_cases hTwo : startsWith "//" (mergePath site.path path) = true
    · rw [if_pos hTwo] at hEq
      rw [← hEq] at hOne
      simp [slashed, startsWith, List.isPrefixOf] at hOne
    · rw [if_neg hTwo] at hEq
      have hNone : params = [] := by
        by_contra hSome
        have hSlash : '/' ∉ ';' :: params := by simpa using hParams
        have hMark : path ++ Url.marked ';' params = path ++ ';' :: params := by
          simp [Url.marked, hSome]
        have hMem : ';' ∈ lastSegment (slashed (mergePath site.path path)) := by
          rw [hEq, hMark, lastSegment_append hSlash]
          simp
        rw [lastSegment_slashed] at hMem
        exact hSegment (lastSegment_mergePath_subset _ _ hMem)
      refine ⟨hNone, ?_⟩
      have hWhole : slashed (mergePath site.path path) = path := by simpa [hNone] using hEq
      rw [← hWhole]
      exact undotted_slashed (undotted_mergePath _ _)
  · rintro ⟨rfl, hUndotted⟩
    have hOne : ¬ startsWith "//" path = true := by
      rw [hPath.2]
      simp
    rw [mergePath_of_undotted hPath.1 hUndotted, if_neg hOne, slashed_of_rooted hPath.rooted]
    simp

/-- The rejoined path locates what the link resolved to exactly when there are no
parameters and the path survives rejoining. -/
theorem located_rejoined_iff (hWeb : site.path = [] ∨ FromRoot site.path)
    (hPath : (c.path = [] ∧ c.params = []) ∨ FromRoot c.path) (hSegment : ';' ∉ lastSegment c.path)
    (hParams : '/' ∉ c.params) :
    located (slashed (site.rejoined c.path)) = located c.toSplit.path ↔
      c.params = [] ∧ site.Rejoins c.path := by
  rcases hPath with ⟨hEmpty, hNone⟩ | hRoot
  · have hRejoined : site.rejoined [] = site.path := by
      unfold Site.rejoined
      split
      · next hNil => exact hNil.symm
      · rfl
    have hSlashed : slashed site.path = site.path := by
      rcases hWeb with hNil | hRoot
      · rw [hNil]; rfl
      · exact slashed_of_rooted hRoot.rooted
    simp only [hEmpty, hRejoined, hSlashed, located, ParseResult.toSplit, hNone, Site.Rejoins]
    by_cases hNil : site.path = []
    · simp [hNil]
    · simp [hNil]
  · have hTarget : located c.toSplit.path = c.path ++ Url.marked ';' c.params := by
      simp [located, ParseResult.toSplit, hRoot.ne_nil]
    rw [hTarget]
    by_cases hNil : site.path = []
    · have hRejoined : site.rejoined c.path = c.path := by simp [Site.rejoined, hNil]
      rw [hRejoined, slashed_of_rooted hRoot.rooted, located, if_neg hRoot.ne_nil]
      simp [Site.Rejoins, hNil, Url.marked]
    · have hSome : slashed (site.rejoined c.path) ≠ [] := by
        rw [Site.rejoined, if_neg hNil, if_neg hRoot.ne_nil]
        exact slashed_ne_nil (urlunparse_ne_nil (mergePath_ne_nil _ _))
      rw [located, if_neg hSome, slashed_rejoined_iff hNil hRoot hSegment hParams]
      simp [Site.Rejoins, hNil, hRoot.ne_nil]

theorem pathChar_rejoined (hWeb : site.Web py) {path : Str} (h : ∀ d ∈ path, pathChar d = true) :
    ∀ d ∈ site.rejoined path, pathChar d = true := by
  have hSite : ∀ d ∈ site.path, pathChar d = true :=
    fun d hd => hWeb.legible.pathChars d (List.mem_append_left _ hd)
  unfold Site.rejoined
  split
  · exact h
  · split
    · exact hSite
    · rw [urlunparse_bare_eq]
      split
      · intro d hd
        rcases List.mem_append.mp hd with hd | hd
        · obtain rfl : d = '/' := by simpa using hd
          decide
        · exact pathChar_mergePath hSite h d hd
      · exact pathChar_mergePath hSite h

/-- The URL that the link resolves to. -/
theorem locate_target (hWeb : site.Web py) (hScheme : c.scheme = site.scheme)
    (hNetloc : c.netloc = site.netloc) (hLegible : c.Legible py.netlocCheck)
    (hRooted : Rooted c.toSplit.path) : locate py (urlunparse c) =
      some { scheme := site.scheme, netloc := site.netloc, path := located c.toSplit.path,
             query := c.query, fragment := [] } := by
  have hText : c.toSplit.scheme = [] ∨ SchemeText c.toSplit.scheme := by
    rw [ParseResult.toSplit, hScheme]
    exact .inr hWeb.schemeText
  rw [locate, urlunparse_eq, urlsplit_urlunsplit hLegible.split hRooted hText, Option.map_some,
    ← hScheme, ← hNetloc]
  rfl

/-- The URL of a row whose path is joined to that of the site, on a legible host. -/
theorem locate_joined {w : SplitResult} (hScheme : SchemeText site.scheme) (hHost : site.netloc ≠ [])
    (hLegible : w.Legible py.netlocCheck) (hNetloc : w.netloc = site.netloc) {joined : Str}
    (hJoin : urljoin py.netlocCheck site.path row.subpath = some joined)
    (hChars : ∀ d ∈ joined, pathChar d = true) (hFragment : '#' ∉ row.params) (hClean : Clean row.params) :
    ∃ url, row.getFullUrl py site = .ok url ∧ locate py url =
      some { scheme := site.scheme, netloc := site.netloc, path := located (slashed joined),
             query := row.params, fragment := [] } := by
  let whole : SplitResult := { scheme := site.scheme, netloc := site.netloc, path := slashed joined,
                               query := row.params, fragment := [] }
  have hUrl : row.getFullUrl py site = .ok (urlunsplit whole) := by
    have hAuthority : Authoritative site.scheme site.netloc := .inl hHost
    have hSlashed : locator site.scheme site.netloc (slashed joined) =
        locator site.scheme site.netloc joined := by
      rw [locator_of_authoritative hAuthority, locator_of_authoritative hAuthority,
        slashed_of_rooted (rooted_slashed _)]
    simp [Page.getFullUrl, hJoin, urlunparse, urlunsplit, whole, hSlashed]
  obtain ⟨hQuery, hHash, hText⟩ := legible_path (pathChar_slashed hChars)
  obtain ⟨hChars', hClean', hAllowed⟩ : (∀ d ∈ site.netloc, netlocChar d = true) ∧ Clean site.netloc ∧
      py.netlocCheck.allows site.netloc = true := by
    rw [← hNetloc]
    exact ⟨hLegible.netlocChars, hLegible.netlocClean, hLegible.allowed⟩
  have hRead : urlsplit py.netlocCheck (urlunsplit whole) [] = some whole := by
    apply urlsplit_urlunsplit ?_ (rooted_slashed _) (.inr hScheme)
    exact {
      netlocChars := hChars'
      netlocClean := hClean'
      allowed := hAllowed
      pathQuery := hQuery
      pathFragment := hHash
      pathClean := hText
      queryFragment := hFragment
      queryClean := hClean
      fragmentClean := clean_nil }
  exact ⟨urlunsplit whole, hUrl, by rw [locate, hRead]; rfl⟩

/-- The URL of a row with a given path and query. -/
theorem locate_row (hWeb : site.Web py) (hLegible : c.Legible py.netlocCheck)
    (hPath : c.path = [] ∨ FromRoot c.path) (hSubpath : row.subpath = c.path)
    (hParams : row.params = c.query) :
    ∃ url, row.getFullUrl py site = .ok url ∧ locate py url =
      some { scheme := site.scheme, netloc := site.netloc,
             path := located (slashed (site.rejoined c.path)), query := c.query,
             fragment := [] } := by
  have hJoin := urljoin_rejoined hWeb hPath (bare_legible hLegible)
  have hChars : ∀ d ∈ c.path, pathChar d = true :=
    fun d hd => hLegible.pathChars d (List.mem_append_left _ hd)
  rw [← hSubpath] at hJoin hChars ⊢
  rw [← hParams]
  exact locate_joined hWeb.schemeText hWeb.host hWeb.legible.split rfl hJoin (pathChar_rejoined hWeb hChars)
    (hParams ▸ hLegible.split.queryFragment) (hParams ▸ hLegible.split.queryClean)

/-- A local target is on the host of the site. -/
theorem netloc_of_local (hWeb : site.Web py) (hPlain : page.Plain py site b)
    (hParse : urlparse py.netlocCheck (urlunparse (resolveParts b r)) [] = some (resolveParts b r))
    (hLocal : site.isLocal py (urlunparse (resolveParts b r)) = .ok true) :
    (resolveParts b r).netloc = site.netloc := by
  have hSome : (resolveParts b r).netloc ≠ [] := by
    have hHost : b.netloc ≠ [] := (location_fields hPlain.located).2.1 ▸ hWeb.host
    unfold resolveParts
    split
    · next hOwn => exact hOwn
    · split <;> exact hHost
  by_contra hOther
  simp only [Site.isLocal, hParse, orValueError_some, ok_bind] at hLocal
  split at hLocal
  · cases hLocal
  · rw [if_pos ⟨hSome, hOther⟩] at hLocal
    cases hLocal

/-- The row that is found or created for an accepted link is fetched from the URL
that was tested exactly when that URL carries no path parameters and its path is
the one that rejoining gives. -/
theorem fetches_iff (py : Platform) (site : Site) (page row : Page) (b c : ParseResult)
    (robots : RobotFileParser) (link found : Str) (stamp : Nat → Time) (created : Bool)
    (db db' : Database) (h : db.Consistent) (hSite : site ∈ db.sites) (hWeb : site.Web py)
    (hPlain : page.Plain py site b)
    (hYields : page.validLink py site robots link = .ok (some found))
    (hAdd : (site.addPage py stamp found).run db = (.ok (row, created), db'))
    (hPoints : page.points py site link = some c) (hDirect : Direct py link c) :
    Fetches py site page link row ↔ c.params = [] ∧ site.Rejoins c.path := by
  obtain ⟨target, hLeads, -, relative, hRelative, hFound⟩ := validLink_eq_some.mp hYields
  obtain ⟨r, hr, hSame, hLink, rfl⟩ := points_of_leads hWeb hPlain hLeads
  obtain rfl : resolveParts b r = c := by simpa [Page.points, hPlain.located, hr] using hPoints
  obtain rfl := Except.ok.inj ((getRelativeUrl_of_location hPlain.located).symm.trans hRelative)
  have hLegible : (resolveParts b r).Legible py.netlocCheck :=
    legible_resolveParts hPlain.legible (legible_urlparse hr (hSame ▸ hWeb.usesParams))
  have hRooted := rooted_resolveParts hPlain hr hDirect.1
  have hScheme : (resolveParts b r).scheme = site.scheme := resolveParts_scheme.trans hSame
  have hParse : urlparse py.netlocCheck (urlunparse (resolveParts b r)) [] = some (resolveParts b r) :=
    urlparse_urlunparse hLegible hRooted (.inr (hScheme ▸ hWeb.schemeText)) (hScheme ▸ hWeb.usesParams)
  have hNetloc := netloc_of_local hWeb hPlain hParse hLeads.2.2
  obtain ⟨info, hInfo, hPath, hQuery⟩ := urlparse_found hWeb hPlain hr hSame hLink hDirect hFound
  obtain ⟨-, info', hInfo', hRow⟩ := addPage_ok h hSite hAdd
  obtain rfl := Option.some.inj (hInfo.symm.trans hInfo')
  obtain ⟨-, hRowPath⟩ := Database.mem_of_pageAt hRow
  obtain ⟨-, hSubpath, hParams⟩ := by simpa [Page.fullPath] using hRowPath
  obtain ⟨url, hUrl, hPlace⟩ := locate_row hWeb hLegible hDirect.1 (hSubpath.trans hPath)
    (hParams.trans hQuery)
  have hTarget := locate_target hWeb hScheme hNetloc hLegible hRooted
  have hCases : ((resolveParts b r).path = [] ∧ (resolveParts b r).params = []) ∨
      FromRoot (resolveParts b r).path :=
    hDirect.1.imp_left fun hEmpty => ⟨hEmpty, params_of_path_nil hRooted hEmpty⟩
  rw [← located_rejoined_iff hWeb.path hCases hLegible.pathParams hLegible.paramsSlash]
  constructor
  · rintro ⟨target, url', place, hResolve, hUrl', hLocate, hLocate'⟩
    obtain rfl := Except.ok.inj (hLeads.1.symm.trans hResolve)
    obtain rfl := Except.ok.inj (hUrl.symm.trans hUrl')
    have hEq := hPlace.symm.trans (hLocate'.trans (hLocate.symm.trans hTarget))
    simpa using hEq
  · intro hEq
    exact ⟨_, url, _, hLeads.1, hUrl, hTarget, hPlace.trans (by rw [hEq])⟩

/-- The site that is created for a URL of the web. -/
theorem web_of_urlparse {url name : Str} {info : ParseResult} {pk : Nat} {now : Time}
    (h : urlparse py.netlocCheck url [] = some info)
    (hScheme : info.scheme = "http".toList ∨ info.scheme = "https".toList) (hHost : info.netloc ≠ [])
    (hPath : info.path = [] ∨ FromRoot info.path) :
    ({ Site.new name info with idSite := pk, createdAt := now } : Site).Web py where
  scheme := hScheme
  host := hHost
  path := hPath
  legible := by
    have hUses : info.scheme ∈ usesParams := by
      rcases hScheme with hScheme | hScheme <;> rw [hScheme] <;> decide
    have hLegible := legible_urlparse h hUses
    exact (bare_legible hLegible).withAuthority hLegible info.scheme

theorem seedSite_web : seedSite.Web (.scripted []) := by
  have hInfo : urlparse (Platform.scripted []).netlocCheck "http://h/" [] =
      some { scheme := "http", netloc := "h", path := "/", params := [], query := [],
             fragment := [] } := by rfl
  exact web_of_urlparse hInfo (.inl rfl) (by decide) (by decide)

theorem seedPage_plain : seedPage.Plain (.scripted []) seedSite
    { scheme := "http", netloc := "h", path := "/", params := [], query := [], fragment := [] } where
  located := by rfl
  legible := seedSite_web.legible
  path := by decide

/-- A relative link of the seed page is fetched from the URL that was tested. -/
theorem fetches_relative : Fetches (.scripted []) seedSite seedPage "a.html"
    { Page.new 1 "/a.html" [] with idPage := 2, createdAt := 2 } := by
  refine (fetches_iff _ seedSite seedPage _ _
    { scheme := "http", netloc := "h", path := "/a.html", params := [], query := [], fragment := [] }
    .missing "a.html" "/a.html" (fun pk => pk) true .seeded _ Database.consistent_seeded (by decide)
    seedSite_web seedPage_plain (by rfl) (by rfl) (by rfl) ⟨by decide, ?_⟩).mpr ⟨rfl, by decide, ?_⟩
  · intro r hr hScheme
    obtain rfl := Option.some.inj hr
    exact absurd rfl hScheme
  · exact fun _ => .inr (by decide)

/-- The parameters of a path are tested and not fetched. -/
theorem not_fetches_params :
    seedPage.validLink (.scripted []) seedSite .missing "a;v=1" = .ok (some "/a;v=1".toList) ∧
    ∃ row created db', (seedSite.addPage (.scripted []) (fun pk => pk) "/a;v=1").run .seeded =
      (.ok (row, created), db') ∧ ¬ Fetches (.scripted []) seedSite seedPage "a;v=1" row := by
  refine ⟨by rfl, { Page.new 1 "/a" [] with idPage := 2, createdAt := 2 }, true, _, by rfl, ?_⟩
  rintro ⟨target, url, place, hResolve, hUrl, hTarget, hPlace⟩
  obtain rfl : target = "http://h/a;v=1".toList := Except.ok.inj hResolve.symm
  obtain rfl : url = "http://h/a".toList := Except.ok.inj hUrl.symm
  have hSame : locate (.scripted []) "http://h/a;v=1" = locate (.scripted []) "http://h/a" :=
    hTarget.trans hPlace.symm
  exact absurd hSame (by decide)

end Spidercheck
