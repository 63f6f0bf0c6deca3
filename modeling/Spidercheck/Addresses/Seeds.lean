import Spidercheck.Addresses.Fetched
import Spidercheck.Sites.Seeding

/-! The seed page. `init_site` keeps the path of the seed URL without its parameters,
and not its query; the page is fetched from that path joined to itself. -/
namespace Spidercheck

open Text Url Execution Relational

variable {py : Platform} {input : Input} {db : Database} {site : Site} {page : Page} {url name : Str}
  {split : SplitResult} {info : ParseResult}

/-- The page is the only one of the site, and it is unchecked, fetched from the URL
and checked next, whatever the draw. -/
structure SeededFrom (py : Platform) (url : Str) (db : Database) (site : Site) (page : Page) : Prop where
  only : db.pagesOf site = [page]
  unchecked : page.isChecked = false
  fetched : ∃ full, page.getFullUrl py site = .ok full ∧ locate py full = locate py url
  next : ∀ now draw, site.nextPageToCheck db now draw = some page

/-- `init_site` returns a site with such a page. -/
def Seeds (py : Platform) (input : Input) (url name : Str) (db : Database) : Prop :=
  ∃ site db' page, (initSite py input url name).run db = (.ok site, db') ∧ SeededFrom py url db' site page

/-- An unchecked page that is alone on its site is the next one. -/
theorem nextPageToCheck_alone {now : Time} {draw : ℚ} (hOnly : db.pagesOf site = [page])
    (hUnchecked : page.isChecked = false) (hScheduled : site.allScheduledPages db = []) :
    site.nextPageToCheck db now draw = some page := by
  have hDue : site.firstDue db now = none := by
    rw [Site.firstDue, hScheduled]
    rfl
  have hErrors : site.pagesWithErrors db = [] := by simp [Site.pagesWithErrors, hOnly, hUnchecked]
  have hQueue : site.unchecked db = [page] := by simp [Site.unchecked, hOnly, hUnchecked]
  have hFirst : site.firstQueuedPage db = some page := by
    rw [Site.firstQueuedPage, hQueue]
    rfl
  simp [Site.nextPageToCheck, hDue, hErrors, Site.allQueuedPages, hQueue, hFirst]

/-- The seed page is not scheduled. -/
theorem allScheduledPages_seeding (hDb : db.Consistent) {stamp : Nat → Time}
    (hKey : site.idSite = db.nextSite) : site.allScheduledPages (db.seeding stamp site) = [] := by
  apply List.filterMap_eq_nil_iff.mpr
  intro s hs
  cases hPage : (db.seeding stamp site).pageById s.page with
  | none => rfl
  | some p =>
      obtain ⟨hMem, hPk⟩ := mem_of_lookup hPage
      by_cases hSite : p.site = site.idSite
      · have hOnly : p ∈ (db.seeding stamp site).pagesOf site := List.mem_filter.mpr ⟨hMem, by simpa using hSite⟩
        rw [pagesOf_seeding hDb hKey, List.mem_singleton] at hOnly
        obtain ⟨q, hq, hQ⟩ := hDb.scheduledPages s hs
        have hFresh := hDb.pagesFresh q hq
        have hNext : s.page = db.nextPage := by
          rw [← hPk, hOnly]
          rfl
        omega
      · simp [hSite]

/-- What `urlparse` takes for the path is the whole of it, up to its parameters. -/
theorem path_eq_iff (hSplit : urlsplit py.netlocCheck url [] = some split)
    (hInfo : urlparse py.netlocCheck url [] = some info) (hUses : info.scheme ∈ usesParams) :
    info.path = split.path ↔ ';' ∉ lastSegment split.path := by
  constructor
  · intro hSame
    rw [← hSame]
    exact (legible_urlparse hInfo hUses).pathParams
  · intro hSegment
    obtain ⟨split', hSplit', -, -, -, -, hPath⟩ := urlparse_eq_some hInfo
    obtain rfl := Option.some.inj (hSplit.symm.trans hSplit')
    rw [splitParams_of_notMem hSegment, ite_self] at hPath
    exact congrArg Prod.fst hPath

/-- Behind a host both paths may be read again. -/
theorem pathText_of_split (hSplit : urlsplit py.netlocCheck url [] = some split)
    (hInfo : urlparse py.netlocCheck url [] = some info) (hHost : split.netloc ≠ []) :
    PathText split.path ∧ PathText info.path := by
  have hLegible := legible_urlsplit hSplit
  have hText : PathText split.path := by
    refine ⟨rooted_urlsplit hSplit hHost, fun c hc => ?_⟩
    have hQuery : c ≠ '?' := fun hEq => hLegible.pathQuery (hEq ▸ hc)
    have hFragment : c ≠ '#' := fun hEq => hLegible.pathFragment (hEq ▸ hc)
    simp [pathChar, hQuery, hFragment, hLegible.pathClean c hc]
  obtain ⟨split', hSplit', -, -, -, -, hPath⟩ := urlparse_eq_some hInfo
  obtain rfl := Option.some.inj (hSplit.symm.trans hSplit')
  obtain ⟨rest, hRest⟩ := (List.prefix_append _ _).trans (urlparse_path_isPrefix hPath)
  refine ⟨hText, ?_, fun c hc => hText.2 c (hRest ▸ List.mem_append_left _ hc)⟩
  rcases hFront : info.path with _ | ⟨d, more⟩
  · exact rooted_nil
  · rw [hFront] at hRest
    have hRoot : Rooted (d :: more ++ rest) := hRest ▸ hText.1
    exact .inr (by simpa [Rooted] using hRoot)

theorem located_eq_iff {path other : Str} (hSome : path ≠ []) (hOther : other = [] → path ≠ ['/']) :
    located other = located path ↔ other = path := by
  rw [located, located, if_neg hSome]
  split
  · next hEmpty => exact iff_of_false (fun hEq => hOther hEmpty hEq.symm) fun hEq => hSome (hEq ▸ hEmpty)
  · exact Iff.rfl

/-- Joined to itself, the stored path locates the path of the seed exactly when it is
the whole of that path, and a steady one. -/
theorem located_selfJoined_iff {path stored : Str} (hPath : PathText path) (hStored : PathText stored)
    (hSame : stored = path ↔ ';' ∉ lastSegment path) (hSegment : ';' ∉ lastSegment stored) :
    located (slashed (selfJoined stored)) = located path ↔ ';' ∉ lastSegment path ∧ Steady path := by
  by_cases hLast : ';' ∈ lastSegment path
  · refine iff_of_false (fun hEq => ?_) fun h => h.1 hLast
    have hSome : path ≠ [] := by
      rintro rfl
      cases hLast
    rw [located, located, if_neg hSome] at hEq
    have hMem : ';' ∈ lastSegment (selfJoined stored) := by
      rw [← hEq] at hLast
      split at hLast
      · cases hLast
      · rwa [lastSegment_slashed] at hLast
    exact hSegment (lastSegment_selfJoined hStored hMem)
  · obtain rfl := hSame.mpr hLast
    rw [and_iff_right hLast]
    by_cases hEmpty : stored = []
    · subst hEmpty
      exact iff_of_true (by rfl) (by decide)
    · rw [← slashed_selfJoined_iff hStored hEmpty]
      apply located_eq_iff hEmpty
      rintro hNone rfl
      cases hNone

def SeedFits (name netloc path : Str) : Prop :=
  storable 32 name = true ∧ storable 128 netloc = true ∧ storable 280 path = true

/-- For a URL of the web only the name, the host and the path can be too wide. -/
theorem newSite_fits_iff (hScheme : info.scheme = "http".toList ∨ info.scheme = "https".toList) {now : Time} :
    (db.newSite now name info).fits = true ↔ SeedFits name info.netloc info.path := by
  have hWidth : storable 8 info.scheme = true := by
    rcases hScheme with hScheme | hScheme <;> rw [hScheme] <;> decide
  simp [Database.newSite, Site.new, Site.fits, hWidth, SeedFits, and_assoc]

/-- With a free name and a free address only a value that does not fit is rejected. -/
theorem siteViolation_newSite (hName : ∀ s ∈ db.sites, s.name ≠ name)
    (hAddress : ∀ s ∈ db.sites, s.uniqueUrl ≠ (info.scheme, info.netloc, info.path)) {now : Time} :
    db.siteViolation (db.newSite now name info) = none ↔ (db.newSite now name info).fits = true := by
  rw [Database.siteViolation_eq_none]
  exact and_iff_left ⟨hName, hAddress⟩

theorem siteByName_eq_none (hName : ∀ s ∈ db.sites, s.name ≠ name) : db.siteByName name = none := by
  apply List.find?_eq_none.mpr
  intro s hs
  simpa using hName s hs

/-- The URL of the seed page, read again. -/
theorem fetched_iff (hSplit : urlsplit py.netlocCheck url [] = some split)
    (hInfo : urlparse py.netlocCheck url [] = some info)
    (hScheme : split.scheme = "http".toList ∨ split.scheme = "https".toList) (hHost : split.netloc ≠ [])
    (hSite : site.scheme = info.scheme ∧ site.netloc = info.netloc ∧ site.path = info.path)
    (hPage : page.subpath = info.path ∧ page.params = []) :
    (∃ full, page.getFullUrl py site = .ok full ∧ locate py full = locate py url) ↔
      split.query = [] ∧ ';' ∉ lastSegment split.path ∧
        py.netlocCheck.allows (splitNetloc split.path).1 = true ∧ Steady split.path := by
  obtain ⟨split', hSplit', hInfoScheme, hInfoNetloc, -⟩ := urlparse_eq_some hInfo
  obtain rfl := Option.some.inj (hSplit.symm.trans hSplit')
  obtain ⟨hSiteScheme, hSiteNetloc, hSitePath⟩ := hSite
  rw [hInfoScheme] at hSiteScheme
  rw [hInfoNetloc] at hSiteNetloc
  have hUses : info.scheme ∈ usesParams := by
    rw [hInfoScheme]
    rcases hScheme with hWeb | hWeb <;> rw [hWeb] <;> decide
  have hSegment : ';' ∉ lastSegment info.path := (legible_urlparse hInfo hUses).pathParams
  have hSame := path_eq_iff hSplit hInfo hUses
  obtain ⟨hText, hStored⟩ := pathText_of_split hSplit hInfo hHost
  have hTarget : locate py url = some { split with path := located split.path, fragment := [] } := by
    rw [locate, hSplit]
    rfl
  have hJoin : urljoin py.netlocCheck site.path page.subpath =
      if py.netlocCheck.allows (splitNetloc info.path).1 = true then some (selfJoined info.path) else none := by
    rw [hSitePath, hPage.1]
    exact urljoin_self hStored hSegment
  by_cases hAllowed : py.netlocCheck.allows (splitNetloc info.path).1 = true
  · rw [if_pos hAllowed] at hJoin
    have hPlace := locate_joined (hSiteScheme ▸ schemeText_web hScheme) (hSiteNetloc ▸ hHost)
      (legible_urlsplit hSplit) hSiteNetloc.symm hJoin (pathChar_selfJoined hStored)
      (by simp [hPage.2]) (by rw [hPage.2]; exact clean_nil)
    obtain ⟨full, hFull, hPlace⟩ := hPlace
    rw [hPage.2, hSiteScheme, hSiteNetloc] at hPlace
    have hPaths := located_selfJoined_iff hText hStored hSame hSegment
    constructor
    · rintro ⟨full', hFull', hEq⟩
      obtain rfl := Except.ok.inj (hFull.symm.trans hFull')
      rw [hPlace, hTarget, Option.some.injEq, SplitResult.mk.injEq] at hEq
      obtain ⟨-, -, hPath, hQuery, -⟩ := hEq
      obtain ⟨hLast, hSteady⟩ := hPaths.mp hPath
      exact ⟨hQuery.symm, hLast, hSame.mpr hLast ▸ hAllowed, hSteady⟩
    · rintro ⟨hQuery, hLast, -, hSteady⟩
      refine ⟨full, hFull, ?_⟩
      rw [hPlace, hTarget, hPaths.mpr ⟨hLast, hSteady⟩, hQuery]
  · rw [if_neg hAllowed] at hJoin
    refine iff_of_false ?_ ?_
    · rintro ⟨full, hFull, -⟩
      simp [Page.getFullUrl, hJoin, orValueError] at hFull
    · rintro ⟨-, hLast, hAllows, -⟩
      exact hAllowed (hSame.mpr hLast ▸ hAllows)

/-- A seed whose name and address are free becomes the one page of its site, to be
fetched from that URL, exactly when the columns can hold it and the URL has no query,
no path parameters, and a path that resolving it against itself does not change. -/
theorem seeds_iff (py : Platform) (input : Input) (url name : Str) (db : Database) (split : SplitResult)
    (info : ParseResult) (hDb : db.Consistent) (hSplit : urlsplit py.netlocCheck url [] = some split)
    (hInfo : urlparse py.netlocCheck url [] = some info)
    (hScheme : split.scheme = "http".toList ∨ split.scheme = "https".toList) (hHost : split.netloc ≠ [])
    (hName : ∀ s ∈ db.sites, s.name ≠ name)
    (hAddress : ∀ s ∈ db.sites, s.uniqueUrl ≠ (info.scheme, info.netloc, info.path)) :
    Seeds py input url name db ↔
      SeedFits name split.netloc split.path ∧ split.query = [] ∧ ';' ∉ lastSegment split.path ∧
        py.netlocCheck.allows (splitNetloc split.path).1 = true ∧ Steady split.path := by
  obtain ⟨split', hSplit', hInfoScheme, hInfoNetloc, -⟩ := urlparse_eq_some hInfo
  obtain rfl := Option.some.inj (hSplit.symm.trans hSplit')
  have hUses : info.scheme ∈ usesParams := by
    rw [hInfoScheme]
    rcases hScheme with hWeb | hWeb <;> rw [hWeb] <;> decide
  let site := db.newSite input.justNow name info
  let page := db.seedOf input.stamp site
  have hFetched : (∃ full, page.getFullUrl py site = .ok full ∧ locate py full = locate py url) ↔ _ :=
    fetched_iff hSplit hInfo hScheme hHost ⟨rfl, rfl, rfl⟩ ⟨rfl, rfl⟩
  have hFits : site.fits = true ↔ SeedFits name info.netloc info.path :=
    newSite_fits_iff (hInfoScheme ▸ hScheme)
  have hViolation : db.siteViolation site = none ↔ site.fits = true := siteViolation_newSite hName hAddress
  have hFree := siteByName_eq_none hName
  constructor
  · rintro ⟨site', db', page', hRun, hSeeded⟩
    obtain ⟨info', hInfo', hNone, rfl, rfl⟩ := initSite_returns hDb hRun
    obtain rfl := Option.some.inj (hInfo.symm.trans hInfo')
    obtain rfl : page = page' := by
      have hOnly := (pagesOf_seeding hDb (by rfl)).symm.trans hSeeded.only
      exact List.singleton_inj.mp hOnly
    obtain ⟨hQuery, hLast, hAllowed, hSteady⟩ := hFetched.mp hSeeded.fetched
    have hSame := (path_eq_iff hSplit hInfo hUses).mpr hLast
    refine ⟨?_, hQuery, hLast, hAllowed, hSteady⟩
    rw [← hInfoNetloc, ← hSame]
    exact hFits.mp (hViolation.mp hNone)
  · rintro ⟨hSeedFits, hQuery, hLast, hAllowed, hSteady⟩
    have hSame := (path_eq_iff hSplit hInfo hUses).mpr hLast
    rw [← hInfoNetloc, ← hSame] at hSeedFits
    have hNone : db.siteViolation site = none := hViolation.mpr (hFits.mpr hSeedFits)
    refine ⟨site, _, page, run_initSite hDb hFree hInfo hNone, ?_⟩
    exact {
      only := pagesOf_seeding hDb rfl
      unchecked := rfl
      fetched := hFetched.mpr ⟨hQuery, hLast, hAllowed, hSteady⟩
      next := fun _ _ => nextPageToCheck_alone (pagesOf_seeding hDb rfl) rfl
        (allScheduledPages_seeding hDb rfl) }

/-- A seed below the root of its host. -/
theorem seeds_subtree :
    Seeds (.scripted []) (.scripted (.raised dataError)) "https://h/a/b" "s" .empty := by
  have hSplit : urlsplit (Platform.scripted []).netlocCheck "https://h/a/b" [] =
      some { scheme := "https", netloc := "h", path := "/a/b", query := [], fragment := [] } := by rfl
  have hInfo : urlparse (Platform.scripted []).netlocCheck "https://h/a/b" [] =
      some { scheme := "https", netloc := "h", path := "/a/b", params := [], query := [], fragment := [] } := by
    rfl
  have hNone (P : Site → Prop) : ∀ s ∈ Database.empty.sites, P s := by
    intro s hs
    cases hs
  refine (seeds_iff (.scripted []) (.scripted (.raised dataError)) "https://h/a/b" "s" .empty _ _
    Database.consistent_empty hSplit hInfo (.inr rfl) (by decide) (hNone _) (hNone _)).mpr ?_
  exact ⟨⟨by decide, by decide, by decide⟩, rfl, by decide, by decide, by decide⟩

/-- The query of a seed is lost. -/
theorem not_seeds_query :
    ¬ Seeds (.scripted []) (.scripted (.raised dataError)) "http://h/?q=1" "s" .empty := by
  rintro ⟨site, db', page, hRun, hSeeded⟩
  have hSeed : (initSite (.scripted []) (.scripted (.raised dataError)) "http://h/?q=1" "s").run .empty =
      (.ok seedSite, .seeded) := by rfl
  rw [hSeed] at hRun
  obtain ⟨hSite, rfl⟩ := Prod.mk.inj hRun
  obtain rfl : seedSite = site := Except.ok.inj hSite
  obtain rfl : seedPage = page := List.singleton_inj.mp hSeeded.only
  obtain ⟨full, hFull, hPlace⟩ := hSeeded.fetched
  obtain rfl : "http://h/".toList = full := Except.ok.inj hFull
  exact absurd hPlace (by decide)

end Spidercheck
