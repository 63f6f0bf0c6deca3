import Spidercheck.Addresses.Fetched
import Spidercheck.Addresses.Identity
import Spidercheck.Sites.Seeding

/-! The scope of a crawl. The test for local links compares the scheme and the
host only, so the pages of a site are below its seed as long as the links that
are followed lead there. -/
namespace Spidercheck

open Text Url Robots Execution

variable {py : Platform} {input : Input} {db : Database} {op : Operation} {site : Site} {page : Page}
  {link found : Str}

def Site.Directory (site : Site) : Prop := site.path.getLast? = some '/'

instance : DecidablePred Site.Directory :=
  fun site => inferInstanceAs (Decidable (site.path.getLast? = some '/'))

/-- No path, which stands for that of the seed, or one below it that is written without detours. -/
def Site.Below (site : Site) (path : Str) : Prop :=
  path = [] ∨ FromRoot path ∧ Undotted path ∧ site.path <+: path

/-- The URL that the link resolves to is below the seed. -/
def Page.Descends (py : Platform) (site : Site) (page : Page) (link : Str) : Prop :=
  (∀ c, page.points py site link = some c → site.Below c.path) ∧
    ∀ r, urlparse py.netlocCheck link [] = some r → r.scheme ≠ [] → r.netloc ≠ []

/-- The operation may read the links of the body, on behalf of the page. -/
def Operation.Reads (input : Input) (db : Database) (op : Operation) (site : Site) (page : Page)
    (body : Str) : Prop :=
  db.siteById page.site = some site ∧
    match op with
    | updateLinks pk text => db.pageById pk = some page ∧ body = text
    | checkPage pk _ => db.pageById pk = some page ∧ ∃ headers, input.get = .response headers (.ok body)
    | _ => False

/-- The local links that are followed lead below the seed, and a seed path that ends
in a slash is one of the web, written without detours. -/
def Operation.StaysBelow (py : Platform) (input : Input) (db : Database) (op : Operation) : Prop :=
  (∀ site page body robots link target, op.Reads input db site page body → site.Directory →
    input.robots = .ok robots → link ∈ page.visited py site robots body →
    page.Leads py site link target → robots.canFetch py.netlocCheck py.quoting "*" link = some true →
    page.Descends py site link) ∧
  ∀ url name info, op = .initSite url name → urlparse py.netlocCheck url [] = some info →
    info.path.getLast? = some '/' → (info.scheme = "http".toList ∨ info.scheme = "https".toList) ∧
      info.netloc ≠ [] ∧ FromRoot info.path ∧ Undotted info.path

/-- What is stored of a site whose seed path ends in a slash. -/
def Site.Seeded (py : Platform) (site : Site) : Prop :=
  site.Directory → site.Web py ∧ FromRoot site.path ∧ Undotted site.path

def Enclosed (py : Platform) (site : Site) (subpath params : Str) : Prop :=
  site.Directory → site.Below subpath ∧
    ({ bare subpath with query := params } : ParseResult).Legible py.netlocCheck

/-- The seed URL has neither parameters nor a query. -/
theorem url_nil : site.url [] = locator site.scheme site.netloc site.path := by
  simp [Site.url, urlunparse, urlunsplit, marked]

/-- The full URL of a page, given the path that its own is rejoined to. -/
theorem getFullUrl_of_urljoin {path : Str}
    (h : urljoin py.netlocCheck site.path page.subpath = some path) :
    page.getFullUrl py site = .ok (locator site.scheme site.netloc path ++ marked '?' page.params) := by
  simp [Page.getFullUrl, h, orValueError, urlunparse, urlunsplit, marked]

/-- The seed path is below itself. -/
theorem below_seed (hRoot : FromRoot site.path) (hUndotted : Undotted site.path) : site.Below site.path :=
  .inr ⟨hRoot, hUndotted, List.prefix_refl _⟩

theorem Site.Below.direct {path : Str} (h : site.Below path) : path = [] ∨ FromRoot path :=
  h.imp_right And.left

/-- Rejoining a path below the seed stays below it. -/
theorem Site.Below.rejoined {path : Str} (h : site.Below path) (hRoot : FromRoot site.path) :
    FromRoot (site.rejoined path) ∧ site.path <+: site.rejoined path := by
  rw [Site.rejoined, if_neg hRoot.ne_nil]
  rcases h with rfl | ⟨hPath, hUndotted, hPrefix⟩
  · rw [if_pos rfl]
    exact ⟨hRoot, List.prefix_refl _⟩
  · rw [if_neg hPath.ne_nil, mergePath_of_undotted hPath.1 hUndotted, urlunparse_bare hPath.2]
    exact ⟨hPath, hPrefix⟩

/-- The URL of a stored page can be read again, as one that begins at the root. -/
theorem plain_of_below (hWeb : site.Web py) (hRoot : FromRoot site.path) (hBelow : site.Below page.subpath)
    (hLegible : ({ bare page.subpath with query := page.params } : ParseResult).Legible py.netlocCheck) :
    ∃ b, page.Plain py site b := by
  have hBare : (bare page.subpath).Legible py.netlocCheck := bare_legible hLegible
  have hPath : ({ bare (site.rejoined page.subpath) with query := page.params } :
      ParseResult).Legible py.netlocCheck := by
    rcases hBelow with hEmpty | ⟨hPath, hUndotted, -⟩
    · rw [Site.rejoined, if_neg hRoot.ne_nil, if_pos hEmpty]
      have hSeed : (bare site.path).Legible py.netlocCheck := bare_legible hWeb.legible
      exact {
        split := { hSeed.split with
          queryFragment := hLegible.split.queryFragment
          queryClean := hLegible.split.queryClean }
        paramsSlash := hSeed.paramsSlash
        pathParams := hSeed.pathParams }
    · rw [Site.rejoined, if_neg hRoot.ne_nil, if_neg hPath.ne_nil, mergePath_of_undotted hPath.1 hUndotted,
        urlunparse_bare hPath.2]
      exact hLegible
  refine ⟨_, ?_, hPath.withAuthority hWeb.legible site.scheme, (hBelow.rejoined hRoot).1⟩
  rw [Page.location, urljoin_rejoined hWeb hBelow.direct hBare]
  rfl

/-- The address that is stored for a link that is followed. -/
theorem enclosed_of_descends {robots : RobotFileParser} {info : ParseResult} (hWeb : site.Web py)
    {b : ParseResult} (hPlain : page.Plain py site b)
    (hFound : page.validLink py site robots link = .ok (some found))
    (hDescends : page.Descends py site link) (hInfo : urlparse py.netlocCheck found [] = some info) :
    Enclosed py site info.path info.query := by
  obtain ⟨target, hLeads, -, relative, hRelative, hJoin⟩ := validLink_eq_some.mp hFound
  obtain ⟨r, hr, hSame, hLink, -⟩ := points_of_leads hWeb hPlain hLeads
  obtain rfl := Except.ok.inj ((getRelativeUrl_of_location hPlain.located).symm.trans hRelative)
  have hBelow : site.Below (resolveParts b r).path :=
    hDescends.1 (resolveParts b r) (by simp [Page.points, hPlain.located, hr])
  have hDirect : Direct py link (resolveParts b r) := ⟨hBelow.direct, hDescends.2⟩
  obtain ⟨info', hInfo', hPath, hQuery⟩ := urlparse_found hWeb hPlain hr hSame hLink hDirect hJoin
  obtain rfl := Option.some.inj (hInfo.symm.trans hInfo')
  have hLegible : (resolveParts b r).Legible py.netlocCheck :=
    legible_resolveParts hPlain.legible (legible_urlparse hr (hSame ▸ hWeb.usesParams))
  rw [hPath, hQuery]
  exact fun _ => ⟨hBelow, stored_legible hLegible⟩

/-- The path that `reset_site` stores is that of the seed again. -/
theorem enclosed_of_reset {info : ParseResult} (hSeeded : site.Seeded py)
    (hInfo : urlparse py.netlocCheck site.path [] = some info) : Enclosed py site info.path info.query := by
  intro hDirectory
  obtain ⟨hWeb, hRoot, hUndotted⟩ := hSeeded hDirectory
  have hBare : (bare site.path).Legible py.netlocCheck := bare_legible hWeb.legible
  obtain rfl : bare site.path = info := Option.some.inj ((urlparse_bare hRoot hBare).symm.trans hInfo)
  exact ⟨below_seed hRoot hUndotted, hBare⟩

/-- The URLs handed to `add_page` are the path of a site that is reset, or links of a body. -/
theorem Operation.Hands.cases (h : op.Hands py input db site found) :
    (site ∈ db.sites ∧ found = site.path) ∨ ∃ page ∈ db.pages, ∃ body, op.Reads input db site page body ∧
      found ∈ (page.getAllValidLinks py site input.robots body).yielded := by
  cases op with
  | resetSite name => exact .inl ⟨mem_sites_of_siteByName h.1, h.2⟩
  | updateLinks pk body =>
      obtain ⟨page, hPage, hSite, hFound⟩ := h
      exact .inr ⟨page, (Relational.mem_of_lookup hPage).1, body, ⟨hSite, hPage, rfl⟩, hFound⟩
  | checkPage pk isValid =>
      obtain ⟨page, hPage, hSite, headers, body, hGet, hFound⟩ := h
      exact .inr ⟨page, (Relational.mem_of_lookup hPage).1, body, ⟨hSite, hPage, headers, hGet⟩, hFound⟩
  | _ => exact h.elim

def Database.Scoped (py : Platform) (db : Database) : Prop :=
  db.Consistent ∧ db.AllGood (Enclosed py) ∧ ∀ site ∈ db.sites, site.Seeded py

/-- What a call adds is enclosed. -/
theorem meets_of_staysBelow (hScoped : db.Scoped py) (h : op.StaysBelow py input db) :
    op.Meets py (Enclosed py) input db := by
  obtain ⟨-, hAll, hSites⟩ := hScoped
  constructor
  · intro site url info hHands hInfo hDirectory
    rcases hHands.cases with ⟨hSite, rfl⟩ | ⟨page, hPage, body, hReads, hUrl⟩
    · exact enclosed_of_reset (hSites site hSite) hInfo hDirectory
    · obtain ⟨hSite, hKey⟩ := Relational.mem_of_lookup hReads.1
      obtain ⟨hWeb, hRoot, -⟩ := hSites site hSite hDirectory
      obtain ⟨hBelow, hLegible⟩ := hAll page hPage site hSite hKey hDirectory
      obtain ⟨b, hPlain⟩ := plain_of_below hWeb hRoot hBelow hLegible
      obtain ⟨robots, link, hRobots, hLink, hFound⟩ := leads_of_yielded hUrl
      obtain ⟨target, hLeads, hFetch, -⟩ := validLink_eq_some.mp hFound
      have hDescends := h.1 site page body robots link target hReads hDirectory hRobots hLink hLeads hFetch
      exact enclosed_of_descends hWeb hPlain hFound hDescends hInfo hDirectory
  · intro url name info hEq hInfo hDirectory
    obtain ⟨hScheme, -, hRoot, hUndotted⟩ := h.2 url name info hEq hInfo hDirectory
    have hUses : info.scheme ∈ usesParams := by
      rcases hScheme with hScheme | hScheme <;> rw [hScheme] <;> decide
    have hBare : (bare info.path).Legible py.netlocCheck := bare_legible (legible_urlparse hInfo hUses)
    exact ⟨below_seed hRoot hUndotted, hBare⟩

/-- A site is stored already, or the new one of `init_site`. -/
theorem mem_sites_initSite (hDb : db.Consistent) {url name : Str}
    (h : site ∈ ((initSite py input url name).run db).2.sites) :
    site ∈ db.sites ∨ ∃ info, urlparse py.netlocCheck url [] = some info ∧
      site = db.newSite input.justNow name info := by
  cases hName : db.siteByName name with
  | some taken =>
      rw [initSite, Session.selectFrom, Program.run_select_bind, hName] at h
      exact .inl h
  | none =>
      cases hInfo : urlparse py.netlocCheck url [] with
      | none =>
          rw [initSite, Session.selectFrom, Program.run_select_bind, hName, hInfo] at h
          exact .inl h
      | some info =>
          cases hViolation : db.siteViolation (db.newSite input.justNow name info) with
          | some e =>
              rw [run_initSite_of_violation hName hInfo hViolation] at h
              exact .inl h
          | none =>
              rw [run_initSite hDb hName hInfo hViolation] at h
              rcases List.mem_append.mp h with hOld | hNew
              · exact .inl hOld
              · exact .inr ⟨info, rfl, List.mem_singleton.mp hNew⟩

/-- The step lemma. -/
theorem scoped_step (hScoped : db.Scoped py) (h : op.StaysBelow py input db) :
    ((op.session py input).run db).2.Scoped py := by
  have hMeets := meets_of_staysBelow hScoped h
  obtain ⟨hDb, hAll, hSites⟩ := hScoped
  obtain ⟨hDb', hAll'⟩ := Operation.allGood_step hDb hAll hMeets
  refine ⟨hDb', hAll', fun site hSite hDirectory => ?_⟩
  by_cases hNew : ∃ url name, op = .initSite url name
  · obtain ⟨url, name, rfl⟩ := hNew
    rw [Operation.session, Program.run_bind_pure_snd] at hSite
    rcases mem_sites_initSite hDb hSite with hOld | ⟨info, hInfo, rfl⟩
    · exact hSites site hOld hDirectory
    · obtain ⟨hScheme, hHost, hRoot, hUndotted⟩ := h.2 url name info rfl hInfo hDirectory
      exact ⟨web_of_urlparse hInfo hScheme hHost (.inr hRoot), hRoot, hUndotted⟩
  · have hKept := Operation.kept_step hDb hAll hMeets fun url name hEq => hNew ⟨url, name, hEq⟩
    exact hSites site (hKept.2.1 ▸ hSite) hDirectory

/-- In a run whose links lead below the seeds, every full URL begins with the seed URL. -/
theorem fullUrls_in_scope (py : Platform) (db : Database)
    (h : Runs py (fun input db op => op.StaysBelow py input db) .empty db) :
    ∀ site ∈ db.sites, site.Directory → ∀ p ∈ db.pages, p.site = site.idSite →
      ∃ url, p.getFullUrl py site = .ok url ∧ site.url [] <+: url := by
  intro site hSite hDirectory p hp hpSite
  have hEmpty : Database.empty.Scoped py :=
    ⟨Database.consistent_empty, allGood_empty, fun site hSite => nomatch hSite⟩
  obtain ⟨-, hAll, hSites⟩ := h.induct py (Database.Scoped py)
    (fun input db op hScoped hBelow => scoped_step hScoped hBelow) hEmpty
  obtain ⟨hWeb, hRoot, -⟩ := hSites site hSite hDirectory
  obtain ⟨hBelow, hLegible⟩ := hAll p hp site hSite hpSite.symm hDirectory
  have hJoin := urljoin_rejoined hWeb hBelow.direct (bare_legible hLegible)
  refine ⟨_, getFullUrl_of_urljoin hJoin, ?_⟩
  rw [url_nil]
  exact (locator_isPrefix hRoot.ne_nil (hBelow.rejoined hRoot).2).trans (List.prefix_append _ _)

def subtreeSite : Site := { seedSite with path := "/a/" }

/-- A page below the seed, found by a relative link. -/
theorem fullUrls_in_scope_relative :
    ∃ url, (linkedPage "/a/b.html" []).getFullUrl (.scripted [anchor "b.html"]) subtreeSite = .ok url ∧
      subtreeSite.url [] <+: url := by
  apply fullUrls_in_scope (.scripted [anchor "b.html"]) (.crawled "http://h/a/" "b.html")
    (runs_crawled ?init ?update) subtreeSite (by decide) (by decide) _ (by decide) rfl
  case init =>
    refine ⟨fun _ _ _ _ _ _ hReads => hReads.2.elim, ?_⟩
    intro url name info hEq hInfo _
    obtain ⟨rfl, rfl⟩ := by simpa using hEq
    obtain rfl : _ = info := Option.some.inj hInfo
    exact ⟨.inl (by rfl), by decide, by decide, by decide⟩
  case update =>
    refine ⟨?_, fun url name info hEq => nomatch hEq⟩
    rintro site page body robots link target ⟨hSite, hPage, rfl⟩ - hRobots hLink - -
    obtain rfl : _ = page := Option.some.inj hPage
    obtain rfl : subtreeSite = site := Option.some.inj hSite
    obtain rfl : RobotFileParser.missing = robots := Except.ok.inj hRobots
    have hVisited : ({ seedPage with subpath := "/a/" } : Page).visited (.scripted [anchor "b.html"])
        subtreeSite .missing [] = ["b.html".toList] := by rfl
    obtain rfl := List.mem_singleton.mp (hVisited ▸ hLink)
    refine ⟨fun c hPoints => ?_, fun r hr hScheme => ?_⟩
    · obtain rfl : _ = c := Option.some.inj hPoints
      exact .inr ⟨by decide, by decide, by decide⟩
    · obtain rfl : _ = r := Option.some.inj hr
      exact absurd rfl hScheme

/-- A link to another part of the server enters the frontier. -/
theorem fullUrls_escape : ∃ db, Reachable (.scripted [anchor "/b"]) db ∧
    ∃ site ∈ db.sites, site.Directory ∧ ∃ p ∈ db.pages, p.site = site.idSite ∧
      ∃ url, p.getFullUrl (.scripted [anchor "/b"]) site = .ok url ∧ ¬ site.url [] <+: url :=
  ⟨.crawled "http://h/a/" "/b", runs_crawled trivial trivial, subtreeSite, by decide, by decide,
    linkedPage "/b" [], by decide, rfl, "http://h/b", by rfl, by decide⟩

end Spidercheck
