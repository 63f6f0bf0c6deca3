import Spidercheck.Checks.Agreement
import Spidercheck.Checks.Confinement

/-! What a check discovers. The web is taken as it stands: for the address of each
page of a site, what `is_valid` and the `GET` request answer. A check that returns
then adds the pages that the page leads to, and no others, and leaves links to just
those of them that are linkable. -/
namespace Spidercheck

open Text Url Robots Execution Relational

/-- The answers for the addresses of a site, and its `robots.txt`. -/
structure Web where
  answer : Address → Except PyError (Result Payload)
  get : Address → GetOutcome
  robots : Except PyError RobotFileParser

namespace Web
variable (web : Web) (py : Platform) (site : Site)

def Serves (page : Page) (isValid : Site → Page → Except PyError (Result Payload)) (input : Input) :
    Prop :=
  isValid site (page.marked input.justNow) = web.answer page.fullPath ∧
    input.get = web.get page.fullPath ∧ input.robots = web.robots

/-- A local HTML page with this text is found at the address. -/
def Shows (a : Address) (body : Str) : Prop :=
  ∃ response headers, web.answer a = .ok (.success (.response response)) ∧
    contentIsHtml response.headers = true ∧ site.isLocal py response.url = .ok true ∧
    web.get a = .response headers (.ok body) ∧ isValidHtml body = true

/-- The page at the first address has a link that is stored under the second one. -/
def Leads (a b : Address) : Prop :=
  ∃ body, web.Shows py site a body ∧ ∃ url ∈
    ((Page.new site.idSite a.2.1 a.2.2).getAllValidLinks py site web.robots body).yielded,
    ∃ info, urlparse py.netlocCheck url [] = some info ∧ b = (site.idSite, info.path, info.query)

variable {web py site} {a b : Address} {body body' : Str}

/-- An address shows one text at most. -/
theorem Shows.unique (h : web.Shows py site a body) (h' : web.Shows py site a body') : body = body' := by
  obtain ⟨response, headers, -, -, -, hGet, -⟩ := h
  obtain ⟨response', headers', -, -, -, hGet', -⟩ := h'
  rw [hGet] at hGet'
  exact Except.ok.inj (GetOutcome.response.inj hGet').2

theorem Leads.idSite (h : web.Leads py site a b) : b.1 = site.idSite := by
  obtain ⟨-, -, url, -, info, -, rfl⟩ := h
  rfl

/-- The pages that a shown page leads to are those of its links. -/
theorem leads_iff_of_shows {page : Page} (h : web.Shows py site page.fullPath body) :
    web.Leads py site page.fullPath b ↔
      ∃ url ∈ (page.getAllValidLinks py site web.robots body).yielded,
        ∃ info, urlparse py.netlocCheck url [] = some info ∧ b = (site.idSite, info.path, info.query) := by
  have hLinks : (Page.new site.idSite page.fullPath.2.1 page.fullPath.2.2).getAllValidLinks py site
      web.robots body = page.getAllValidLinks py site web.robots body :=
    Page.getAllValidLinks_congr py site (by rfl) (by rfl) _ _
  constructor
  · rintro ⟨other, hOther, hUrl⟩
    obtain rfl := h.unique hOther
    rwa [hLinks] at hUrl
  · intro hUrl
    exact ⟨body, h, by rwa [hLinks]⟩

end Web

variable {web : Web} {py : Platform} {input : Input} {db db' saved : Database} {site : Site}
  {page row : Page}

/-- The effect of a check of a page on the pages and links. -/
structure Visited (web : Web) (py : Platform) (site : Site) (page : Page) (db db' : Database) :
    Prop where
  consistent : db'.Consistent
  sites : db'.sites = db.sites
  scheduled : db'.scheduled = db.scheduled
  row : ∃ row ∈ db'.pages, row.idPage = page.idPage ∧ row.fullPath = page.fullPath ∧
    row.isLinkable = page.isLinkable ∧ row.isChecked = true
  others : ∀ p ∈ db.pages, p.idPage ≠ page.idPage → p ∈ db'.pages
  added : ∀ p ∈ db'.pages, p.idPage ≠ page.idPage → p ∈ db.pages ∨
    p.isChecked = false ∧ web.Leads py site page.fullPath p.fullPath
  followed : ∀ b, web.Leads py site page.fullPath b → ∃ p ∈ db'.pages, p.fullPath = b
  joined : ∀ p ∈ db'.pages, p.isLinkable = true → web.Leads py site page.fullPath p.fullPath →
    db'.Linked page.idPage p.idPage
  linked : ∀ p ∈ db'.pages, db'.Linked page.idPage p.idPage →
    (p.isLinkable = true ∧ web.Leads py site page.fullPath p.fullPath) ∨
      (∀ b, ¬ web.Leads py site page.fullPath b) ∧ db.Linked page.idPage p.idPage
  elsewhere : ∀ u v, u ≠ page.idPage → (db'.Linked u v ↔ db.Linked u v)

structure SavedOver (page row : Page) : Prop where
  idPage : row.idPage = page.idPage
  fullPath : row.fullPath = page.fullPath
  isLinkable : row.isLinkable = page.isLinkable
  isChecked : row.isChecked = true

/-- A check that shows no links: the row is saved, and links of the page may go. -/
theorem visited_of_quiet (hPage : page ∈ db.pages) (hRow : SavedOver page row)
    (hConsistent : db'.Consistent) (hSites : db'.sites = db.sites)
    (hScheduled : db'.scheduled = db.scheduled)
    (hPages : db'.pages = replace Page.idPage row db.pages)
    (hLinks : ∀ l, l ∈ db'.links → l ∈ db.links)
    (hKept : ∀ l ∈ db.links, l.fromPage ≠ page.idPage → l ∈ db'.links)
    (hNone : ∀ b, ¬ web.Leads py site page.fullPath b) : Visited web py site page db db' where
  consistent := hConsistent
  sites := hSites
  scheduled := hScheduled
  row := by
    refine ⟨row, ?_, hRow.idPage, hRow.fullPath, hRow.isLinkable, hRow.isChecked⟩
    rw [hPages]
    exact mem_replace.mpr (.inl ⟨rfl, page, hPage, hRow.idPage.symm⟩)
  others p hp hNe := by
    rw [hPages]
    exact mem_replace.mpr (.inr ⟨hp, hRow.idPage ▸ hNe⟩)
  added p hp hNe := by
    rw [hPages] at hp
    rcases mem_replace.mp hp with ⟨rfl, -⟩ | ⟨hp, -⟩
    · exact absurd hRow.idPage hNe
    · exact .inl hp
  followed b hLeads := absurd hLeads (hNone b)
  joined p _ _ hLeads := absurd hLeads (hNone _)
  linked p _ hLinked := by
    obtain ⟨l, hl, hEnds⟩ := hLinked
    exact .inr ⟨hNone, l, hLinks l hl, hEnds⟩
  elsewhere u v hNe := by
    constructor
    · rintro ⟨l, hl, hEnds⟩
      exact ⟨l, hLinks l hl, hEnds⟩
    · rintro ⟨l, hl, hEnds⟩
      have hFrom : l.fromPage ≠ page.idPage := by
        rw [show l.fromPage = u from (Prod.mk.inj hEnds).1]
        exact hNe
      exact ⟨l, hKept l hl hFrom, hEnds⟩

/-- The pages after the links of a shown text were followed: those that were
there, and fresh ones at the addresses that the page leads to. -/
theorem added_by_updateLinks (hSaved : saved.Consistent) {body : Str}
    (hShows : web.Shows py site row.fullPath body) (hRobots : input.robots = web.robots)
    {changes : Finset Nat × Finset Nat} {linked : Database}
    (hRun : (updateLinks py input site row body).run saved = (.ok changes, linked)) :
    linked.Consistent ∧ linked.sites = saved.sites ∧ linked.scheduled = saved.scheduled ∧
      (∀ p ∈ saved.pages, p ∈ linked.pages) ∧
      ∀ p ∈ linked.pages, p ∈ saved.pages ∨
        p.isChecked = false ∧ web.Leads py site row.fullPath p.fullPath := by
  have hAppends : Appends input.stamp saved ((updateLinks py input site row body).run saved).2 :=
    appends_updateLinks hSaved body
  have hAddressed : Database.Addressed (fun a => (∃ q ∈ saved.pages, q.fullPath = a) ∨
      web.Leads py site row.fullPath a) ((updateLinks py input site row body).run saved).2 := by
    refine (stable_addressed.updateLinks py input site row body ?_).run fun p hp => .inl ⟨p, hp, rfl⟩
    intro url hUrl info hInfo _
    rw [hRobots] at hUrl
    exact .inr ((Web.leads_iff_of_shows hShows).mpr ⟨url, hUrl, info, hInfo, rfl⟩)
  rw [hRun] at hAppends hAddressed
  obtain ⟨new, hPages, hNew⟩ := hAppends.pages
  have hKept : ∀ p ∈ saved.pages, p ∈ linked.pages := fun p hp =>
    hPages ▸ List.mem_append_left new hp
  refine ⟨hAppends.consistent, hAppends.sites, hAppends.scheduled, hKept, fun p hp => ?_⟩
  rcases hAddressed p hp with ⟨q, hq, hSame⟩ | hLeads
  · exact .inl (hAppends.consistent.fullPaths.eq (hKept q hq) hp hSame ▸ hq)
  · rw [hPages] at hp
    rcases List.mem_append.mp hp with hp | hp
    · exact .inl hp
    · exact .inr ⟨(hNew p hp).isChecked, hLeads⟩

/-- The links after that: they lead to the linkable ones of these pages. -/
theorem linked_by_updateLinks (hSaved : saved.Consistent) (hRow : row ∈ saved.pages)
    (hSite : site ∈ saved.sites) {body : Str} (hShows : web.Shows py site row.fullPath body)
    (hRobots : input.robots = web.robots) {changes : Finset Nat × Finset Nat} {linked : Database}
    (hRun : (updateLinks py input site row body).run saved = (.ok changes, linked)) :
    (∀ b, web.Leads py site row.fullPath b → ∃ p ∈ linked.pages, p.fullPath = b) ∧
      (∀ p ∈ linked.pages, linked.Linked row.idPage p.idPage ↔
        p.isLinkable = true ∧ web.Leads py site row.fullPath p.fullPath) ∧
      ∀ u v, u ≠ row.idPage → (linked.Linked u v ↔ saved.Linked u v) := by
  obtain ⟨hLinked, -⟩ := added_by_updateLinks hSaved hShows hRobots hRun
  have hExact := run_syncLinks_exact py input.stamp hSaved hRow hSite
    (row.getAllValidLinks py site input.robots body)
  rw [show (syncLinks py input.stamp site row (row.getAllValidLinks py site input.robots body)).run
    saved = (.ok changes, linked) from hRun] at hExact
  obtain ⟨-, targets, t, hAdd, hPages, hSync, -⟩ := hExact
  have hStored := run_addPages py input.stamp
    (row.getAllValidLinks py site input.robots body).yielded hSaved hSite
  rw [hAdd, hRobots] at hStored
  obtain ⟨hTarget, hUrl⟩ := partners (hStored.2.imp fun _ _ => Stored.congr hPages)
  have hAt {url : Str} {target : Page} (h : Stored py site linked url target) :
      target ∈ linked.pages ∧ ∃ info, urlparse py.netlocCheck url [] = some info ∧
        target.fullPath = (site.idSite, info.path, info.query) := by
    obtain ⟨info, hInfo, hFound⟩ := h
    exact ⟨(Database.mem_of_pageAt hFound).1, info, hInfo, (Database.mem_of_pageAt hFound).2⟩
  have hLeadsTo (b : Address) (hLeads : web.Leads py site row.fullPath b) :
      ∃ p ∈ targets, p ∈ linked.pages ∧ p.fullPath = b := by
    obtain ⟨url, hYielded, info, hInfo, rfl⟩ := (Web.leads_iff_of_shows hShows).mp hLeads
    obtain ⟨target, hMem, hFound⟩ := hTarget url hYielded
    obtain ⟨hPage, info', hInfo', hPath⟩ := hAt hFound
    obtain rfl : info = info' := Option.some.inj (hInfo.symm.trans hInfo')
    exact ⟨target, hMem, hPage, hPath⟩
  refine ⟨fun b hLeads => ?_, fun p hp => ?_, fun u v hNe => ?_⟩
  · obtain ⟨p, -, hp, hPath⟩ := hLeadsTo b hLeads
    exact ⟨p, hp, hPath⟩
  · rw [linked_iff_mem_targetsOf, hSync.targets]
    simp only [linkable, List.mem_toFinset, List.mem_map, List.mem_filter]
    constructor
    · rintro ⟨target, ⟨hMem, hLinkable⟩, hKey⟩
      obtain ⟨url, hYielded, hFound⟩ := hUrl target hMem
      obtain ⟨hPage, info, hInfo, hPath⟩ := hAt hFound
      obtain rfl : target = p := hLinked.pages.eq hPage hp hKey
      exact ⟨hLinkable, (Web.leads_iff_of_shows hShows).mpr ⟨url, hYielded, info, hInfo, hPath⟩⟩
    · rintro ⟨hLinkable, hLeads⟩
      obtain ⟨target, hMem, hPage, hPath⟩ := hLeadsTo _ hLeads
      obtain rfl : target = p := hLinked.fullPaths.eq hPage hp hPath
      exact ⟨target, ⟨hMem, hLinkable⟩, rfl⟩
  · have hSame (d : Database) : d.Linked u v ↔
        ∃ l ∈ d.links.filter (·.fromPage != row.idPage), l.fromTo = (u, v) := by
      constructor
      · rintro ⟨l, hl, hEnds⟩
        refine ⟨l, List.mem_filter.mpr ⟨hl, ?_⟩, hEnds⟩
        rw [bne_iff_ne, show l.fromPage = u from (Prod.mk.inj hEnds).1]
        exact hNe
      · rintro ⟨l, hl, hEnds⟩
        exact ⟨l, List.mem_of_mem_filter hl, hEnds⟩
    rw [hSame linked, hSame saved, hSync.others]

/-- A check that shows a page: the row is saved, its links are followed, and the
plugins change neither pages nor links. -/
theorem visited_of_processed (hPage : page ∈ db.pages) (hRow : SavedOver page row)
    (hSaved : (db.rewrite row).Consistent) (hSite : site ∈ db.sites) {text : Headers × Str}
    (hShows : web.Shows py site page.fullPath text.2) (hRobots : input.robots = web.robots)
    {changes : Finset Nat × Finset Nat} {phase : Result Dict} {linked : Database}
    (hLinks : (updateLinks py input site row text.2).run (db.rewrite row) = (.ok changes, linked))
    (hPlugins : (runPlugins input.plugins row text.1 text.2).run linked = (.ok phase, db')) :
    Visited web py site page db db' := by
  have hMem : row ∈ (db.rewrite row).pages := Database.mem_rewrite hPage hRow.idPage.symm
  have hOld (p : Page) : p ∈ (db.rewrite row).pages ↔ p = row ∨ p ∈ db.pages ∧ p.idPage ≠ page.idPage := by
    rw [← hRow.idPage, Database.rewrite, mem_replace]
    exact or_congr_left (and_iff_left ⟨page, hPage, hRow.idPage.symm⟩)
  rw [← hRow.fullPath] at hShows
  obtain ⟨hLinked, hSites, hScheduled, hKept, hAdded⟩ :=
    added_by_updateLinks hSaved hShows hRobots hLinks
  obtain ⟨hFollowed, hJoined, hElsewhere⟩ :=
    linked_by_updateLinks hSaved hMem hSite hShows hRobots hLinks
  obtain ⟨hPages, hSame, -⟩ := runPlugins_returns hLinked hPlugins
  have hDone : Appends input.stamp linked ((runPlugins input.plugins row text.1 text.2).run linked).2 :=
    appends_runPlugins hLinked input.plugins text.1 text.2
  rw [hPlugins] at hDone
  rw [hRow.fullPath, hRow.idPage] at *
  have hEdges (u v : Nat) : db'.Linked u v ↔ linked.Linked u v := by
    rw [Database.Linked, Database.Linked, hSame]
  refine {
    consistent := hDone.consistent
    sites := hDone.sites.trans hSites
    scheduled := hDone.scheduled.trans hScheduled
    row := ⟨row, hPages ▸ hKept row hMem, hRow.idPage, hRow.fullPath, hRow.isLinkable, hRow.isChecked⟩
    others := fun p hp hNe => hPages ▸ hKept p ((hOld p).mpr (.inr ⟨hp, hNe⟩))
    added := fun p hp hNe => ?_
    followed := fun b hLeads => hPages ▸ hFollowed b hLeads
    joined := fun p hp hLinkable hLeads =>
      (hEdges ..).mpr ((hJoined p (hPages ▸ hp)).mpr ⟨hLinkable, hLeads⟩)
    linked := fun p hp hEdge => .inl ((hJoined p (hPages ▸ hp)).mp ((hEdges ..).mp hEdge))
    elsewhere := fun u v hNe => (hEdges u v).trans (hElsewhere u v hNe) }
  rcases hAdded p (hPages ▸ hp) with hp | hNew
  · rcases (hOld p).mp hp with rfl | ⟨hp, -⟩
    · exact absurd hRow.idPage hNe
    · exact .inl hp
  · exact .inr hNew

/-- What a check that returns was answered. -/
theorem answered_of_returns (hSite : db.siteById page.site = some site)
    {isValid : Site → Page → Except PyError (Result Payload)} {r : Result Str}
    (hRun : (checkPageWith isValid py input page).run db = (.ok r, db')) :
    ∃ answer, isValid site (page.marked input.justNow) = .ok answer ∧
      (checkPageWith (fun _ _ => .ok answer) py input page).run db = (.ok r, db') ∧
      ((∃ response, answer = .success (.response response)) ∨
        ∃ message code, answer = .failure message (some code)) := by
  rw [run_checkPageWith hSite] at hRun
  cases hUrl : page.getFullUrl py site with
  | error e => simp [hUrl] at hRun
  | ok url =>
      cases hAnswer : isValid site (page.marked input.justNow) with
      | error e => simp [hUrl, hAnswer] at hRun
      | ok answer =>
          simp only [hUrl, hAnswer] at hRun
          refine ⟨answer, rfl, ?_, ?_⟩
          · rw [run_checkPageWith hSite, hUrl]
            exact hRun
          · cases answer with
            | success value =>
                cases value with
                | true => cases hRun
                | response response => exact .inl ⟨response, rfl⟩
            | failure message code =>
                cases code with
                | none => cases hRun
                | some code => exact .inr ⟨message, code, rfl⟩

/-- Every check that returns, of a page as the web has it, visits the page. -/
theorem visited_of_returns (hDb : db.Consistent) (hPage : page ∈ db.pages) (hSite : site ∈ db.sites)
    (hOf : page.site = site.idSite) {isValid : Site → Page → Except PyError (Result Payload)}
    (hServes : web.Serves site page isValid input) {r : Result Str}
    (hRun : (checkPageWith isValid py input page).run db = (.ok r, db')) :
    Visited web py site page db db' := by
  have hLoad : db.siteById page.site = some site := hOf ▸ hDb.sites.lookup_eq hSite
  obtain ⟨hAnswer, hGet, hRobots⟩ := hServes
  obtain ⟨answer, hIsValid, hRun, hKinds⟩ := answered_of_returns hLoad hRun
  rw [hAnswer] at hIsValid
  have hMarked (status : Int) (contentType message : Str) (size : Int) (time : Time) :
      SavedOver page { page.marked input.justNow with
        status := status, contentType := contentType, errorMessage := message, sizeBytes := size,
        checkTime := time } := ⟨rfl, rfl, rfl, rfl⟩
  rcases hKinds with ⟨response, rfl⟩ | ⟨message, code, rfl⟩
  · obtain ⟨url, sizeBytes, -, hSaved, hExit⟩ := exit_of_returns hDb hPage hLoad hRun
    have hRow : SavedOver page ((page.marked input.justNow).answered input response sizeBytes) :=
      hMarked ..
    have hResponse {other : Response} (h : web.answer page.fullPath = .ok (.success (.response other))) :
        response = other := by
      simpa [hIsValid] using h
    cases hExit with
    | plain message hKind =>
        refine visited_of_quiet hPage hRow hSaved rfl rfl rfl (fun _ h => h) (fun _ h _ => h) ?_
        rintro b ⟨body, ⟨other, headers, hOther, hHtml, -⟩, -⟩
        rw [← hResponse hOther, hKind] at hHtml
        cases hHtml
    | external message hKind hScope =>
        refine visited_of_quiet hPage hRow (hSaved.deleteLinks _) rfl rfl rfl
          (fun _ h => List.mem_of_mem_filter h) (fun l hl hNe => ?_) ?_
        · refine List.mem_filter.mpr ⟨hl, ?_⟩
          rw [hRow.idPage]
          simpa using hNe
        · rintro b ⟨body, ⟨other, headers, hOther, -, hLocal, -⟩, -⟩
          rw [← hResponse hOther, hScope] at hLocal
          cases hLocal
    | rejected headers body message hKind hScope hBody hNoHtml hMessage =>
        have hMem := Database.mem_rewrite hPage hRow.idPage.symm
        have hPages : ((db.rewrite ((page.marked input.justNow).answered input response sizeBytes)).rewrite
            { (page.marked input.justNow).answered input response sizeBytes with
              status := 418, errorMessage := message }).pages =
              replace Page.idPage { (page.marked input.justNow).answered input response sizeBytes with
                status := 418, errorMessage := message } db.pages := replace_replace (by rfl)
        have hEnd := (recorded_of_returns hDb hPage hRun).consistent
        refine visited_of_quiet hPage (hMarked ..) hEnd rfl rfl hPages
          (fun _ h => h) (fun _ h _ => h) ?_
        rintro b ⟨text, ⟨other, fields, -, -, -, hText, hHtml⟩, -⟩
        rw [← hGet, hBody] at hText
        rw [← Except.ok.inj (GetOutcome.response.inj hText).2, hNoHtml] at hHtml
        cases hHtml
    | processed headers text message hKind hScope hBody hHtml hText hLinks hPlugins =>
        exact visited_of_processed hPage hRow hSaved hSite
          ⟨response, headers, hIsValid, hKind, hScope, hGet ▸ hBody, hHtml⟩ hRobots hLinks hPlugins
  · obtain ⟨-, rfl, hSaved⟩ := refused_of_returns hDb hPage hRun
    refine visited_of_quiet hPage (hMarked ..) hSaved rfl rfl rfl (fun _ h => h) (fun _ h _ => h) ?_
    rintro b ⟨body, ⟨other, headers, hOther, -⟩, -⟩
    rw [hIsValid] at hOther
    cases hOther

end Spidercheck
