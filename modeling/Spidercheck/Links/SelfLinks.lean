import Spidercheck.Addresses.Exclusion
import Spidercheck.Links.Linkable

/-! Links of a page to itself. The URL of the page is recognised as a text, but a
link is stored under the path and the query that it leads to, and a text that is
not the URL of the page may still lead to its path and query. -/
namespace Spidercheck

open Text Url Robots Execution Relational

variable {py : Platform} {input : Input} {db : Database} {site : Site} {page : Page}

/-- The link is followed, and the path and query that it leads to are those of the page. -/
def Page.ReturnsBy (py : Platform) (site : Site) (page : Page) (robots : RobotFileParser)
    (link : Str) : Prop :=
  ∃ url, page.Leads py site link url ∧ robots.canFetch py.netlocCheck py.quoting "*" link = some true ∧
    ∃ relative target info, page.getRelativeUrl py site = .ok relative ∧
      urljoin py.netlocCheck relative link = some target ∧
      urlparse py.netlocCheck target [] = some info ∧ info.path = page.subpath ∧ info.query = page.params

/-- No link that a linkable page follows returns to it. -/
def Call.KeepsAway (py : Platform) (input : Input) (db : Database) (call : Call) : Prop :=
  ∀ page site body robots, db.pageById page.idPage = some page → db.siteById page.site = some site →
    call.Reads py input site page body → page.isLinkable = true → input.robots = .ok robots →
    ∀ link ∈ page.visited py site robots body, ¬ page.ReturnsBy py site robots link

def Page.identity (p : Page) : Nat × Address × Bool := (p.idPage, p.fullPath, p.isLinkable)

theorem lasts_identity : Lasts Page.identity := by
  intro p q hKey hPath hLinkable
  rw [Page.identity, Page.identity, hKey, hPath, hLinkable]

def identities : OpenDiscipline (Ledger (Nat × Address × Bool)) :=
  ledger Page.identity (fun a b => a.1 ≠ b.1) lasts_identity

def Database.NoSelfLinks (db : Database) : Prop := ∀ l ∈ db.links, l.fromPage ≠ l.toPage

/-- No link joins a page to itself when links join different keys. -/
theorem noSelfLinks_iff (h : db.Consistent) :
    db.NoSelfLinks ↔ db.LinksJoin Page.identity fun a b => a.1 ≠ b.1 := by
  constructor
  · intro hNone l hl p _ hFrom q _ hTo hSame
    exact hNone l hl (hFrom.symm.trans ((show p.idPage = q.idPage from hSame).trans hTo))
  · intro hJoin l hl hSame
    obtain ⟨p, hp, hFrom⟩ := h.linkFrom l hl
    exact hJoin l hl p hp hFrom p hp (hFrom.trans hSame) rfl

/-- A URL is yielded for a link that is followed to it. -/
theorem returnsBy_of_yielded {body url : Str} {info : ParseResult}
    (hUrl : url ∈ (page.getAllValidLinks py site input.robots body).yielded)
    (hInfo : urlparse py.netlocCheck url [] = some info) (hPath : info.path = page.subpath)
    (hQuery : info.query = page.params) :
    ∃ robots link, input.robots = .ok robots ∧ link ∈ page.visited py site robots body ∧
      page.ReturnsBy py site robots link := by
  obtain ⟨robots, link, hRobots, hLink, hFound⟩ := leads_of_yielded hUrl
  obtain ⟨resolved, hLeads, hFetch, relative, hRelative, hJoin⟩ := validLink_eq_some.mp hFound
  exact ⟨robots, link, hRobots, hLink, resolved, hLeads, hFetch, relative, url, info, hRelative, hJoin,
    hInfo, hPath, hQuery⟩

/-- Saving a row leaves the links as they are. -/
theorem links_savePage (hDb : db.Consistent) (hPage : page ∈ db.pages) (stamp : Nat → Time) (row : Page)
    (hKey : row.idPage = page.idPage) (hPath : row.fullPath = page.fullPath) :
    ((Session.savePage stamp row).run db).2.links = db.links := by
  rw [run_savePage_of_stored hDb stamp ⟨page, hPage, hKey.symm, hPath.symm⟩]
  split <;> rfl

/-- A switch of the flag makes no links. -/
theorem links_toogle (hDb : db.Consistent) (hPage : page ∈ db.pages) (stamp : Nat → Time) :
    ((toogle stamp page).run db).2.links ⊆ db.links := by
  let row : Page := { page with isLinkable := !page.isLinkable }
  rw [run_toogle]
  split
  · have hStored : page ∈ (db.deleteLinks (·.toPage == page.idPage)).pages := hPage
    rw [links_savePage (hDb.deleteLinks _) hStored stamp row rfl rfl]
    exact List.filter_sublist.subset
  · rw [links_savePage hDb hPage stamp row rfl rfl]
    exact List.Subset.refl _

theorem noSelfLinks_toogle (hDb : db.Consistent) (hLinks : db.NoSelfLinks) (pk : Nat) :
    let db' := ((toogleIsLinkable input.stamp pk).run db).2
    db'.Consistent ∧ db'.NoSelfLinks := by
  rw [toogleIsLinkable, run_loadPage_bind]
  cases hPage : db.pageById pk with
  | none => exact ⟨hDb, hLinks⟩
  | some page =>
      have hStored : page ∈ db.pages := (mem_of_lookup hPage).1
      exact ⟨(stable_consistent_all.toogle input.stamp page trivial).run hDb,
        fun l hl => hLinks l (links_toogle hDb hStored input.stamp hl)⟩

/-- The target of a link that was read is another row than the page. -/
theorem admitsBody_of_keepsAway {call : Call} {body : Str}
    (hAway : call.KeepsAway py input db) (hPage : db.pageById page.idPage = some page)
    (hSite : db.siteById page.site = some site) (hReads : call.Reads py input site page body) :
    identities.AdmitsBody py input site page body := by
  intro url hUrl info hInfo target hLinkable hAddress hSame hKey
  obtain ⟨-, hPath, hFlag⟩ : page.idPage = target.idPage ∧ page.fullPath = target.fullPath ∧
      page.isLinkable = target.isLinkable := by simpa [Page.identity] using hSame hKey
  rw [hAddress] at hPath
  simp only [Page.fullPath, Prod.mk.injEq] at hPath
  obtain ⟨robots, link, hRobots, hLink, hReturns⟩ :=
    returnsBy_of_yielded hUrl hInfo hPath.2.1.symm hPath.2.2.symm
  exact hAway page site body robots hPage hSite hReads (hFlag.trans hLinkable) hRobots link hLink hReturns

/-- The step lemma. -/
theorem noSelfLinks_step (hDb : db.Consistent) (hLinks : db.NoSelfLinks) {call : Call}
    (hAway : call.KeepsAway py input db) :
    let db' := ((call.session py input).run db).2
    db'.Consistent ∧ db'.NoSelfLinks := by
  by_cases hToogle : ∃ pk, call = .operation (.toogleIsLinkable pk)
  · obtain ⟨pk, rfl⟩ := hToogle
    exact noSelfLinks_toogle hDb hLinks pk
  · let w : Ledger (Nat × Address × Bool) := .ofDatabase Page.identity db hDb
    have hStart : identities.Holds w db :=
      Ledger.describes_ofDatabase _ hDb ((noSelfLinks_iff hDb).mp hLinks)
    have hAdmits (page : Page) (site : Site) (body : Str)
        (hPage : db.pageById page.idPage = some page)
        (hHosts : ∃ w', w ≤ w' ∧ identities.Hosts w' site) (hOf : site.idSite = page.site)
        (hReads : call.Reads py input site page body) :
        identities.AdmitsBody py input site page body := by
      obtain ⟨stored, hStored, hLoad⟩ := hDb.siteById (mem_of_lookup hPage).1
      obtain ⟨w', hw, hSiteIn⟩ := hHosts
      have hKeySite : stored.idSite = site.idSite := (mem_of_lookup hLoad).2.trans hOf.symm
      obtain rfl : stored = site := w'.keyed.eq (hw.2 hStored) hSiteIn hKeySite
      exact admitsBody_of_keepsAway hAway hPage hLoad hReads
    obtain ⟨w', -, hEnd⟩ := OpenDiscipline.call_run hStart trivial hAdmits
      fun pk hEq => absurd ⟨pk, hEq⟩ hToogle
    exact ⟨hEnd.consistent, (noSelfLinks_iff hEnd.consistent).mpr hEnd.linksJoin⟩

/-- The test of `can_be_deleted`, when no page links to itself. -/
theorem canBeDeleted_iff (hLinks : db.NoSelfLinks) (page : Page) :
    db.canBeDeleted page = true ↔
      ¬ ∃ l ∈ db.links, l.toPage = page.idPage ∧ l.fromPage ≠ page.idPage := by
  have hNone : db.canBeDeleted page = true ↔ ∀ l ∈ db.links, l.toPage ≠ page.idPage := by
    simp [Database.canBeDeleted, List.countP_eq_zero]
  rw [hNone]
  constructor
  · rintro h ⟨l, hl, hTo, -⟩
    exact h l hl hTo
  · intro h l hl hTo
    exact h ⟨l, hl, hTo, fun hFrom => hLinks l hl (hFrom.trans hTo.symm)⟩

/-- In a run in which no linkable page follows a link back to its own path and
query, no link joins a page to itself, and a page can be deleted exactly when no
other page links to it. -/
theorem no_self_links (py : Platform) (db : Database)
    (h : Call.Runs py (fun input db call => call.KeepsAway py input db) .empty db) :
    (∀ l ∈ db.links, l.fromPage ≠ l.toPage) ∧ ∀ page ∈ db.pages, (db.canBeDeleted page = true ↔
      ¬ ∃ l ∈ db.links, l.toPage = page.idPage ∧ l.fromPage ≠ page.idPage) := by
  have hInv : db.Consistent ∧ db.NoSelfLinks := by
    apply h.keeps fun db : Database => db.Consistent ∧ db.NoSelfLinks
    · exact fun input db call hInv hAway => noSelfLinks_step hInv.1 hInv.2 hAway
    · exact ⟨Database.consistent_empty, fun l hl => nomatch hl⟩
  exact ⟨hInv.2, fun page _ => canBeDeleted_iff hInv.2 page⟩

/-- The seed page and a page that it links to by a relative reference. -/
theorem no_self_links_relative :
    let db := Database.crawled "http://h/" "a.html"
    (∀ l ∈ db.links, l.fromPage ≠ l.toPage) ∧ ∀ page ∈ db.pages, (db.canBeDeleted page = true ↔
      ¬ ∃ l ∈ db.links, l.toPage = page.idPage ∧ l.fromPage ≠ page.idPage) := by
  apply no_self_links (.scripted [anchor "a.html"]) _ (Call.runs_crawled ?init ?update)
  case init => exact fun _ _ _ _ _ _ hReads => hReads.elim
  case update =>
    intro page site body robots hPage hSite hReads _ hRobots link hLink hReturns
    obtain ⟨hKey, rfl⟩ := hReads
    rw [hKey] at hPage
    obtain rfl : seedPage = page := Option.some.inj hPage
    obtain rfl : seedSite = site := Option.some.inj hSite
    obtain rfl : RobotFileParser.missing = robots := Except.ok.inj hRobots
    have hVisited : seedPage.visited (.scripted [anchor "a.html"]) seedSite .missing [] =
        ["a.html".toList] := by rfl
    rw [hVisited] at hLink
    obtain rfl := List.mem_singleton.mp hLink
    obtain ⟨_, -, -, relative, target, info, hRelative, hJoin, hInfo, hPath, -⟩ := hReturns
    obtain rfl : "/".toList = relative := Except.ok.inj hRelative
    obtain rfl : "/a.html".toList = target := Option.some.inj hJoin
    obtain rfl : _ = info := Option.some.inj hInfo
    cases hPath

/-- The link to the top of the page, followed by the seed page. -/
theorem self_link_top :
    Call.Runs (.scripted [anchor "#top"]) (fun _ _ _ => True) .empty (.crawled "http://h/" "#top") ∧
    (∃ l ∈ (Database.crawled "http://h/" "#top").links, l.fromPage = l.toPage) ∧
    ∃ page ∈ (Database.crawled "http://h/" "#top").pages,
      (Database.crawled "http://h/" "#top").canBeDeleted page = false ∧
      ¬ ∃ l ∈ (Database.crawled "http://h/" "#top").links,
        l.toPage = page.idPage ∧ l.fromPage ≠ page.idPage :=
  ⟨Call.runs_crawled trivial trivial, by decide, by decide⟩

end Spidercheck
