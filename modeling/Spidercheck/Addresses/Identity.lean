import Spidercheck.Model.Operations
import Spidercheck.Url.Parsing

/-! One page, one URL. The rows of a site have different paths or queries, and
their full URLs differ too as long as every stored path is the one that it is
rejoined to. -/
namespace Spidercheck

open Text Url Execution Relational

variable {py : Platform} {db : Database} {site : Site} {page : Page}

/-- Rejoining a stored path to the path of the site gives the same path. -/
def Settles (py : Platform) (site : Site) (subpath _params : Str) : Prop :=
  Rooted subpath ∧ urljoin py.netlocCheck site.path subpath = some subpath

/-- A settled address whose path ends where the query begins. -/
def Identifies (py : Platform) (site : Site) (subpath params : Str) : Prop :=
  Settles py site subpath params ∧ '?' ∉ subpath

/-- A parsed path ends in front of the query. -/
theorem notMem_path_urlparse {url : Str} {info : ParseResult}
    (h : urlparse py.netlocCheck url [] = some info) : '?' ∉ info.path := by
  intro hMem
  exact (legible_toSplit h).pathQuery (List.mem_append_left _ hMem)

theorem Operation.Meets.identifies {input : Input} {op : Operation}
    (h : op.Meets py (Settles py) input db) : op.Meets py (Identifies py) input db :=
  ⟨fun site url info hHands hInfo => ⟨h.1 site url info hHands hInfo, notMem_path_urlparse hInfo⟩,
    fun url name info hEq hInfo => ⟨h.2 url name info hEq hInfo, notMem_path_urlparse hInfo⟩⟩

/-- A run under one condition is a run under any weaker one. -/
theorem Runs.mono {Condition Condition' : Input → Database → Operation → Prop} {db' : Database}
    (h : Runs py Condition db db')
    (hImp : ∀ input db op, Condition input db op → Condition' input db op) :
    Runs py Condition' db db' := by
  induction h with
  | refl => exact .refl _
  | step input op before hMeets ih => exact .step input op ih (hImp _ _ _ hMeets)

/-- The full URL of a page whose address is settled. -/
theorem getFullUrl_of_settles (h : Settles py site page.subpath page.params) :
    page.getFullUrl py site =
      .ok (locator site.scheme site.netloc page.subpath ++ marked '?' page.params) := by
  simp [Page.getFullUrl, h.2, orValueError, urlunparse, urlunsplit, marked]

/-- Two different addresses that identify their pages have different URLs. -/
theorem getFullUrl_inj {p q : Page} (hp : Identifies py site p.subpath p.params)
    (hq : Identifies py site q.subpath q.params) (h : p.getFullUrl py site = q.getFullUrl py site) :
    p.subpath = q.subpath ∧ p.params = q.params := by
  rw [getFullUrl_of_settles hp.1, getFullUrl_of_settles hq.1, Except.ok.injEq] at h
  exact locator_append_marked_inj hp.1.1 hq.1.1 hp.2 hq.2 h

/-- In a run that stores settled paths only, different pages of a site have different URLs. -/
theorem fullUrls_distinct (py : Platform) (db : Database)
    (h : Runs py (fun input db op => op.Meets py (Settles py) input db) .empty db) :
    ∀ site ∈ db.sites, ∀ p ∈ db.pages, ∀ q ∈ db.pages, p.site = site.idSite → q.site = site.idSite →
      p ≠ q → p.getFullUrl py site ≠ q.getFullUrl py site := by
  intro site hSite p hp q hq hpSite hqSite hNe hSame
  have hRun : Runs py (fun input db op => op.Meets py (Identifies py) input db) .empty db :=
    h.mono fun _ _ _ hMeets => hMeets.identifies
  obtain ⟨hDb, hAll⟩ := hRun.allGood Database.consistent_empty allGood_empty
  obtain ⟨hSubpath, hParams⟩ := getFullUrl_inj (hAll p hp site hSite hpSite.symm)
    (hAll q hq site hSite hqSite.symm) hSame
  have hPath : p.fullPath = q.fullPath := by
    rw [Page.fullPath, Page.fullPath, hSubpath, hParams, hpSite, hqSite]
  exact hNe (hDb.fullPaths.eq hp hq hPath)

def anchor (href : Str) : StartTag := { tag := "a", attrs := [("href", some href)] }

/-- A call that nothing answers. -/
def quiet : Input := .scripted (.raised dataError)

def Database.started (seed href : Str) : Database :=
  (((Operation.initSite seed "s").session (.scripted [anchor href]) quiet).run .empty).2

def Database.crawled (seed href : Str) : Database :=
  (((Operation.updateLinks 1 []).session (.scripted [anchor href]) quiet).run (.started seed href)).2

theorem runs_crawled {Condition : Input → Database → Operation → Prop} {seed href : Str}
    (hInit : Condition quiet .empty (.initSite seed "s"))
    (hUpdate : Condition quiet (.started seed href) (.updateLinks 1 [])) :
    Runs (.scripted [anchor href]) Condition .empty (.crawled seed href) :=
  .step quiet (.updateLinks 1 []) (.step quiet (.initSite seed "s") (.refl _) hInit) hUpdate

def linkedPage (subpath params : Str) : Page :=
  { Page.new 1 subpath params with idPage := 2, createdAt := 2 }

/-- The seed page and a page that it links to by a relative reference. -/
theorem fullUrls_distinct_relative :
    seedPage.getFullUrl (.scripted [anchor "a.html"]) seedSite ≠
      (linkedPage "/a.html" []).getFullUrl (.scripted [anchor "a.html"]) seedSite := by
  apply fullUrls_distinct (.scripted [anchor "a.html"]) (.crawled "http://h/" "a.html")
    (runs_crawled ?init ?update) seedSite (by decide) _ (by decide) _ (by decide) rfl rfl (by decide)
  case init =>
    refine ⟨fun site url info hHands => hHands.elim, ?_⟩
    intro url name info hEq hInfo
    obtain ⟨rfl, rfl⟩ := by simpa using hEq
    obtain rfl : _ = info := Option.some.inj hInfo
    exact ⟨by decide, by rfl⟩
  case update =>
    refine ⟨?_, fun url name info hEq => nomatch hEq⟩
    rintro site url info ⟨page, hPage, hSite, hUrl⟩ hInfo
    obtain rfl : seedPage = page := Option.some.inj hPage
    obtain rfl : seedSite = site := Option.some.inj hSite
    obtain rfl : url = "/a.html".toList := by
      have hYielded : (seedPage.getAllValidLinks (.scripted [anchor "a.html"]) seedSite
        quiet.robots []).yielded = ["/a.html".toList] := by rfl
      rw [hYielded] at hUrl
      exact List.mem_singleton.mp hUrl
    obtain rfl : _ = info := Option.some.inj hInfo
    exact ⟨by decide, by rfl⟩

/-- A link to the host without a path gives the seed page a second row. -/
theorem fullUrls_collide : ∃ db, Reachable (.scripted [anchor "http://h"]) db ∧
    ∃ site ∈ db.sites, ∃ p ∈ db.pages, ∃ q ∈ db.pages, p.site = site.idSite ∧ q.site = site.idSite ∧
      p ≠ q ∧ p.getFullUrl (.scripted [anchor "http://h"]) site =
        q.getFullUrl (.scripted [anchor "http://h"]) site :=
  ⟨.crawled "http://h/" "http://h", runs_crawled trivial trivial, seedSite, by decide, seedPage,
    by decide, linkedPage [] [], by decide, rfl, rfl, by decide, by rfl⟩

end Spidercheck
