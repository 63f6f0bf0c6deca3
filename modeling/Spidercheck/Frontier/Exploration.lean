import Spidercheck.Frontier.Discovery
import Spidercheck.Frontier.Selection
import Spidercheck.Graph.Exploration

/-! A crawl explores the graph of the pages of a site. The rows of the site are the
vertices that are known, the checked ones among them those that are expanded, and
the links of the database are the edges between them. The order in which the pages
are checked, and how often, makes no difference to what is found in the end. -/
namespace Spidercheck

open Text Url Robots Execution Relational Graph

variable {web : Web} {py : Platform} {db db' : Database} {site : Site} {page p q : Page}
  {seeds : Set Address}

namespace Site
variable (site : Site) (db : Database)

def addresses : Set Address := {a | ∃ p ∈ db.pagesOf site, p.fullPath = a}

def checkedAddresses : Set Address := {a | ∃ p ∈ site.checked db, p.fullPath = a}

end Site

/-- The links of the pages of a site are those that the web has for the checked ones. -/
def Mapped (web : Web) (py : Platform) (site : Site) (db : Database) : Prop :=
  ∀ p ∈ db.pagesOf site, ∀ q ∈ db.pages, db.Linked p.idPage q.idPage ↔
    p.isChecked = true ∧ q.isLinkable = true ∧ web.Leads py site p.fullPath q.fullPath

/-- Both ends of a link are stored. -/
theorem Database.Consistent.ends {u v : Nat} (h : db.Consistent) (hLinked : db.Linked u v) :
    (∃ p ∈ db.pages, p.idPage = u) ∧ ∃ q ∈ db.pages, q.idPage = v := by
  obtain ⟨l, hl, hEnds⟩ := hLinked
  obtain ⟨rfl, rfl⟩ := Prod.mk.inj hEnds
  exact ⟨h.linkFrom l hl, h.linkTo l hl⟩

namespace Visited

/-- A page keeps its address and may be linked to as before. -/
theorem kept (h : Visited web py site page db db') (hDb : db.Consistent) (hPage : page ∈ db.pages)
    (hp : p ∈ db.pages) (hq : q ∈ db'.pages) (hKey : q.idPage = p.idPage) :
    q.fullPath = p.fullPath ∧ q.isLinkable = p.isLinkable := by
  by_cases hSame : p.idPage = page.idPage
  · obtain ⟨row, hRow, hRowKey, hPath, hLinkable, -⟩ := h.row
    obtain rfl : p = page := hDb.pages.eq hp hPage hSame
    obtain rfl : q = row := h.consistent.pages.eq hq hRow (hKey.trans hRowKey.symm)
    exact ⟨hPath, hLinkable⟩
  · obtain rfl : q = p := h.consistent.pages.eq hq (h.others p hp hSame) hKey
    exact ⟨rfl, rfl⟩

theorem exists_kept (h : Visited web py site page db db') (hp : p ∈ db.pages) :
    ∃ q ∈ db'.pages, q.idPage = p.idPage := by
  by_cases hSame : p.idPage = page.idPage
  · obtain ⟨row, hRow, hRowKey, -⟩ := h.row
    exact ⟨row, hRow, hRowKey.trans hSame.symm⟩
  · exact ⟨p, h.others p hp hSame, rfl⟩

/-- A page after the check is the checked one, one that was there, or a new one. -/
theorem cases (h : Visited web py site page db db') (hp : p ∈ db'.pages) :
    (p.idPage = page.idPage ∧ p.fullPath = page.fullPath ∧ p.isChecked = true) ∨
      (p.idPage ≠ page.idPage ∧ p ∈ db.pages) ∨
      (p.idPage ≠ page.idPage ∧ p.isChecked = false ∧ web.Leads py site page.fullPath p.fullPath) := by
  by_cases hKey : p.idPage = page.idPage
  · obtain ⟨row, hRow, hRowKey, hPath, -, hChecked⟩ := h.row
    obtain rfl : p = row := h.consistent.pages.eq hp hRow (hKey.trans hRowKey.symm)
    exact .inl ⟨hKey, hPath, hChecked⟩
  · exact .inr ((h.added p hp hKey).imp (⟨hKey, ·⟩) (⟨hKey, ·⟩))

/-- A visit adds the addresses that the page leads to. -/
theorem addresses (h : Visited web py site page db db') (hDb : db.Consistent)
    (hPage : page ∈ db.pagesOf site) :
    site.addresses db' = site.addresses db ∪ {b | web.Leads py site page.fullPath b} := by
  obtain ⟨hStored, hOf⟩ := mem_pagesOf.mp hPage
  ext a
  constructor
  · rintro ⟨p, hp, rfl⟩
    obtain ⟨hp, hSite⟩ := mem_pagesOf.mp hp
    rcases h.cases hp with ⟨-, hPath, -⟩ | ⟨-, hOld⟩ | ⟨-, -, hLeads⟩
    · exact .inl ⟨page, hPage, hPath.symm⟩
    · exact .inl ⟨p, mem_pagesOf.mpr ⟨hOld, hSite⟩, rfl⟩
    · exact .inr hLeads
  · rintro (⟨p, hp, rfl⟩ | hLeads)
    · obtain ⟨hp, hSite⟩ := mem_pagesOf.mp hp
      obtain ⟨q, hq, hKey⟩ := h.exists_kept hp
      have hPath := (h.kept hDb hStored hp hq hKey).1
      have hSiteQ : q.site = p.site := congrArg Prod.fst hPath
      exact ⟨q, mem_pagesOf.mpr ⟨hq, hSiteQ.trans hSite⟩, hPath⟩
    · obtain ⟨q, hq, rfl⟩ := h.followed a hLeads
      exact ⟨q, mem_pagesOf.mpr ⟨hq, hLeads.idSite⟩, rfl⟩

/-- A visit checks the address of its page. -/
theorem checkedAddresses (h : Visited web py site page db db') (hDb : db.Consistent)
    (hPage : page ∈ db.pagesOf site) :
    site.checkedAddresses db' = insert page.fullPath (site.checkedAddresses db) := by
  obtain ⟨hStored, hOf⟩ := mem_pagesOf.mp hPage
  ext a
  constructor
  · rintro ⟨p, hp, rfl⟩
    obtain ⟨hp, hSite, hChecked⟩ := mem_checked.mp hp
    rcases h.cases hp with ⟨-, hPath, -⟩ | ⟨-, hOld⟩ | ⟨-, hUnchecked, -⟩
    · exact .inl hPath
    · exact .inr ⟨p, mem_checked.mpr ⟨hOld, hSite, hChecked⟩, rfl⟩
    · rw [hChecked] at hUnchecked
      cases hUnchecked
  · obtain ⟨row, hRow, hRowKey, hPath, -, hChecked⟩ := h.row
    have hSite : row.site = site.idSite := (congrArg Prod.fst hPath).trans hOf
    rintro (rfl | ⟨p, hp, rfl⟩)
    · exact ⟨row, mem_checked.mpr ⟨hRow, hSite, hChecked⟩, hPath⟩
    · obtain ⟨hp, hSiteP, hCheckedP⟩ := mem_checked.mp hp
      by_cases hKey : p.idPage = page.idPage
      · obtain rfl : p = page := hDb.pages.eq hp hStored hKey
        exact ⟨row, mem_checked.mpr ⟨hRow, hSite, hChecked⟩, hPath⟩
      · exact ⟨p, mem_checked.mpr ⟨h.others p hp hKey, hSiteP, hCheckedP⟩, rfl⟩

/-- A check is a step of the exploration. -/
theorem explored (h : Visited web py site page db db') (hDb : db.Consistent)
    (hPage : page ∈ db.pagesOf site)
    (hExplored : Explored (web.Leads py site) seeds (site.addresses db) (site.checkedAddresses db)) :
    Explored (web.Leads py site) seeds (site.addresses db') (site.checkedAddresses db') := by
  rw [h.addresses hDb hPage, h.checkedAddresses hDb hPage]
  exact hExplored.expand ⟨page, hPage, rfl⟩

/-- The links of another page are as before: where they are told by the pages that
were there, no new page is among their ends. -/
theorem row_kept (h : Visited web py site page db db') (hDb : db.Consistent) (hPage : page ∈ db.pages)
    (Ends : Address → Bool → Prop) {u : Nat} (hNe : u ≠ page.idPage)
    (hKnown : ∀ a s, Ends a s → ∃ q ∈ db.pages, q.fullPath = a)
    (hRow : ∀ q ∈ db.pages, db.Linked u q.idPage ↔ Ends q.fullPath q.isLinkable) :
    ∀ q ∈ db'.pages, db'.Linked u q.idPage ↔ Ends q.fullPath q.isLinkable := by
  intro q hq
  rw [h.elsewhere u q.idPage hNe]
  constructor
  · intro hLinked
    obtain ⟨-, q', hq', hKey⟩ := hDb.ends hLinked
    obtain ⟨hPath, hLinkable⟩ := h.kept hDb hPage hq' hq hKey.symm
    rw [hPath, hLinkable]
    exact (hRow q' hq').mp (hKey ▸ hLinked)
  · intro hEnds
    obtain ⟨q', hq', hSame⟩ := hKnown _ _ hEnds
    obtain ⟨q'', hq'', hKey⟩ := h.exists_kept hq'
    obtain ⟨hPath, hSwitch⟩ := h.kept hDb hPage hq' hq'' hKey
    obtain rfl : q'' = q := h.consistent.fullPaths.eq hq'' hq (hPath.trans hSame)
    rw [hKey]
    exact (hRow q' hq').mpr (hPath ▸ hSwitch ▸ hEnds)

/-- What a page leads to is known since it was checked. -/
theorem mapped (h : Visited web py site page db db') (hDb : db.Consistent)
    (hPage : page ∈ db.pagesOf site)
    (hExplored : Explored (web.Leads py site) seeds (site.addresses db) (site.checkedAddresses db))
    (hMapped : Mapped web py site db) : Mapped web py site db' := by
  intro p hp q hq
  obtain ⟨hStored, hOf⟩ := mem_pagesOf.mp hPage
  obtain ⟨hp, hSite⟩ := mem_pagesOf.mp hp
  rcases h.cases hp with ⟨hKey, hPath, hChecked⟩ | ⟨hNe, hOld⟩ | ⟨hNe, hUnchecked, -⟩
  · rw [hKey, hPath]
    constructor
    · intro hLinked
      rcases h.linked q hq hLinked with hLeads | ⟨hNone, hBefore⟩
      · exact ⟨hChecked, hLeads⟩
      · obtain ⟨-, q', hq', hTo⟩ := hDb.ends hBefore
        rw [← hTo] at hBefore
        exact absurd ((hMapped page hPage q' hq').mp hBefore).2.2 (hNone _)
    · rintro ⟨-, hLinkable, hLeads⟩
      exact h.joined q hq hLinkable hLeads
  · refine h.row_kept hDb hStored
      (fun a linkable => p.isChecked = true ∧ linkable = true ∧ web.Leads py site p.fullPath a)
      hNe ?_ (hMapped p (mem_pagesOf.mpr ⟨hOld, hSite⟩)) q hq
    rintro a linkable ⟨hChecked, -, hLeads⟩
    obtain ⟨q', hq', hSame⟩ := hExplored.followed p.fullPath
      ⟨p, mem_checked.mpr ⟨hOld, hSite, hChecked⟩, rfl⟩ a hLeads
    exact ⟨q', (mem_pagesOf.mp hq').1, hSame⟩
  · rw [h.elsewhere p.idPage q.idPage hNe]
    constructor
    · intro hLinked
      -- a page with links was there before
      obtain ⟨⟨p', hp', hKey⟩, q', hq', hTo⟩ := hDb.ends hLinked
      obtain rfl : p' = p := h.consistent.pages.eq (h.others p' hp' (hKey ▸ hNe)) hp hKey
      rw [← hTo] at hLinked
      rw [((hMapped p' (mem_pagesOf.mpr ⟨hp', hSite⟩) q' hq').mp hLinked).1] at hUnchecked
      cases hUnchecked
    · rintro ⟨hChecked, -⟩
      rw [hChecked] at hUnchecked
      cases hUnchecked

end Visited

/-- Some page of the site is checked, with the answers of the web, and the check returns. -/
def Visit (web : Web) (py : Platform) (site : Site) (db db' : Database) : Prop :=
  ∃ page ∈ db.pagesOf site, ∃ isValid input r, web.Serves site page isValid input ∧
    (checkPageWith isValid py input page).run db = (.ok r, db')

/-- Checks of pages of the site, whoever chooses them. -/
def Crawl (web : Web) (py : Platform) (site : Site) : Database → Database → Prop :=
  Relation.ReflTransGen (Visit web py site)

structure Charted (web : Web) (py : Platform) (site : Site) (seeds : Set Address) (db : Database) :
    Prop where
  consistent : db.Consistent
  stored : site ∈ db.sites
  explored : Explored (web.Leads py site) seeds (site.addresses db) (site.checkedAddresses db)
  mapped : Mapped web py site db

/-- The chart holds after a check of any page. -/
theorem Charted.visited (h : Charted web py site seeds db) (hPage : page ∈ db.pagesOf site)
    (hVisited : Visited web py site page db db') : Charted web py site seeds db' where
  consistent := hVisited.consistent
  stored := hVisited.sites ▸ h.stored
  explored := hVisited.explored h.consistent hPage h.explored
  mapped := hVisited.mapped h.consistent hPage h.explored h.mapped

theorem Charted.visit (h : Charted web py site seeds db) (hVisit : Visit web py site db db') :
    Charted web py site seeds db' := by
  obtain ⟨page, hPage, isValid, input, r, hServes, hRun⟩ := hVisit
  obtain ⟨hStored, hOf⟩ := mem_pagesOf.mp hPage
  exact h.visited hPage (visited_of_returns h.consistent hStored h.stored hOf hServes hRun)

/-- The run lemma. -/
theorem Charted.crawl (h : Charted web py site seeds db) (hCrawl : Crawl web py site db db') :
    Charted web py site seeds db' := by
  induction hCrawl with
  | refl => exact h
  | tail _ hVisit ih => exact ih.visit hVisit

/-- A site that was never checked, and whose pages link to nothing. -/
def Unvisited (site : Site) (db : Database) : Prop :=
  ∀ p ∈ db.pagesOf site, p.isChecked = false ∧ ∀ l ∈ db.links, l.fromPage ≠ p.idPage

/-- A site that was never checked is charted. -/
theorem Unvisited.charted (h : Unvisited site db) (hDb : db.Consistent) (hSite : site ∈ db.sites) :
    Charted web py site (site.addresses db) db where
  consistent := hDb
  stored := hSite
  explored := by
    have hNone : site.checkedAddresses db = ∅ := by
      rw [Set.eq_empty_iff_forall_notMem]
      rintro a ⟨p, hp, -⟩
      obtain ⟨hStored, hOf, hChecked⟩ := mem_checked.mp hp
      rw [(h p (mem_pagesOf.mpr ⟨hStored, hOf⟩)).1] at hChecked
      cases hChecked
    rw [hNone]
    exact explored_seeds
  mapped p hp q _ := by
    obtain ⟨hUnchecked, hNoLinks⟩ := h p hp
    constructor
    · rintro ⟨l, hl, hEnds⟩
      exact absurd (Prod.mk.inj hEnds).1 (hNoLinks l hl)
    · rintro ⟨hChecked, -⟩
      rw [hChecked] at hUnchecked
      cases hUnchecked

/-- With no page unchecked, all addresses are checked. -/
theorem addresses_subset_of_unchecked (h : site.unchecked db = []) :
    site.addresses db ⊆ site.checkedAddresses db := by
  rintro a ⟨p, hp, rfl⟩
  obtain ⟨hStored, hOf⟩ := mem_pagesOf.mp hp
  cases hMark : p.isChecked with
  | true => exact ⟨p, mem_checked.mpr ⟨hStored, hOf, hMark⟩, rfl⟩
  | false =>
      have hMem : p ∈ site.unchecked db := mem_unchecked.mpr ⟨hStored, hOf, hMark⟩
      rw [h] at hMem
      cases hMem

/-- A crawl finds nothing that the web does not lead to from the first pages of the
site; when no page is left unchecked it has found everything that it leads to; and
all along the links of the database are those that the web has between the pages
that were checked and the linkable pages that were found. -/
theorem crawl_explores (web : Web) (py : Platform) (site : Site) (db db' : Database)
    (hDb : db.Consistent) (hSite : site ∈ db.sites) (hFirst : Unvisited site db)
    (hCrawl : Crawl web py site db db') :
    site.addresses db' ⊆ Reach (web.Leads py site) (site.addresses db) ∧
    (site.unchecked db' = [] →
      site.addresses db' = Reach (web.Leads py site) (site.addresses db)) ∧
    ∀ p ∈ db'.pagesOf site, ∀ q ∈ db'.pages, db'.Linked p.idPage q.idPage ↔
      p.isChecked = true ∧ q.isLinkable = true ∧ web.Leads py site p.fullPath q.fullPath := by
  have hEnd : Charted web py site (site.addresses db) db' :=
    (hFirst.charted hDb hSite).crawl hCrawl
  refine ⟨hEnd.explored.reached, fun hNone => ?_, hEnd.mapped⟩
  exact hEnd.explored.complete (addresses_subset_of_unchecked hNone)

/-- A platform on which every HTML text has two links, and a web whose seed page is
such a text while its other pages are plain text. -/
def twoLinks : Platform :=
  .scripted [{ tag := "a", attrs := [("href".toList, some "/x".toList)] },
    { tag := "a", attrs := [("href".toList, some "y".toList)] }]

def smallWeb : Web where
  answer a :=
    let kind : Str := if a.2.1 = "/" then "text/html" else "text/plain"
    .ok (.success (.response ⟨200, [("content-type".toList, kind)], "http://h/"⟩))
  get _ := .response [] (.ok "<html><body></body></html>")
  robots := .ok RobotFileParser.missing

def smallInput : Input :=
  { Input.scripted (.raised dataError) with get := .response [] (.ok "<html><body></body></html>") }

def seedVisited : Database :=
  ((checkPageWith (fun _ page => smallWeb.answer page.fullPath) twoLinks smallInput seedPage).run .seeded).2

theorem visit_seedPage : Visit smallWeb twoLinks seedSite .seeded seedVisited :=
  ⟨seedPage, by decide, fun _ page => smallWeb.answer page.fullPath, smallInput, _, ⟨rfl, rfl, rfl⟩, rfl⟩

theorem crawl_explores_small :
    seedSite.addresses seedVisited ⊆ Reach (smallWeb.Leads twoLinks seedSite) (seedSite.addresses .seeded) ∧
    (seedSite.unchecked seedVisited = [] →
      seedSite.addresses seedVisited =
        Reach (smallWeb.Leads twoLinks seedSite) (seedSite.addresses .seeded)) ∧
    ∀ p ∈ seedVisited.pagesOf seedSite, ∀ q ∈ seedVisited.pages, seedVisited.Linked p.idPage q.idPage ↔
      p.isChecked = true ∧ q.isLinkable = true ∧ smallWeb.Leads twoLinks seedSite p.fullPath q.fullPath :=
  crawl_explores smallWeb twoLinks seedSite .seeded seedVisited Database.consistent_seeded (by decide)
    (by unfold Unvisited; decide) (.tail .refl visit_seedPage)

end Spidercheck
