import Spidercheck.Model.Consistency

/-! Loading and saving rows that are stored: what a session does when it reads
the site of a page, and when it saves a changed copy of a stored page. -/
namespace Spidercheck

open Text Url Execution Relational

variable {db db' : Database} {page row : Page} {site : Site} {stamp : Nat → Time}

namespace Database

/-- Every stored page has its site. -/
theorem Consistent.siteById (h : db.Consistent) (hPage : page ∈ db.pages) :
    ∃ site ∈ db.sites, db.siteById page.site = some site := by
  obtain ⟨site, hSite, hEq⟩ := h.pageSites page hPage
  exact ⟨site, hSite, hEq ▸ h.sites.lookup_eq hSite⟩

theorem Consistent.pageById (h : db.Consistent) (hPage : page ∈ db.pages) :
    db.pageById page.idPage = some page :=
  h.pages.lookup_eq hPage

/-- A stored page is the only row with its address. -/
theorem Consistent.pageViolation_of_stored (h : db.Consistent)
    (hStored : ∃ p ∈ db.pages, p.idPage = row.idPage ∧ p.fullPath = row.fullPath) :
    db.pageViolation row = if row.fits = true then none else some dataError := by
  obtain ⟨p, hp, hKey, hPath⟩ := hStored
  by_cases hFits : row.fits = true
  · simp only [hFits, ↓reduceIte, pageViolation_eq_none, true_and]
    constructor
    · obtain ⟨s, hs, hEq⟩ := h.pageSites p hp
      exact ⟨s, hs, hEq.trans (congrArg Prod.fst hPath)⟩
    · intro q hq hNe hSame
      exact hNe (h.fullPaths.eq hq hp (hSame.trans hPath.symm) ▸ hKey)
  · simp [pageViolation, firstError, hFits]

/-- Saving a row over a stored page fails only where the row does not fit. -/
theorem Consistent.updatePage_of_stored (h : db.Consistent)
    (hStored : ∃ p ∈ db.pages, p.idPage = row.idPage ∧ p.fullPath = row.fullPath) :
    db.updatePage row =
      if row.fits = true then (.ok true, { db with pages := replace Page.idPage row db.pages })
      else (.error dataError, db) := by
  have hHas : db.hasPage row.idPage = true := by
    obtain ⟨p, hp, hKey, -⟩ := hStored
    exact hasPage_iff.mpr ⟨p, hp, hKey⟩
  rw [Database.updatePage, if_pos hHas, h.pageViolation_of_stored hStored]
  split <;> rfl

end Database

theorem run_siteOf (h : db.siteById page.site = some site) :
    (siteOf page).run db = (.ok site, db) := by
  simp [siteOf, Session.selectFrom, h]

theorem run_siteOf_none (h : db.siteById page.site = none) :
    ∃ e, (siteOf page).run db = (.error e, db) := by
  simp [siteOf, Session.selectFrom, h]

/-- Saving a copy of a stored page replaces its row, unless a column overflows. -/
theorem run_savePage_of_stored (h : db.Consistent) (stamp : Nat → Time)
    (hStored : ∃ p ∈ db.pages, p.idPage = row.idPage ∧ p.fullPath = row.fullPath) :
    (Session.savePage stamp row).run db =
      if row.fits = true then (.ok (), { db with pages := replace Page.idPage row db.pages })
      else (.error dataError, db) := by
  rw [Session.savePage, Program.run_bind, Program.run_statement, h.updatePage_of_stored hStored]
  by_cases hFits : row.fits = true
  · rw [if_pos hFits, if_pos hFits]
    rfl
  · rw [if_neg hFits, if_neg hFits]

/-- The database with the row in the place of the one with its key. -/
def Database.rewrite (db : Database) (row : Page) : Database :=
  { db with pages := replace Page.idPage row db.pages }

namespace Database

theorem mem_rewrite (hPage : page ∈ db.pages) (hKey : page.idPage = row.idPage) :
    row ∈ (db.rewrite row).pages :=
  mem_replace.mpr (.inl ⟨rfl, page, hPage, hKey⟩)

/-- What saving a copy of a stored page does when it returns. -/
theorem Consistent.rewrite_of_savePage (h : db.Consistent) (hPage : page ∈ db.pages)
    (hKey : page.idPage = row.idPage) (hPath : page.fullPath = row.fullPath) {saved : Unit}
    (hRun : (Session.savePage stamp row).run db = (.ok saved, db')) :
    db' = db.rewrite row ∧ (db.rewrite row).Consistent := by
  have hStored : ∃ p ∈ db.pages, p.idPage = row.idPage ∧ p.fullPath = row.fullPath :=
    ⟨page, hPage, hKey, hPath⟩
  have hConsistent : (db.updatePage row).2.Consistent := h.updatePage row
  rw [h.updatePage_of_stored hStored] at hConsistent
  rw [run_savePage_of_stored h stamp hStored] at hRun
  by_cases hFits : row.fits = true
  · rw [if_pos hFits] at hRun hConsistent
    exact ⟨(Prod.mk.inj hRun).2.symm, hConsistent⟩
  · rw [if_neg hFits] at hRun
    cases hRun

end Database

section LoadOrCreate
variable {subpath params : Str}

def Site.newRow (site : Site) (stamp : Nat → Time) (subpath params : Str) (pk : Nat) : Page :=
  { Page.new site.idSite subpath params with
    idPage := pk
    createdAt := stamp pk }

namespace Database

def pageAt (db : Database) (site : Site) (subpath params : Str) : Option Page :=
  lookup Page.fullPath (site.idSite, subpath, params) db.pages

def newPage (db : Database) (stamp : Nat → Time) (site : Site) (subpath params : Str) : Page :=
  site.newRow stamp subpath params db.nextPage

def addRow (db : Database) (row : Page) : Database :=
  { db with pages := db.pages ++ [row], nextPage := row.idPage + 1 }

/-- The page at an address is stored under it. -/
theorem mem_of_pageAt (h : db.pageAt site subpath params = some page) :
    page ∈ db.pages ∧ page.fullPath = (site.idSite, subpath, params) :=
  mem_of_lookup h

/-- The first page with an address is the only one. -/
theorem Consistent.first_eq_pageAt (h : db.Consistent) :
    firstBy Page.createdAt
      ((db.pagesOf site).filter fun p => p.subpath == subpath && p.params == params) =
      db.pageAt site subpath params := by
  have hFilter : ((db.pagesOf site).filter fun p => p.subpath == subpath && p.params == params) =
      db.pages.filter fun p => p.fullPath = (site.idSite, subpath, params) := by
    rw [pagesOf, List.filter_filter]
    refine List.filter_congr fun p _ => ?_
    simp [Page.fullPath, Bool.and_comm, Bool.beq_eq_decide_eq]
  rw [hFilter, h.fullPaths.filter_eq, pageAt]
  cases lookup Page.fullPath (site.idSite, subpath, params) db.pages with
  | none => rfl
  | some found => rfl

/-- The key of the sequence is free. -/
theorem Consistent.hasPage_nextPage (h : db.Consistent) : db.hasPage db.nextPage = false := by
  rw [Bool.eq_false_iff]
  intro hHas
  obtain ⟨p, hp, hKey⟩ := hasPage_iff.mp hHas
  have := h.pagesFresh p hp
  omega

/-- A free address gets a page, if it fits. -/
theorem Consistent.insertPage_new (h : db.Consistent) (hSite : site ∈ db.sites)
    (hNone : db.pageAt site subpath params = none) :
    db.insertPage stamp db.nextPage (Page.new site.idSite subpath params) =
      if (db.newPage stamp site subpath params).fits = true then
        (.ok (db.newPage stamp site subpath params), db.addRow (db.newPage stamp site subpath params))
      else (.error dataError, db) := by
  have hUnique : ∀ p ∈ db.pages, p.fullPath ≠ (site.idSite, subpath, params) :=
    lookup_eq_none.mp hNone
  by_cases hFits : (db.newPage stamp site subpath params).fits = true
  · have hViolation : db.pageViolation (db.newPage stamp site subpath params) = none :=
      pageViolation_eq_none.mpr ⟨hFits, ⟨site, hSite, rfl⟩, fun p hp _ => hUnique p hp⟩
    rw [if_pos hFits]
    change accept (if db.hasPage db.nextPage then some uniqueError
      else db.pageViolation (db.newPage stamp site subpath params)) db _ _ = _
    rw [h.hasPage_nextPage, hViolation]
    simp [accept, addRow, newPage, Site.newRow]
  · have hViolation : db.pageViolation (db.newPage stamp site subpath params) = some dataError := by
      simp [pageViolation, firstError, hFits]
    rw [if_neg hFits]
    change accept (if db.hasPage db.nextPage then some uniqueError
      else db.pageViolation (db.newPage stamp site subpath params)) db _ _ = _
    rw [h.hasPage_nextPage, hViolation]
    rfl

end Database

/-- `load_or_create` without others: find the page, or insert it. -/
theorem run_loadOrCreate (h : db.Consistent) (hSite : site ∈ db.sites) :
    (site.loadOrCreate stamp subpath params).run db =
      match db.pageAt site subpath params with
      | some found => (.ok (found, false), db)
      | none =>
        if (db.newPage stamp site subpath params).fits = true then
          (.ok (db.newPage stamp site subpath params, true),
            db.addRow (db.newPage stamp site subpath params))
        else (.error dataError, db) := by
  rw [Site.loadOrCreate, Session.selectFrom, Program.run_select_bind, h.first_eq_pageAt]
  cases hFound : db.pageAt site subpath params with
  | some found => rfl
  | none => exact Program.run_bind_ite _ _ _ (h.insertPage_new hSite hFound)

/-- Only the path and the query of a new page may be too wide. -/
theorem newPage_fits : (db.newPage stamp site subpath params).fits = true ↔
    storable 280 subpath = true ∧ storable 1024 params = true := by
  simp [Database.newPage, Site.newRow, Page.new, Page.fits]

variable (stamp) in
/-- What `add_page` can do: refuse the URL, find its page, create it, or fail to store it. -/
theorem run_addPage (h : db.Consistent) (hSite : site ∈ db.sites) (py : Platform) (url : Str) :
    (urlparse py.netlocCheck url [] = none ∧
      ∃ e, (site.addPage py stamp url).run db = (.error e, db)) ∨
    ∃ info, urlparse py.netlocCheck url [] = some info ∧
      ((∃ found, db.pageAt site info.path info.query = some found ∧
        (site.addPage py stamp url).run db = (.ok (found, false), db)) ∨
      db.pageAt site info.path info.query = none ∧
        (storable 280 info.path = true ∧ storable 1024 info.query = true) ∧
        (site.addPage py stamp url).run db =
          (.ok (db.newPage stamp site info.path info.query, true),
            db.addRow (db.newPage stamp site info.path info.query)) ∨
      ¬ (storable 280 info.path = true ∧ storable 1024 info.query = true) ∧
        (site.addPage py stamp url).run db = (.error dataError, db)) := by
  cases hInfo : urlparse py.netlocCheck url [] with
  | none =>
      refine .inl ⟨rfl, valueError "Invalid IPv6 URL", ?_⟩
      simp [Site.addPage, hInfo, orValueError]
  | some info =>
      have hRun : (site.addPage py stamp url).run db =
          (site.loadOrCreate stamp info.path info.query).run db := by
        simp [Site.addPage, hInfo, orValueError]
      refine .inr ⟨info, rfl, ?_⟩
      rw [hRun, run_loadOrCreate h hSite]
      cases hFound : db.pageAt site info.path info.query with
      | some found => exact .inl ⟨found, rfl, rfl⟩
      | none =>
          by_cases hFits : (db.newPage stamp site info.path info.query).fits = true
          · exact .inr (.inl ⟨rfl, newPage_fits.mp hFits, by simp [hFits]⟩)
          · exact .inr (.inr ⟨mt newPage_fits.mpr hFits, by simp [hFits]⟩)

/-- A page that `add_page` returned is stored under its address, and the other pages stay. -/
theorem addPage_ok (h : db.Consistent) (hSite : site ∈ db.sites) {py : Platform} {url : Str}
    {target : Page} {created : Bool} {db' : Database}
    (hAdd : (site.addPage py stamp url).run db = (.ok (target, created), db')) :
    (∃ new, db'.pages = db.pages ++ new) ∧
      ∃ info, urlparse py.netlocCheck url [] = some info ∧
        db'.pageAt site info.path info.query = some target := by
  rcases run_addPage stamp h hSite py url with ⟨-, e, hRun⟩ | ⟨info, hInfo, hCases⟩
  · simp [hRun] at hAdd
  · rcases hCases with ⟨found, hFound, hRun⟩ | ⟨hNone, -, hRun⟩ | ⟨-, hRun⟩
    · rw [hRun] at hAdd
      obtain ⟨⟨rfl, -⟩, rfl⟩ := by simpa using hAdd
      exact ⟨⟨[], by simp⟩, info, hInfo, hFound⟩
    · rw [hRun] at hAdd
      obtain ⟨⟨rfl, -⟩, rfl⟩ := by simpa using hAdd
      refine ⟨⟨_, rfl⟩, info, hInfo, ?_⟩
      have hLookup : lookup Page.fullPath (site.idSite, info.path, info.query) db.pages = none := hNone
      simp only [lookup, List.find?_eq_none] at hLookup
      simp only [Database.pageAt, Database.addRow, lookup]
      rw [List.find?_append, List.find?_eq_none.mpr hLookup]
      simp [Database.newPage, Site.newRow, Page.new, Page.fullPath]
    · simp [hRun] at hAdd

end LoadOrCreate

section Load
variable {py : Platform} {input : Input} {Returned : Type}

/-- A call for a page that is not there raises at once. -/
theorem run_loadPage_bind (pk : Nat) (k : Page → Session Returned) :
    (loadPage pk >>= k).run db = match db.pageById pk with
      | some page => (k page).run db
      | none => (.error unknownPage, db) := by
  rw [Program.run_bind, loadPage, Session.selectFrom, Program.run_select_bind]
  cases db.pageById pk with
  | some page => rfl
  | none => rfl

@[simp] theorem getFullUrl_marked (now : Time) :
    (page.marked now).getFullUrl py site = page.getFullUrl py site := rfl

/-- A check without others, from the answer of `is_valid` on. -/
theorem run_checkPageWith (hSite : db.siteById page.site = some site)
    (answer : Site → Page → Except PyError (Result Payload)) :
    (checkPageWith answer py input page).run db =
      match page.getFullUrl py site, answer site (page.marked input.justNow) with
      | .error e, _ => (.error e, db)
      | .ok _, .error e => (.error e, db)
      | .ok url, .ok r => (checkAnswer py input (page.marked input.justNow) site url r).run db := by
  have hLoad : (siteOf (page.marked input.justNow)).run db = (.ok site, db) := run_siteOf hSite
  rw [checkPageWith]
  simp only [Program.run_bind_ok _ _ _ hLoad, getFullUrl_marked]
  cases page.getFullUrl py site with
  | error e => rfl
  | ok url =>
      cases answer site (page.marked input.justNow) with
      | error e => rfl
      | ok r => rfl

theorem run_checkPageWith_none (hSite : db.siteById page.site = none)
    (answer : Site → Page → Except PyError (Result Payload)) :
    ∃ e, (checkPageWith answer py input page).run db = (.error e, db) := by
  obtain ⟨e, hLoad⟩ : ∃ e, (siteOf (page.marked input.justNow)).run db = (.error e, db) :=
    run_siteOf_none hSite
  exact ⟨e, Program.run_bind_error _ _ _ hLoad⟩

end Load

end Spidercheck
