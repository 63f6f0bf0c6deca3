import Spidercheck.Model.Saving

/-! Seeding. `init_site` saves a site, and with it the first page of its frontier,
which is not checked and has the status `-1`. -/
namespace Spidercheck

open Text Url Execution Relational

variable {py : Platform} {input : Input} {db db' : Database} {site : Site} {url name : Str}
  {info : ParseResult}

namespace Database
variable (db : Database)

def newSite (now : Time) (name : Str) (info : ParseResult) : Site :=
  { Site.new name info with
    idSite := db.nextSite
    createdAt := now }

def seedOf (stamp : Nat → Time) (site : Site) : Page :=
  { Page.new site.idSite site.path [] with
    status := -1
    idPage := db.nextPage
    createdAt := stamp db.nextPage }

def withSite (site : Site) : Database :=
  { db with sites := db.sites ++ [site], nextSite := db.nextSite + 1 }

/-- The database with a new site and its first page. -/
def seeding (stamp : Nat → Time) (site : Site) : Database :=
  (db.withSite site).withPage (db.seedOf stamp site)

end Database

theorem seedOf_fits {stamp : Nat → Time} (h : site.fits = true) : (db.seedOf stamp site).fits = true := by
  simp only [Site.fits, Bool.and_eq_true] at h
  simp [Database.seedOf, Page.new, Page.fits, h.2]

theorem Database.Consistent.withSite (hDb : db.Consistent) {now : Time}
    (hNone : db.siteViolation (db.newSite now name info) = none) :
    (db.withSite (db.newSite now name info)).Consistent := by
  have hInsert : db.insertSite now (Site.new name info) =
      (.ok (db.newSite now name info), db.withSite (db.newSite now name info)) := by
    show accept (db.siteViolation (db.newSite now name info)) db _ _ = _
    rw [hNone]
    rfl
  have hKept := hDb.insertSite now (Site.new name info)
  rwa [hInsert] at hKept

/-- No page of the database belongs to the new site. -/
theorem pagesOf_newSite (hDb : db.Consistent) {p : Page} (hp : p ∈ db.pages) : p.site ≠ db.nextSite := by
  intro hSite
  obtain ⟨s, hs, hKey⟩ := hDb.pageSites p hp
  have := hDb.sitesFresh s hs
  omega

/-- The first page violates nothing. -/
theorem insertPage_seed (hDb : db.Consistent) {now : Time} {stamp : Nat → Time}
    (hNone : db.siteViolation (db.newSite now name info) = none) :
    (db.withSite (db.newSite now name info)).insertPage stamp db.nextPage
      { Page.new db.nextSite info.path [] with status := -1 } =
        (.ok (db.seedOf stamp (db.newSite now name info)),
          db.seeding stamp (db.newSite now name info)) := by
  have hSites := hDb.withSite hNone
  have hFits : (db.newSite now name info).fits = true := (Database.siteViolation_eq_none.mp hNone).1
  have hViolation : (db.withSite (db.newSite now name info)).pageViolation
      (db.seedOf stamp (db.newSite now name info)) = none := by
    apply Database.pageViolation_eq_none.mpr
    refine ⟨seedOf_fits hFits, ⟨db.newSite now name info, ?_, rfl⟩, ?_⟩
    · exact List.mem_append_right _ (List.mem_singleton_self _)
    · intro p hp _ hPath
      exact pagesOf_newSite hDb hp (congrArg Prod.fst hPath)
  show accept (if (db.withSite (db.newSite now name info)).hasPage db.nextPage then some uniqueError
    else (db.withSite (db.newSite now name info)).pageViolation
      (db.seedOf stamp (db.newSite now name info))) _ _ _ = _
  rw [show (db.withSite (db.newSite now name info)).hasPage db.nextPage = false from
    hSites.hasPage_nextPage, hViolation]
  rfl

/-- A name and an address that are free, and that fit, give a site. -/
theorem run_initSite (hDb : db.Consistent) (hName : db.siteByName name = none)
    (hInfo : urlparse py.netlocCheck url [] = some info)
    (hNone : db.siteViolation (db.newSite input.justNow name info) = none) :
    (initSite py input url name).run db =
      (.ok (db.newSite input.justNow name info),
        db.seeding input.stamp (db.newSite input.justNow name info)) := by
  rw [initSite, Session.selectFrom, Program.run_select_bind, hName, hInfo]
  have hInsert : (Session.insertSite input.justNow (Site.new name info)).run db =
      (.ok (db.newSite input.justNow name info), db.withSite (db.newSite input.justNow name info)) := by
    show accept (db.siteViolation (db.newSite input.justNow name info)) db _ _ = _
    rw [hNone]
    rfl
  have hPage : (Session.insertPage input.stamp { Page.new db.nextSite info.path [] with status := -1 }).run
      (db.withSite (db.newSite input.justNow name info)) = _ := insertPage_seed hDb hNone
  simp only [Option.isSome_none, Bool.false_eq_true, ↓reduceIte, orValueError, Program.run_liftExcept_ok_bind]
  rw [Program.run_bind_ok _ _ _ hInsert]
  exact Program.run_bind_ok _ _ _ hPage

theorem run_initSite_of_violation {e : PyError} (hName : db.siteByName name = none)
    (hInfo : urlparse py.netlocCheck url [] = some info)
    (hSome : db.siteViolation (db.newSite input.justNow name info) = some e) :
    (initSite py input url name).run db = (.error e, db) := by
  rw [initSite, Session.selectFrom, Program.run_select_bind, hName, hInfo]
  have hInsert : (Session.insertSite input.justNow (Site.new name info)).run db = (.error e, db) := by
    show accept (db.siteViolation (db.newSite input.justNow name info)) db _ _ = _
    rw [hSome]
    rfl
  simp only [Option.isSome_none, Bool.false_eq_true, ↓reduceIte, orValueError, Program.run_liftExcept_ok_bind]
  exact Program.run_bind_error _ _ _ hInsert

/-- What `init_site` has met and done when it returns. -/
theorem initSite_returns (hDb : db.Consistent)
    (hRun : (initSite py input url name).run db = (.ok site, db')) :
    ∃ info, urlparse py.netlocCheck url [] = some info ∧ db.siteViolation (db.newSite input.justNow name info) = none ∧
      site = db.newSite input.justNow name info ∧ db' = db.seeding input.stamp site := by
  cases hName : db.siteByName name with
  | some taken =>
      rw [initSite, Session.selectFrom, Program.run_select_bind, hName] at hRun
      cases hRun
  | none =>
      cases hInfo : urlparse py.netlocCheck url [] with
      | none =>
          rw [initSite, Session.selectFrom, Program.run_select_bind, hName, hInfo] at hRun
          cases hRun
      | some info =>
          refine ⟨info, rfl, ?_⟩
          cases hViolation : db.siteViolation (db.newSite input.justNow name info) with
          | some e =>
              rw [run_initSite_of_violation hName hInfo hViolation] at hRun
              cases hRun
          | none =>
              rw [run_initSite hDb hName hInfo hViolation] at hRun
              obtain ⟨rfl, rfl⟩ := by simpa using hRun
              exact ⟨rfl, rfl, rfl⟩

/-- The database after `init_site` is consistent. -/
theorem Database.Consistent.seeding (hDb : db.Consistent) {now : Time} {stamp : Nat → Time}
    (hNone : db.siteViolation (db.newSite now name info) = none) :
    (db.seeding stamp (db.newSite now name info)).Consistent := by
  have hKept := (hDb.withSite hNone).insertPage stamp db.nextPage
    { Page.new db.nextSite info.path [] with status := -1 }
  rwa [insertPage_seed hDb hNone] at hKept

/-- The new site has one page. -/
theorem pagesOf_seeding (hDb : db.Consistent) {stamp : Nat → Time} (hKey : site.idSite = db.nextSite) :
    (db.seeding stamp site).pagesOf site = [db.seedOf stamp site] := by
  have hOthers : db.pages.filter (·.site == site.idSite) = [] := by
    rw [List.filter_eq_nil_iff]
    intro p hp
    simpa [hKey] using pagesOf_newSite hDb hp
  have hOwn : ((db.seedOf stamp site).site == site.idSite) = true := by simp [Database.seedOf, Page.new]
  show (db.pages ++ [db.seedOf stamp site]).filter (·.site == site.idSite) = _
  rw [List.filter_append, hOthers, List.filter_singleton, hOwn]
  rfl

end Spidercheck
