import Spidercheck.Frontier.Selection

/-! The lists that a site is shown by. The queue is made of the unchecked pages,
but once all pages are checked it turns into the list of those. A checked page is
listed by its status, as an error or as one that is well. -/
namespace Spidercheck

open Text Relational

variable {db : Database} {site : Site} {page : Page}

structure SiteDetail where
  numPages : Nat
  numErrores : Nat
  numQueued : Nat
  numNoLinks : Nat
  numProcessed : Nat
  numScheduled : Nat
  deriving DecidableEq, Repr

def siteDetail (db : Database) (site : Site) : SiteDetail where
  numPages := (db.pagesOf site).length
  numErrores := (site.pagesWithErrors db).length
  numQueued := (site.allQueuedPages db).length
  numNoLinks := ((db.pagesOf site).filter (!·.isLinkable)).length
  numProcessed := (site.checked db).length
  numScheduled := (site.allScheduledPages db).length

inductive Listing where
  | queued
  | well
  | failing
  deriving DecidableEq, Repr

def Site.listed (site : Site) (db : Database) : Listing → List Page
  | .queued => site.allQueuedPages db
  | .well => (site.checked db).filter (·.isOk)
  | .failing => site.pagesWithErrors db

/-- While some page is unchecked, those are the queue. -/
theorem allQueuedPages_of_unchecked (h : site.unchecked db ≠ []) :
    site.allQueuedPages db = site.unchecked db := by
  rw [Site.allQueuedPages, if_pos (List.length_pos_iff.mpr h)]

/-- When none is, the checked pages are. -/
theorem allQueuedPages_of_checked (h : site.unchecked db = []) :
    site.allQueuedPages db = site.checked db := by
  rw [Site.allQueuedPages, if_neg (by simp [h])]

theorem checked_eq_pagesOf (h : site.unchecked db = []) : site.checked db = db.pagesOf site := by
  refine List.filter_eq_self.mpr fun p hp => ?_
  by_contra hMark
  have hMem : p ∈ site.unchecked db := List.mem_filter.mpr ⟨hp, by simpa using hMark⟩
  rw [h] at hMem
  cases hMem

/-- Every page is unchecked or checked, and not both. -/
theorem length_unchecked_add_checked (site : Site) (db : Database) :
    (site.unchecked db).length + (site.checked db).length = (db.pagesOf site).length := by
  rw [Nat.add_comm]
  exact (List.length_eq_length_filter_add _).symm

theorem isOk_iff : page.isOk = true ↔ 200 ≤ page.status ∧ page.status < 300 := by
  simp [Page.isOk]

/-- The two ranges of a status differ at 300 only. -/
theorem mem_pagesWithErrors_iff (hPage : page ∈ db.pagesOf site) (hChecked : page.isChecked = true)
    (hStatus : page.status ≠ 300) : page ∈ site.pagesWithErrors db ↔ page.isOk = false := by
  obtain ⟨hMem, hSite⟩ := mem_pagesOf.mp hPage
  rw [mem_pagesWithErrors, ← Bool.not_eq_true, isOk_iff]
  constructor
  · rintro ⟨-, -, -, hRange⟩
    omega
  · intro hRange
    exact ⟨hMem, hSite, hChecked, by omega⟩

/-- The good pages are those that were checked and answered. -/
theorem mem_well (hPage : page ∈ db.pagesOf site) :
    page ∈ site.listed db .well ↔ page.isChecked = true ∧ page.isOk = true := by
  obtain ⟨hMem, hSite⟩ := mem_pagesOf.mp hPage
  simp [Site.listed, mem_checked, hMem, hSite]

/-- A checked page is on one of the two lists that go by the status. -/
theorem existsUnique_of_checked (hPage : page ∈ db.pagesOf site) (hChecked : page.isChecked = true)
    (hStatus : page.status ≠ 300) : ∃! listing, listing ≠ .queued ∧ page ∈ site.listed db listing := by
  have hErrors := mem_pagesWithErrors_iff hPage hChecked hStatus
  cases hOk : page.isOk with
  | true =>
      refine ⟨.well, ⟨by decide, (mem_well hPage).mpr ⟨hChecked, hOk⟩⟩, ?_⟩
      rintro (_ | _ | _) ⟨hOther, hMem⟩
      · exact absurd rfl hOther
      · rfl
      · rw [hErrors.mp hMem] at hOk
        cases hOk
  | false =>
      refine ⟨.failing, ⟨by decide, hErrors.mpr hOk⟩, ?_⟩
      rintro (_ | _ | _) ⟨hOther, hMem⟩
      · exact absurd rfl hOther
      · rw [((mem_well hPage).mp hMem).2] at hOk
        cases hOk
      · rfl

/-- While a page is unchecked, every page is on exactly one of the three lists,
and the numbers of queued and processed pages add up to that of all. Once all
are checked, the queue is the list of all pages, each of which is also listed by
its status, once. A status of 300 is left out. -/
theorem pages_listed (db : Database) (site : Site)
    (hStatus : ∀ p ∈ db.pagesOf site, p.isChecked = true → p.status ≠ 300) :
    (∀ p ∈ db.pagesOf site, p.isChecked = true → (p ∈ site.pagesWithErrors db ↔ p.isOk = false)) ∧
    (site.unchecked db ≠ [] →
      (∀ p ∈ db.pagesOf site, ∃! listing, p ∈ site.listed db listing) ∧
      (siteDetail db site).numQueued + (siteDetail db site).numProcessed =
        (siteDetail db site).numPages) ∧
    (site.unchecked db = [] → site.listed db .queued = db.pagesOf site ∧
      (siteDetail db site).numProcessed = (siteDetail db site).numPages ∧
      ∀ p ∈ db.pagesOf site, ∃! listing, listing ≠ .queued ∧ p ∈ site.listed db listing) := by
  refine ⟨?_, ?_, ?_⟩
  · exact fun p hp hChecked => mem_pagesWithErrors_iff hp hChecked (hStatus p hp hChecked)
  · intro hSome
    have hQueue := allQueuedPages_of_unchecked hSome
    have hQueued (p : Page) (hp : p ∈ db.pagesOf site) :
        p ∈ site.listed db .queued ↔ p.isChecked = false := by
      rw [Site.listed, hQueue, Site.unchecked, List.mem_filter, Bool.not_eq_true']
      exact and_iff_right hp
    constructor
    · intro p hp
      cases hMark : p.isChecked with
      | true =>
          obtain ⟨listing, ⟨-, hMem⟩, hOnly⟩ := existsUnique_of_checked hp hMark (hStatus p hp hMark)
          refine ⟨listing, hMem, fun other hOther => hOnly other ⟨?_, hOther⟩⟩
          rintro rfl
          rw [(hQueued p hp).mp hOther] at hMark
          cases hMark
      | false =>
          refine ⟨.queued, (hQueued p hp).mpr hMark, ?_⟩
          rintro (_ | _ | _) hOther
          · rfl
          · rw [((mem_well hp).mp hOther).1] at hMark
            cases hMark
          · rw [(mem_pagesWithErrors.mp hOther).2.2.1] at hMark
            cases hMark
    · rw [siteDetail, hQueue]
      exact length_unchecked_add_checked site db
  · intro hNone
    have hAll := checked_eq_pagesOf hNone
    refine ⟨(allQueuedPages_of_checked hNone).trans hAll, congrArg List.length hAll, ?_⟩
    intro p hp
    have hChecked : p.isChecked = true := (mem_checked.mp (hAll.symm ▸ hp)).2.2
    exact existsUnique_of_checked hp hChecked (hStatus p hp hChecked)

def Database.crawledWell : Database :=
  { seeded with pages := [{ seedPage with isChecked := true, checkedAt := 10, status := 200 }] }

theorem pages_listed_crawledWell :
    (∀ p ∈ Database.crawledWell.pagesOf seedSite, p.isChecked = true →
      (p ∈ seedSite.pagesWithErrors .crawledWell ↔ p.isOk = false)) ∧
    (seedSite.unchecked .crawledWell ≠ [] →
      (∀ p ∈ Database.crawledWell.pagesOf seedSite, ∃! listing, p ∈ seedSite.listed .crawledWell listing) ∧
      (siteDetail .crawledWell seedSite).numQueued + (siteDetail .crawledWell seedSite).numProcessed =
        (siteDetail .crawledWell seedSite).numPages) ∧
    (seedSite.unchecked .crawledWell = [] →
      seedSite.listed .crawledWell .queued = Database.crawledWell.pagesOf seedSite ∧
      (siteDetail .crawledWell seedSite).numProcessed = (siteDetail .crawledWell seedSite).numPages ∧
      ∀ p ∈ Database.crawledWell.pagesOf seedSite,
        ∃! listing, listing ≠ .queued ∧ p ∈ seedSite.listed .crawledWell listing) :=
  pages_listed .crawledWell seedSite (by decide)

/-- All pages are checked, so the page that is well is queued too. -/
theorem listed_twice : ∃ p ∈ Database.crawledWell.pagesOf seedSite,
    p ∈ seedSite.listed .crawledWell .queued ∧ p ∈ seedSite.listed .crawledWell .well ∧
      (siteDetail .crawledWell seedSite).numQueued + (siteDetail .crawledWell seedSite).numProcessed ≠
        (siteDetail .crawledWell seedSite).numPages :=
  ⟨{ seedPage with isChecked := true, checkedAt := 10, status := 200 }, by decide, by decide, by decide,
    by decide⟩

end Spidercheck
