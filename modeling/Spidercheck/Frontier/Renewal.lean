import Spidercheck.Frontier.Exploration
import Spidercheck.Sites.Expunge

/-! A site that was crawled before, on a web that has changed since. The pages
that were known are the seeds of the new crawl, and a page is up to date as soon as
it was checked again, whatever the order of the checks. The links of a page are only
renewed where it leads to some page: those of one that leads nowhere may stay. -/
namespace Spidercheck

open Text Url Execution Relational Graph

variable {web : Web} {py : Platform} {db db' start : Database} {site : Site} {page : Page}
  {done : Set Nat}

/-- Checks of pages of the site since the start, with the keys of the checked pages. -/
inductive Recrawl (web : Web) (py : Platform) (site : Site) (start : Database) :
    Set Nat → Database → Prop where
  | start : Recrawl web py site start ∅ start
  | check {done db db' page isValid input r} (hBefore : Recrawl web py site start done db)
      (hPage : page ∈ db.pagesOf site) (hServes : web.Serves site page isValid input)
      (hRun : (checkPageWith isValid py input page).run db = (.ok r, db')) :
      Recrawl web py site start (insert page.idPage done) db'

def Site.addressesOf (site : Site) (db : Database) (keys : Set Nat) : Set Address :=
  {a | ∃ p ∈ db.pagesOf site, p.idPage ∈ keys ∧ p.fullPath = a}

/-- The links of a page are those of the web or, where the page leads nowhere,
some of those that it had at the start. -/
def Renewed (web : Web) (py : Platform) (site : Site) (start db : Database) (p : Page) : Prop :=
  ((∃ b, web.Leads py site p.fullPath b) → ∀ q ∈ db.pages, db.Linked p.idPage q.idPage ↔
    q.isLinkable = true ∧ web.Leads py site p.fullPath q.fullPath) ∧
  ((∀ b, ¬ web.Leads py site p.fullPath b) → ∀ v, db.Linked p.idPage v → start.Linked p.idPage v)

structure Renewing (web : Web) (py : Platform) (site : Site) (start : Database) (done : Set Nat)
    (db : Database) : Prop where
  consistent : db.Consistent
  stored : site ∈ db.sites
  known : ∀ pk ∈ done, ∃ p ∈ db.pages, p.idPage = pk
  explored : Explored (web.Leads py site) (site.addresses start) (site.addresses db)
    (site.addressesOf db done)
  renewed : ∀ p ∈ db.pagesOf site, p.idPage ∈ done → Renewed web py site start db p
  kept : ∀ u v, u ∉ done → (db.Linked u v ↔ start.Linked u v)

namespace Visited

/-- A check adds the address of its page to the renewed ones. -/
theorem addressesOf_insert (h : Visited web py site page db db') (hDb : db.Consistent)
    (hPage : page ∈ db.pagesOf site) (hKnown : ∀ pk ∈ done, ∃ p ∈ db.pages, p.idPage = pk) :
    site.addressesOf db' (insert page.idPage done) = insert page.fullPath (site.addressesOf db done) := by
  obtain ⟨hStored, hOf⟩ := mem_pagesOf.mp hPage
  ext a
  constructor
  · rintro ⟨p, hp, hKey | hKey, rfl⟩
    · obtain ⟨q, hq, hSame⟩ := h.exists_kept hStored
      obtain rfl := h.consistent.pages.eq (mem_pagesOf.mp hp).1 hq (hKey.trans hSame.symm)
      exact .inl (h.kept hDb hStored hStored hq hSame).1
    · obtain ⟨hp, hSite⟩ := mem_pagesOf.mp hp
      obtain ⟨q, hq, hSame⟩ := hKnown _ hKey
      have hPath := (h.kept hDb hStored hq hp hSame.symm).1
      have hSiteQ : p.site = q.site := congrArg Prod.fst hPath
      exact .inr ⟨q, mem_pagesOf.mpr ⟨hq, hSiteQ.symm.trans hSite⟩, hSame ▸ hKey, hPath.symm⟩
  · rintro (rfl | ⟨p, hp, hKey, rfl⟩)
    · obtain ⟨q, hq, hSame⟩ := h.exists_kept hStored
      have hPath := (h.kept hDb hStored hStored hq hSame).1
      have hSite : q.site = page.site := congrArg Prod.fst hPath
      exact ⟨q, mem_pagesOf.mpr ⟨hq, hSite.trans hOf⟩, .inl hSame, hPath⟩
    · obtain ⟨hp, hSite⟩ := mem_pagesOf.mp hp
      obtain ⟨q, hq, hSame⟩ := h.exists_kept hp
      have hPath := (h.kept hDb hStored hp hq hSame).1
      have hSiteQ : q.site = p.site := congrArg Prod.fst hPath
      exact ⟨q, mem_pagesOf.mpr ⟨hq, hSiteQ.trans hSite⟩, .inr (hSame ▸ hKey), hPath⟩

/-- The links of the page that is checked. -/
theorem renewed (h : Visited web py site page db db') {p : Page} (hKey : p.idPage = page.idPage)
    (hPath : p.fullPath = page.fullPath)
    (hBefore : (∀ b, ¬ web.Leads py site page.fullPath b) →
      ∀ v, db.Linked page.idPage v → start.Linked page.idPage v) :
    Renewed web py site start db' p := by
  rw [Renewed, hKey, hPath]
  refine ⟨fun ⟨b, hLeads⟩ q hq => ⟨fun hLinked => ?_, fun hTo => h.joined q hq hTo.1 hTo.2⟩, ?_⟩
  · rcases h.linked q hq hLinked with hTo | ⟨hNone, -⟩
    · exact hTo
    · exact absurd hLeads (hNone b)
  · intro hNone v hLinked
    obtain ⟨-, q, hq, rfl⟩ := h.consistent.ends hLinked
    rcases h.linked q hq hLinked with hTo | ⟨-, hOld⟩
    · exact absurd hTo.2 (hNone _)
    · exact hBefore hNone _ hOld

end Visited

namespace Renewing

/-- At the start nothing is renewed. -/
theorem begin (hDb : start.Consistent) (hSite : site ∈ start.sites) :
    Renewing web py site start ∅ start where
  consistent := hDb
  stored := hSite
  known pk h := absurd h (Set.notMem_empty pk)
  explored := by
    have hNone : site.addressesOf start ∅ = ∅ := by
      rw [Set.eq_empty_iff_forall_notMem]
      rintro a ⟨p, -, hKey, -⟩
      exact hKey
    rw [hNone]
    exact explored_seeds
  renewed p _ h := absurd h (Set.notMem_empty _)
  kept _ _ _ := Iff.rfl

/-- The step lemma. -/
theorem check (h : Renewing web py site start done db) (hPage : page ∈ db.pagesOf site)
    (hVisited : Visited web py site page db db') :
    Renewing web py site start (insert page.idPage done) db' where
  consistent := hVisited.consistent
  stored := hVisited.sites ▸ h.stored
  known pk hpk := by
    obtain ⟨hStored, -⟩ := mem_pagesOf.mp hPage
    rcases hpk with rfl | hpk
    · exact hVisited.exists_kept hStored
    · obtain ⟨p, hp, rfl⟩ := h.known pk hpk
      exact hVisited.exists_kept hp
  explored := by
    rw [hVisited.addresses h.consistent hPage, hVisited.addressesOf_insert h.consistent hPage h.known]
    exact h.explored.expand ⟨page, hPage, rfl⟩
  renewed p hp hKey := by
    obtain ⟨hStored, -⟩ := mem_pagesOf.mp hPage
    obtain ⟨hp, hSite⟩ := mem_pagesOf.mp hp
    by_cases hSame : p.idPage = page.idPage
    · obtain ⟨row, hRow, hRowKey, hPath, -⟩ := hVisited.row
      obtain rfl := hVisited.consistent.pages.eq hp hRow (hSame.trans hRowKey.symm)
      refine hVisited.renewed hSame hPath fun hNone v hLinked => ?_
      by_cases hDone : page.idPage ∈ done
      · exact (h.renewed page hPage hDone).2 hNone v hLinked
      · exact (h.kept _ _ hDone).mp hLinked
    · have hDone : p.idPage ∈ done := hKey.resolve_left hSame
      -- a page that was checked before was there before this check
      obtain ⟨p', hp', hKey'⟩ := h.known _ hDone
      obtain rfl : p' = p :=
        hVisited.consistent.pages.eq (hVisited.others p' hp' (hKey' ▸ hSame)) hp hKey'
      have hOf := mem_pagesOf.mpr ⟨hp', hSite⟩
      obtain ⟨hLeading, hQuiet⟩ := h.renewed p' hOf hDone
      refine ⟨fun hSome => ?_, fun hNone v hLinked => ?_⟩
      · refine hVisited.row_kept h.consistent hStored
          (fun a linkable => linkable = true ∧ web.Leads py site p'.fullPath a) hSame ?_ (hLeading hSome)
        rintro a linkable ⟨-, hLeads⟩
        obtain ⟨q, hq, hPath⟩ := h.explored.followed p'.fullPath ⟨p', hOf, hDone, rfl⟩ a hLeads
        exact ⟨q, (mem_pagesOf.mp hq).1, hPath⟩
      · exact hQuiet hNone v ((hVisited.elsewhere _ v hSame).mp hLinked)
  kept u v hu := by
    obtain ⟨hNe, hOut⟩ := not_or.mp hu
    exact (hVisited.elsewhere u v hNe).trans (h.kept u v hOut)

end Renewing

/-- The run lemma. -/
theorem Recrawl.renewing (h : Recrawl web py site start done db) (hDb : start.Consistent)
    (hSite : site ∈ start.sites) : Renewing web py site start done db := by
  induction h with
  | start => exact .begin hDb hSite
  | check _ hPage hServes hRun ih =>
      obtain ⟨hStored, hOf⟩ := mem_pagesOf.mp hPage
      exact ih.check hPage (visited_of_returns ih.consistent hStored ih.stored hOf hServes hRun)

/-- A new crawl of a site from what an old one left, on a web as it is now. What is
found can be reached from the pages that were known, and all of it is found once
every page of the site was checked again. The links of a page that was checked
again are those of the web if it leads anywhere, and else no others than it had;
those of a page that was not are as they were. -/
theorem recrawl_renews (web : Web) (py : Platform) (site : Site) (start db : Database) (done : Set Nat)
    (hDb : start.Consistent) (hSite : site ∈ start.sites) (hRun : Recrawl web py site start done db) :
    site.addresses db ⊆ Reach (web.Leads py site) (site.addresses start) ∧
    ((∀ p ∈ db.pagesOf site, p.idPage ∈ done) →
      site.addresses db = Reach (web.Leads py site) (site.addresses start)) ∧
    (∀ p ∈ db.pagesOf site, p.idPage ∈ done →
      ((∃ b, web.Leads py site p.fullPath b) → ∀ q ∈ db.pages, db.Linked p.idPage q.idPage ↔
        q.isLinkable = true ∧ web.Leads py site p.fullPath q.fullPath) ∧
      ((∀ b, ¬ web.Leads py site p.fullPath b) →
        ∀ v, db.Linked p.idPage v → start.Linked p.idPage v)) ∧
    ∀ u v, u ∉ done → (db.Linked u v ↔ start.Linked u v) := by
  have hEnd := hRun.renewing hDb hSite
  refine ⟨hEnd.explored.reached, fun hAll => ?_, hEnd.renewed, hEnd.kept⟩
  refine hEnd.explored.complete ?_
  rintro a ⟨p, hp, hPath⟩
  exact ⟨p, hp, hAll p hp, hPath⟩

def chainedVisited : Database :=
  ((checkPageWith (fun _ page => smallWeb.answer page.fullPath) twoLinks smallInput seedPage).run .chained).2

theorem recrawl_chained : Recrawl smallWeb twoLinks seedSite .chained {1} chainedVisited := by
  have hServes : smallWeb.Serves seedSite seedPage (fun _ page => smallWeb.answer page.fullPath) smallInput :=
    ⟨rfl, rfl, rfl⟩
  have hRun : Recrawl smallWeb twoLinks seedSite .chained (insert seedPage.idPage ∅) chainedVisited :=
    .check .start (by decide) hServes rfl
  rwa [insert_empty_eq] at hRun

theorem recrawl_renews_chained :
    seedSite.addresses chainedVisited ⊆
      Reach (smallWeb.Leads twoLinks seedSite) (seedSite.addresses .chained) ∧
    ((∀ p ∈ chainedVisited.pagesOf seedSite, p.idPage ∈ ({1} : Set Nat)) →
      seedSite.addresses chainedVisited =
        Reach (smallWeb.Leads twoLinks seedSite) (seedSite.addresses .chained)) ∧
    (∀ p ∈ chainedVisited.pagesOf seedSite, p.idPage ∈ ({1} : Set Nat) →
      ((∃ b, smallWeb.Leads twoLinks seedSite p.fullPath b) →
        ∀ q ∈ chainedVisited.pages, chainedVisited.Linked p.idPage q.idPage ↔
          q.isLinkable = true ∧ smallWeb.Leads twoLinks seedSite p.fullPath q.fullPath) ∧
      ((∀ b, ¬ smallWeb.Leads twoLinks seedSite p.fullPath b) →
        ∀ v, chainedVisited.Linked p.idPage v → Database.chained.Linked p.idPage v)) ∧
    ∀ u v, u ∉ ({1} : Set Nat) → (chainedVisited.Linked u v ↔ Database.chained.Linked u v) :=
  recrawl_renews smallWeb twoLinks seedSite .chained chainedVisited {1} Database.consistent_chained
    (by decide) recrawl_chained

end Spidercheck
