import Spidercheck.Frontier.Bypass

/-! First checks are first-in first-out. Without scheduled pages only the queue
gives an unchecked page, and it gives the one that was created first; what is
created later comes after everything that was there before. -/
namespace Spidercheck

open Text Execution Relational Scheduling

variable {site : Site} {s t : Moment} {choice : Choice} {page : Page}

/-- The pages that were added to a site were created after its other pages, at
distinct times. -/
structure InOrder (site : Site) (db db' : Database) : Prop where
  later : ∀ p ∈ db'.pagesOf site, (∀ q ∈ db.pages, q.idPage ≠ p.idPage) →
    ∀ q ∈ db.pagesOf site, q.createdAt < p.createdAt
  distinct : Keyed Page.createdAt (db'.pagesOf site)

/-- The site has no scheduled pages, and its pages were created at distinct times. -/
structure Queued (site : Site) (s : Moment) : Prop where
  consistent : s.db.Consistent
  unscheduled : ∀ row ∈ s.db.scheduled, ∀ p ∈ s.db.pages, p.idPage = row.page →
    p.site ≠ site.idSite
  created : Keyed Page.createdAt (s.db.pagesOf site)

theorem unscheduled_of_none (hDb : s.db.Consistent) (h : site.allScheduledPages s.db = []) :
    ∀ row ∈ s.db.scheduled, ∀ p ∈ s.db.pages, p.idPage = row.page → p.site ≠ site.idSite := by
  intro row hRow p hp hKey hSite
  have hMem : (row, p) ∈ site.allScheduledPages s.db := by
    refine List.mem_filterMap.mpr ⟨row, hRow, ?_⟩
    rw [← hKey, hDb.pageById hp]
    simp [hSite]
  rw [h] at hMem
  cases hMem

/-- A page at the moment of the choice was there before, or its key is new. -/
theorem Served.old_or_new (h : Served site s choice t) {p : Page}
    (hp : p ∈ choice.frontier.pages) :
    p ∈ s.db.pages ∨ ∀ q ∈ s.db.pages, q.idPage ≠ p.idPage := by
  by_cases hOld : ∃ q ∈ s.db.pages, q.idPage = p.idPage
  · obtain ⟨q, hq, hKey⟩ := hOld
    exact .inl (h.arrivals.consistent.pages.eq (h.mem_arrivals hq) hp hKey ▸ hq)
  · exact .inr fun q hq hKey => hOld ⟨q, hq, hKey⟩

/-- So is every page after the round, apart from the one that was served. -/
theorem Served.kept_or_found (h : Served site s choice t) {p : Page} (hp : p ∈ t.db.pages)
    (hNe : p.idPage ≠ choice.page.idPage) :
    p ∈ choice.frontier.pages ∨ ∀ q ∈ choice.frontier.pages, q.idPage ≠ p.idPage := by
  by_cases hOld : ∃ q ∈ choice.frontier.pages, q.idPage = p.idPage
  · obtain ⟨q, hq, hKey⟩ := hOld
    exact .inl (h.consistent.pages.eq (h.others q hq (hKey ▸ hNe)) hp hKey ▸ hq)
  · exact .inr fun q hq hKey => hOld ⟨q, hq, hKey⟩

/-- The served page is checked after the round. -/
theorem Served.ne_of_unchecked (h : Served site s choice t) {p : Page}
    (hp : p ∈ site.unchecked t.db) : p.idPage ≠ choice.page.idPage := by
  intro hKey
  obtain ⟨hMem, -, hUnchecked⟩ := mem_unchecked.mp hp
  obtain ⟨row, hRow, hRowKey, -, -, hChecked, -⟩ := h.row
  rw [h.consistent.pages.eq hMem hRow (hKey.trans hRowKey.symm), hChecked] at hUnchecked
  cases hUnchecked

/-- Without schedules no round is taken by one. -/
theorem Served.not_scheduled (h : Served site s choice t) (hs : Queued site s) :
    choice.branch ≠ .scheduled := by
  intro hBranch
  obtain ⟨now, -, hChosen⟩ := h.chosen
  rw [hBranch] at hChosen
  obtain ⟨row, hRow, -, -⟩ := hChosen
  obtain ⟨hScheduled, hFound, hSite, -⟩ := mem_due.mp hRow
  obtain ⟨hMem, hKey⟩ := mem_of_lookup hFound
  rw [h.arrivals.scheduled] at hScheduled
  -- the scheduled page was there before, and it belongs to another site
  obtain ⟨old, hOld, hOldKey⟩ := hs.consistent.scheduledPages row.1 hScheduled
  have hSame : old = row.2 := h.arrivals.consistent.pages.eq (h.mem_arrivals hOld) hMem
    (hOldKey.trans hKey.symm)
  exact hs.unscheduled row.1 hScheduled old hOld hOldKey (hSame ▸ hSite)

/-- Without scheduled pages the queue gives its first page, the errors give one
of theirs, and the fallback gives one only when nothing is unchecked. -/
theorem Served.cases (h : Served site s choice t) (hs : Queued site s) :
    (choice.page.isChecked = false ∧ choice.branch ≠ .recheck ∧
      ∀ p ∈ site.unchecked choice.frontier, choice.page.createdAt ≤ p.createdAt) ∨
    (choice.page.isChecked = true ∧ choice.branch ≠ .recheck ∧
      choice.page ∈ site.pagesWithErrors choice.frontier) ∨
    (choice.page.isChecked = true ∧ site.unchecked choice.frontier = []) := by
  have hScheduled := h.not_scheduled hs
  obtain ⟨now, -, hChosen⟩ := h.chosen
  cases hBranch : choice.branch with
  | scheduled => exact absurd hBranch hScheduled
  | errors =>
      rw [hBranch] at hChosen
      exact .inr (.inl ⟨(mem_pagesWithErrors.mp hChosen.1).2.2.1, by simp, hChosen.1⟩)
  | queue =>
      rw [hBranch] at hChosen
      exact .inl ⟨(mem_unchecked.mp hChosen.1).2.2, by simp, hChosen.2⟩
  | recheck =>
      rw [hBranch] at hChosen
      exact .inr (.inr ⟨(mem_checked.mp hChosen.2.1).2.2, hChosen.1⟩)

/-- The creation times stay distinct. -/
theorem Queued.round {py : Platform} (hs : Queued site s)
    (h : Round py site (InOrder site) s choice t) : Queued site t := by
  obtain ⟨-, hFound, hServed⟩ := served_of_round h
  refine ⟨hServed.consistent, ?_, hFound.distinct⟩
  intro row hRow p hp hKey
  rw [hServed.scheduled] at hRow
  obtain ⟨old, hOld, hOldKey⟩ := hs.consistent.scheduledPages row hRow
  have hOther := hs.unscheduled row hRow old hOld hOldKey
  have hNe : old.idPage ≠ choice.page.idPage := by
    intro hEq
    have hSame := hServed.arrivals.consistent.pages.eq (hServed.mem_arrivals hOld) hServed.mem.1 hEq
    exact hOther (hSame ▸ hServed.mem.2)
  have hSame := hServed.consistent.pages.eq hp (hServed.stays hOld hNe) (hKey.trans hOldKey.symm)
  rwa [hSame]

/-- A time of creation that all unchecked pages of the site come after. -/
def Above (site : Site) (s : Moment) (k : Time) : Prop :=
  (∃ q ∈ s.db.pagesOf site, q.createdAt = k) ∧ ∀ p ∈ site.unchecked s.db, k < p.createdAt

def Choice.firstCheck (choice : Choice) : Option Time :=
  if choice.page.isChecked then none else some choice.page.createdAt

/-- The times of creation stay, also that of the served page. -/
theorem Served.created_stays (h : Served site s choice t) {q : Page}
    (hq : q ∈ choice.frontier.pagesOf site) : ∃ q' ∈ t.db.pagesOf site, q'.createdAt = q.createdAt := by
  obtain ⟨hMem, hSite⟩ := mem_pagesOf.mp hq
  by_cases hKey : q.idPage = choice.page.idPage
  · obtain rfl : q = choice.page := h.arrivals.consistent.pages.eq hMem h.mem.1 hKey
    obtain ⟨row, hRow, -, hPath, hCreated, -, -⟩ := h.row
    have hRowSite : row.site = choice.page.site := congrArg Prod.fst hPath
    exact ⟨row, mem_pagesOf.mpr ⟨hRow, hRowSite.trans hSite⟩, hCreated⟩
  · exact ⟨q, mem_pagesOf.mpr ⟨h.others q hMem hKey, hSite⟩, rfl⟩

theorem Served.mem_pagesOf_arrivals (h : Served site s choice t) {q : Page}
    (hq : q ∈ s.db.pagesOf site) : q ∈ choice.frontier.pagesOf site := by
  obtain ⟨hMem, hSite⟩ := mem_pagesOf.mp hq
  exact mem_pagesOf.mpr ⟨h.mem_arrivals hMem, hSite⟩

variable {py : Platform} {k : Time}

/-- The unchecked pages at the choice come after the bound. -/
theorem above_frontier (h : Round py site (InOrder site) s choice t) (hAbove : Above site s k) :
    ∀ p ∈ site.unchecked choice.frontier, k < p.createdAt := by
  obtain ⟨hArrived, -, hServed⟩ := served_of_round h
  obtain ⟨⟨q, hq, rfl⟩, hAll⟩ := hAbove
  intro p hp
  obtain ⟨hMem, hSite, hUnchecked⟩ := mem_unchecked.mp hp
  rcases hServed.old_or_new hMem with hOld | hNew
  · exact hAll p (mem_unchecked.mpr ⟨hOld, hSite, hUnchecked⟩)
  · exact hArrived.later p (mem_pagesOf.mpr ⟨hMem, hSite⟩) hNew q hq

/-- A bound on the unchecked pages at the choice, but for the served one, is a
bound after the round. -/
theorem above_after (h : Round py site (InOrder site) s choice t) {q : Page}
    (hq : q ∈ choice.frontier.pagesOf site)
    (hAll : ∀ p ∈ site.unchecked choice.frontier, p.idPage ≠ choice.page.idPage →
      q.createdAt < p.createdAt) : Above site t q.createdAt := by
  obtain ⟨-, hFound, hServed⟩ := served_of_round h
  refine ⟨hServed.created_stays hq, ?_⟩
  intro p hp
  have hNe := hServed.ne_of_unchecked hp
  obtain ⟨hMem, hSite, hUnchecked⟩ := mem_unchecked.mp hp
  rcases hServed.kept_or_found hMem hNe with hKept | hNew
  · exact hAll p (mem_unchecked.mpr ⟨hKept, hSite, hUnchecked⟩) hNe
  · exact hFound.later p (mem_pagesOf.mpr ⟨hMem, hSite⟩) hNew q hq

/-- What is above all unchecked pages stays above them. -/
theorem above_keep (h : Round py site (InOrder site) s choice t) (hAbove : Above site s k) :
    Above site t k := by
  have hAll := above_frontier h hAbove
  obtain ⟨⟨q, hq, rfl⟩, -⟩ := hAbove
  obtain ⟨-, -, hServed⟩ := served_of_round h
  exact above_after h (hServed.mem_pagesOf_arrivals hq) fun p hp _ => hAll p hp

/-- A first check leaves only unchecked pages that were created later. -/
theorem above_serve (hs : Queued site s) (h : Round py site (InOrder site) s choice t)
    (hUnchecked : choice.page.isChecked = false) : Above site t choice.page.createdAt := by
  obtain ⟨hArrived, hFound, hServed⟩ := served_of_round h
  have hPage : choice.page ∈ choice.frontier.pagesOf site := mem_pagesOf.mpr hServed.mem
  refine above_after h hPage fun p hp hNe => ?_
  have hLe : choice.page.createdAt ≤ p.createdAt := by
    rcases hServed.cases hs with ⟨-, -, hFirst⟩ | ⟨hChecked, -⟩ | ⟨hChecked, -⟩
    · exact hFirst p hp
    · simp [hUnchecked] at hChecked
    · simp [hUnchecked] at hChecked
  obtain ⟨hMem, hSite, -⟩ := mem_unchecked.mp hp
  refine lt_of_le_of_ne hLe fun hEq => hNe ?_
  rw [hArrived.distinct.eq (mem_pagesOf.mpr ⟨hMem, hSite⟩) hPage hEq.symm]

theorem firstCheck_eq_some {choice : Choice} :
    choice.firstCheck = some k ↔ choice.page.isChecked = false ∧ choice.page.createdAt = k := by
  unfold Choice.firstCheck
  cases choice.page.isChecked <;> simp

/-- In a run over a site without scheduled pages, whose pages are created at
increasing times, the first checks come in the order of creation, and nothing is
checked again by the fallback while a page of the site is unchecked. -/
theorem first_checks_in_order (py : Platform) (site : Site) (s t : Moment) (trace : List Choice)
    (run : Steps (Round py site (InOrder site)) s trace t) (hDb : s.db.Consistent)
    (hUnscheduled : site.allScheduledPages s.db = [])
    (hCreated : Keyed Page.createdAt (s.db.pagesOf site)) :
    (trace.filterMap Choice.firstCheck).Pairwise (· < ·) ∧
      ∀ choice ∈ trace, site.unchecked choice.frontier ≠ [] → choice.branch ≠ .recheck ∧
        (choice.page.isChecked = false ∨ choice.page ∈ site.pagesWithErrors choice.frontier) := by
  have hs : Queued site s := ⟨hDb, unscheduled_of_none hDb hUnscheduled, hCreated⟩
  have hRun := run.strengthen (fun _ _ _ hs h => hs.round h) hs
  constructor
  · refine (hRun.sorted Choice.firstCheck (Above site) ?_ ?_ ?_).1
    · exact fun _ _ _ _ h hAbove => above_keep h.2 hAbove
    · intro s choice t k h hFirst
      obtain ⟨hUnchecked, rfl⟩ := firstCheck_eq_some.mp hFirst
      exact above_serve h.1 h.2 hUnchecked
    · intro s choice t k k' h hAbove hFirst
      obtain ⟨hUnchecked, rfl⟩ := firstCheck_eq_some.mp hFirst
      obtain ⟨-, -, hServed⟩ := served_of_round h.2
      exact above_frontier h.2 hAbove choice.page
        (mem_unchecked.mpr ⟨hServed.mem.1, hServed.mem.2, hUnchecked⟩)
  · refine hRun.forall_mem ?_
    intro s choice t h hUnchecked
    obtain ⟨-, -, hServed⟩ := served_of_round h.2
    rcases hServed.cases h.1 with ⟨hFirst, hBranch, -⟩ | ⟨-, hBranch, hErrors⟩ | ⟨-, hNone⟩
    · exact ⟨hBranch, .inl hFirst⟩
    · exact ⟨hBranch, .inr hErrors⟩
    · exact absurd hNone hUnchecked

/-- The first check of a site with two pages. -/
theorem first_checks_twoPages :
    ([(1 : Time)].Pairwise (· < ·)) ∧
      ∀ choice ∈ [(⟨.queue, seedPage, twoPages⟩ : Choice)],
        seedSite.unchecked choice.frontier ≠ [] → choice.branch ≠ .recheck ∧
          (choice.page.isChecked = false ∨ choice.page ∈ seedSite.pagesWithErrors choice.frontier) :=
  first_checks_in_order (.scripted []) seedSite ⟨twoPages, 5⟩ _ [⟨.queue, seedPage, twoPages⟩]
    (.cons (round_twoPages ⟨by decide, by decide⟩ ⟨by decide, by decide⟩) (.refl _)) consistent_twoPages
    (by decide) (by decide)

end Spidercheck
