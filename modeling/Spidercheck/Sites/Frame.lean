import Spidercheck.Model.Calls

/-! What a call on one site leaves alone. The rows of the other sites are found
by the keys of their pages, and these keys are fixed for the time of the call. A
session that has only rows of its own site in hand does not reach the others,
since links stay inside a site. -/
namespace Spidercheck

open Text Url Execution Relational

namespace Database

def elsewhere (db : Database) (s pk : Nat) : Bool :=
  db.pages.any fun p => p.idPage == pk && p.site != s

def Isolated (db : Database) : Prop :=
  ∀ l ∈ db.links, ∃ p ∈ db.pages, ∃ q ∈ db.pages,
    p.idPage = l.fromPage ∧ q.idPage = l.toPage ∧ p.site = q.site

theorem elsewhere_iff {db : Database} {s pk : Nat} :
    db.elsewhere s pk = true ↔ ∃ p ∈ db.pages, p.idPage = pk ∧ p.site ≠ s := by
  simp [elsewhere]

end Database

/-- The rows outside of a site are those of the database at the start. -/
structure Untouched (start : Database) (s : Nat) (db : Database) : Prop where
  consistent : db.Consistent
  pages : db.pages.filter (·.site != s) = start.pages.filter (·.site != s)
  links : db.links.filter (fun l => start.elsewhere s l.fromPage) =
    start.links.filter fun l => start.elsewhere s l.fromPage
  values : db.values.filter (fun v => start.elsewhere s v.page) =
    start.values.filter fun v => start.elsewhere s v.page
  scheduled : db.scheduled.filter (fun r => start.elsewhere s r.page) =
    start.scheduled.filter fun r => start.elsewhere s r.page

namespace Untouched
variable {start db db' : Database} {s : Nat}

theorem refl (h : start.Consistent) : Untouched start s start := ⟨h, rfl, rfl, rfl, rfl⟩

/-- A page of another site is still there. -/
theorem exists_page (h : Untouched start s db) {pk : Nat} (hElse : start.elsewhere s pk = true) :
    ∃ p ∈ db.pages, p.idPage = pk ∧ p.site ≠ s := by
  obtain ⟨p, hp, hKey, hSite⟩ := Database.elsewhere_iff.mp hElse
  have hMem : p ∈ db.pages.filter (·.site != s) := by
    rw [h.pages]
    exact List.mem_filter.mpr ⟨hp, by simpa using hSite⟩
  exact ⟨p, List.mem_of_mem_filter hMem, hKey, hSite⟩

/-- A page of the site has its own key. -/
theorem inside (h : Untouched start s db) {page : Page} (hPage : page ∈ db.pages)
    (hSite : page.site = s) : start.elsewhere s page.idPage = false := by
  rw [Bool.eq_false_iff]
  intro hElse
  obtain ⟨p, hp, hKey, hOther⟩ := h.exists_page hElse
  rw [h.consistent.pages.eq hp hPage hKey] at hOther
  exact hOther hSite

/-- The key of the sequence belongs to no page. -/
theorem inside_next (h : Untouched start s db) : start.elsewhere s db.nextPage = false := by
  rw [Bool.eq_false_iff]
  intro hElse
  obtain ⟨p, hp, hKey, -⟩ := h.exists_page hElse
  have := h.consistent.pagesFresh p hp
  omega

theorem outside (h : Untouched start s db) {page : Page} (hPage : page ∈ db.pages)
    (hSite : page.site ≠ s) : start.elsewhere s page.idPage = true := by
  have hMem : page ∈ start.pages.filter (·.site != s) := by
    rw [← h.pages]
    exact List.mem_filter.mpr ⟨hPage, by simpa using hSite⟩
  exact Database.elsewhere_iff.mpr
    ⟨page, List.mem_of_mem_filter hMem, rfl, hSite⟩

/-- A link from another site leads to another site. -/
theorem link_outside (h : Untouched start s db) (hIsolated : start.Isolated) {l : Link}
    (hl : l ∈ db.links) (hFrom : start.elsewhere s l.fromPage = true)
    (hStart : start.Consistent) : start.elsewhere s l.toPage = true := by
  have hMem : l ∈ start.links.filter fun l => start.elsewhere s l.fromPage := by
    rw [← h.links]
    exact List.mem_filter.mpr ⟨hl, hFrom⟩
  obtain ⟨p, hp, q, hq, hKey, hKey', hSame⟩ := hIsolated l (List.mem_of_mem_filter hMem)
  obtain ⟨p', hp', hKeyP, hSite⟩ := Database.elsewhere_iff.mp hFrom
  rw [hStart.pages.eq hp' hp (hKeyP.trans hKey.symm)] at hSite
  exact Database.elsewhere_iff.mpr ⟨q, hq, hKey', hSame ▸ hSite⟩

/-- The values of the other sites are the same rows. -/
theorem value_at_start (h : Untouched start s db) {v : Value} (hv : v ∈ db.values)
    (hElse : start.elsewhere s v.page = true) : v ∈ start.values := by
  have hMem : v ∈ db.values.filter fun v => start.elsewhere s v.page :=
    List.mem_filter.mpr ⟨hv, hElse⟩
  rw [h.values] at hMem
  exact List.mem_of_mem_filter hMem

theorem value_now (h : Untouched start s db) {v : Value} (hv : v ∈ start.values)
    (hElse : start.elsewhere s v.page = true) : v ∈ db.values := by
  have hMem : v ∈ start.values.filter fun v => start.elsewhere s v.page :=
    List.mem_filter.mpr ⟨hv, hElse⟩
  rw [← h.values] at hMem
  exact List.mem_of_mem_filter hMem

theorem insertPage (h : Untouched start s db) (stamp : Nat → Time) (pk : Nat) {row : Page}
    (hSite : row.site = s) : Untouched start s (db.insertPage stamp pk row).2 := by
  have hConsistent : (db.insertPage stamp pk row).2.Consistent := h.consistent.insertPage stamp pk row
  obtain ⟨e, hReject⟩ | hAccept := db.insertPage_cases stamp pk row
  · rw [hReject]
    exact h
  · rw [hAccept] at hConsistent ⊢
    refine ⟨hConsistent, ?_, h.links, h.values, h.scheduled⟩
    exact (filter_append_singleton (fun p : Page => p.site != s) (by simp [hSite])).trans h.pages

theorem updatePage (h : Untouched start s db) {row : Page} (hSite : row.site = s)
    (hInside : start.elsewhere s row.idPage = false) : Untouched start s (db.updatePage row).2 := by
  have hConsistent : (db.updatePage row).2.Consistent := h.consistent.updatePage row
  obtain hReject | hAccept := db.updatePage_cases row
  · rw [hReject]
    exact h
  · rw [hAccept] at hConsistent ⊢
    refine ⟨hConsistent, ?_, h.links, h.values, h.scheduled⟩
    have hSame : (replace Page.idPage row db.pages).filter (·.site != s) =
        db.pages.filter (·.site != s) := by
      apply filter_replace
      · simp [hSite]
      · intro r hr hKey
        by_contra hOther
        have hElse : start.elsewhere s r.idPage = true := h.outside hr (by simpa using hOther)
        rw [hKey, hInside] at hElse
        cases hElse
    exact hSame.trans h.pages

theorem insertLink (h : Untouched start s db) {from' : Nat} (to' : Nat)
    (hInside : start.elsewhere s from' = false) : Untouched start s (db.insertLink from' to').2 := by
  have hConsistent : (db.insertLink from' to').2.Consistent := h.consistent.insertLink from' to'
  obtain hReject | hAccept := db.insertLink_cases from' to'
  · rw [hReject]
    exact h
  · rw [hAccept] at hConsistent ⊢
    refine ⟨hConsistent, h.pages, ?_, h.values, h.scheduled⟩
    exact (filter_append_singleton (fun l : Link => start.elsewhere s l.fromPage) hInside).trans h.links

theorem insertValue (h : Untouched start s db) {row : Value}
    (hInside : start.elsewhere s row.page = false) : Untouched start s (db.insertValue row).2 := by
  have hConsistent : (db.insertValue row).2.Consistent := h.consistent.insertValue row
  obtain hReject | hAccept := db.insertValue_cases row
  · rw [hReject]
    exact h
  · rw [hAccept] at hConsistent ⊢
    refine ⟨hConsistent, h.pages, h.links, ?_, h.scheduled⟩
    exact (filter_append_singleton (fun v : Value => start.elsewhere s v.page) hInside).trans h.values

/-- A value is known to be of the site when its key is that of no value outside. -/
theorem updateValue (h : Untouched start s db) {row : Value}
    (hInside : start.elsewhere s row.page = false)
    (hKeys : ∀ v ∈ start.values, start.elsewhere s v.page = true → v.idValue ≠ row.idValue) :
    Untouched start s (db.updateValue row).2 := by
  have hConsistent : (db.updateValue row).2.Consistent := h.consistent.updateValue row
  obtain hReject | hAccept := db.updateValue_cases row
  · rw [hReject]
    exact h
  · rw [hAccept] at hConsistent ⊢
    refine ⟨hConsistent, h.pages, h.links, ?_, h.scheduled⟩
    have hSame : (replace Value.idValue row db.values).filter (fun v => start.elsewhere s v.page) =
        db.values.filter fun v => start.elsewhere s v.page := by
      apply filter_replace
      · exact hInside
      intro v hv hKey
      by_contra hOther
      exact hKeys v (h.value_at_start hv (by simpa using hOther)) (by simpa using hOther) hKey
    exact hSame.trans h.values

theorem deletePages (h : Untouched start s db) (hStart : start.Consistent)
    (hIsolated : start.Isolated) {doomed : Page → Bool}
    (hInside : ∀ p ∈ db.pages, doomed p = true → start.elsewhere s p.idPage = false) :
    Untouched start s (db.deletePages doomed) := by
  have hGone (pk : Nat) (hElse : start.elsewhere s pk = true) :
      (db.pages.any fun p => doomed p && p.idPage == pk) = false := by
    rw [List.any_eq_false]
    intro p hp hDoomed
    obtain ⟨hDoomed, hKey⟩ : doomed p = true ∧ p.idPage = pk := by simpa using hDoomed
    rw [← hKey, hInside p hp hDoomed] at hElse
    cases hElse
  refine ⟨h.consistent.deletePages doomed, ?_, ?_, ?_, ?_⟩
  · refine (filter_filter_of fun p hp hOther => ?_).trans h.pages
    have hElse : start.elsewhere s p.idPage = true := h.outside hp (by simpa using hOther)
    by_contra hDoomed
    rw [hInside p hp (by simpa using hDoomed)] at hElse
    cases hElse
  · refine (filter_filter_of fun l hl hFrom => ?_).trans h.links
    have hTo : start.elsewhere s l.toPage = true := h.link_outside hIsolated hl hFrom hStart
    simp [hGone l.fromPage hFrom, hGone l.toPage hTo]
  · refine (filter_filter_of fun v _ hElse => ?_).trans h.values
    simp [hGone v.page hElse]
  · refine (filter_filter_of fun r _ hElse => ?_).trans h.scheduled
    simp [hGone r.page hElse]

theorem deleteLinks (h : Untouched start s db) (hStart : start.Consistent)
    (hIsolated : start.Isolated) {doomed : Link → Bool}
    (hInside : ∀ l, doomed l = true →
      start.elsewhere s l.fromPage = false ∨ start.elsewhere s l.toPage = false) :
    Untouched start s (db.deleteLinks doomed) := by
  refine ⟨h.consistent.deleteLinks doomed, h.pages, ?_, h.values, h.scheduled⟩
  refine (filter_filter_of fun l hl hFrom => ?_).trans h.links
  have hTo : start.elsewhere s l.toPage = true := h.link_outside hIsolated hl hFrom hStart
  by_contra hDoomed
  rcases hInside l (by simpa using hDoomed) with hIn | hIn
  · rw [hFrom] at hIn
    cases hIn
  · rw [hTo] at hIn
    cases hIn

theorem deleteValues (h : Untouched start s db) {doomed : Value → Bool}
    (hInside : ∀ v, doomed v = true → start.elsewhere s v.page = false) :
    Untouched start s (db.deleteValues doomed) := by
  refine ⟨h.consistent.deleteValues doomed, h.pages, h.links, ?_, h.scheduled⟩
  refine (filter_filter_of fun v _ hElse => ?_).trans h.values
  by_contra hDoomed
  rw [hInside v (by simpa using hDoomed)] at hElse
  cases hElse

end Untouched

/-- A session of one site has only rows of the site in hand. -/
def inside (start : Database) (s : Nat) (hStart : start.Consistent) (hIsolated : start.Isolated) :
    Discipline Unit where
  Holds _ db := Untouched start s db
  Knows _ page := page.site = s ∧ start.elsewhere s page.idPage = false
  Hosts _ site := site.idSite = s
  Owns _ value := start.elsewhere s value.page = false ∧
    ∀ v ∈ start.values, start.elsewhere s v.page = true → v.idValue ≠ value.idValue
  Clock _ := True
  Joins _ _ := True
  knowsLasting _ _ _ _ h := h
  hostsLasting _ _ _ _ h := h
  ownsLasting _ _ _ _ h := h
  checked _ _ _ _ h _ hRow := by
    rw [hRow]
    exact h
  joinsChecked _ _ _ _ _ _ := trivial
  siteOf _ _ _ _ _ h hSite := (mem_of_lookup hSite).2.trans h.1
  found _ _ _ _ hDb hSite hPage hOf := ⟨hOf.trans hSite, hDb.inside hPage (hOf.trans hSite)⟩
  insertPage w db site stamp subpath params status hDb hSite := by
    refine ⟨w, le_rfl, hDb.insertPage stamp db.nextPage hSite, fun row hRow => ?_⟩
    obtain ⟨rfl, -⟩ := Database.accept_eq_ok (Prod.ext hRow rfl)
    exact ⟨hSite, hDb.inside_next⟩
  savePage _ _ stamp row hDb h := ⟨hDb.updatePage h.1 h.2, hDb.insertPage stamp row.idPage h.1⟩
  insertLink _ _ _ target hDb h _ _ := hDb.insertLink target.idPage h.2
  insertValue _ _ _ _ _ hDb h := by
    refine ⟨hDb.insertValue h.2, fun row hRow => ?_⟩
    obtain ⟨rfl, -⟩ := Database.accept_eq_ok (Prod.ext hRow rfl)
    refine ⟨h.2, fun v hv hElse hKey => ?_⟩
    have := hDb.consistent.valuesFresh v (hDb.value_now hv hElse)
    simp only at hKey
    omega
  foundValue _ _ _ row hDb h hRow hOf := by
    have hInside : start.elsewhere s row.page = false := hOf ▸ h.2
    refine ⟨hInside, fun v hv hElse hKey => ?_⟩
    rw [hDb.consistent.values.eq (hDb.value_now hv hElse) hRow hKey, hInside] at hElse
    cases hElse
  saveValue _ _ _ _ hDb h := ⟨hDb.updateValue h.1 h.2, hDb.insertValue h.1⟩
  deletePages _ _ _ hDb hKnown := by
    refine hDb.deletePages hStart hIsolated fun p hp hDoomed => ?_
    obtain ⟨q, hq, hKey⟩ := hKnown p hp hDoomed
    exact hKey ▸ hq.2
  deleteLinks _ _ _ hDb hKnown := by
    refine hDb.deleteLinks hStart hIsolated fun l hDoomed => ?_
    obtain ⟨q, hq, hKey | hKey⟩ := hKnown l hDoomed
    · exact .inl (hKey ▸ hq.2)
    · exact .inr (hKey ▸ hq.2)
  deleteValues _ _ _ hDb hKnown := by
    refine hDb.deleteValues fun v hDoomed => ?_
    obtain ⟨q, hq, hKey⟩ := hKnown v hDoomed
    exact hKey ▸ hq.2

end Spidercheck
