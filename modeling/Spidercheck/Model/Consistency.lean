import Spidercheck.Model.Views

/-! The integrity of the database: unique keys, valid references and columns
within their width. Every statement of the program maintains it. -/
namespace Spidercheck

open Text Execution Relational

structure Database.Consistent (db : Database) : Prop where
  sites : Keyed Site.idSite db.sites
  sitesFresh : ∀ s ∈ db.sites, s.idSite < db.nextSite
  siteNames : Keyed Site.name db.sites
  siteUrls : Keyed Site.uniqueUrl db.sites
  pages : Keyed Page.idPage db.pages
  pagesFresh : ∀ p ∈ db.pages, p.idPage < db.nextPage
  fullPaths : Keyed Page.fullPath db.pages
  pagesFit : ∀ p ∈ db.pages, p.fits = true
  pageSites : ∀ p ∈ db.pages, ∃ s ∈ db.sites, s.idSite = p.site
  links : Keyed Link.idLink db.links
  linksFresh : ∀ l ∈ db.links, l.idLink < db.nextLink
  fromTo : Keyed Link.fromTo db.links
  linkFrom : ∀ l ∈ db.links, ∃ p ∈ db.pages, p.idPage = l.fromPage
  linkTo : ∀ l ∈ db.links, ∃ p ∈ db.pages, p.idPage = l.toPage
  values : Keyed Value.idValue db.values
  valuesFresh : ∀ v ∈ db.values, v.idValue < db.nextValue
  naturalKeys : Keyed Value.naturalKey db.values
  valuePages : ∀ v ∈ db.values, ∃ p ∈ db.pages, p.idPage = v.page
  scheduled : Keyed ScheduledPage.page db.scheduled
  scheduledPages : ∀ s ∈ db.scheduled, ∃ p ∈ db.pages, p.idPage = s.page

def seedSite : Site :=
  { idSite := 1, name := "s", scheme := "http", netloc := "h", path := "/", createdAt := 10 }

def seedPage : Page := { Page.new 1 "/" [] with idPage := 1, status := -1, createdAt := 1 }

namespace Database
variable {db : Database}

theorem consistent_empty : Database.empty.Consistent := by
  constructor <;> simp [Database.empty, Keyed]

/-- The database after `init_site('http://h/', 's')`. -/
def seeded : Database :=
  { empty with sites := [seedSite], pages := [seedPage], nextSite := 2, nextPage := 2 }

theorem run_initSite_seeded :
    (initSite (.scripted []) (.scripted (.raised dataError)) "http://h/" "s").run empty =
      (.ok seedSite, seeded) := by
  rfl

theorem consistent_seeded : seeded.Consistent := by
  constructor <;> simp [seeded, empty, Keyed, seedSite, seedPage, Page.new]
  decide

theorem hasSite_iff {pk : Nat} : db.hasSite pk = true ↔ ∃ s ∈ db.sites, s.idSite = pk := by
  simp [hasSite]

theorem hasPage_iff {pk : Nat} : db.hasPage pk = true ↔ ∃ p ∈ db.pages, p.idPage = pk := by
  simp [hasPage]

/-- What a new site has to meet. -/
theorem siteViolation_eq_none {row : Site} :
    db.siteViolation row = none ↔ row.fits = true ∧ (∀ s ∈ db.sites, s.name ≠ row.name) ∧
      ∀ s ∈ db.sites, s.uniqueUrl ≠ row.uniqueUrl := by
  simp [siteViolation, firstError]

/-- What a page row has to meet. -/
theorem pageViolation_eq_none {row : Page} :
    db.pageViolation row = none ↔ row.fits = true ∧ (∃ s ∈ db.sites, s.idSite = row.site) ∧
      ∀ p ∈ db.pages, p.idPage ≠ row.idPage → p.fullPath ≠ row.fullPath := by
  simp [pageViolation, firstError, hasSite_iff]

/-- What a new link has to meet. -/
theorem linkViolation_eq_none {row : Link} :
    db.linkViolation row = none ↔ (∃ p ∈ db.pages, p.idPage = row.fromPage) ∧
      (∃ p ∈ db.pages, p.idPage = row.toPage) ∧ ∀ l ∈ db.links, l.fromTo ≠ row.fromTo := by
  simp [linkViolation, firstError, hasPage_iff]

/-- What a value row has to meet. -/
theorem valueViolation_eq_none {row : Value} :
    db.valueViolation row = none ↔ row.fits = true ∧ (∃ p ∈ db.pages, p.idPage = row.page) ∧
      ∀ v ∈ db.values, v.idValue ≠ row.idValue → v.naturalKey ≠ row.naturalKey := by
  simp [valueViolation, firstError, hasPage_iff]

/-- A statement keeps what holds of its two outcomes. -/
theorem accept_preserves (Inv : Database → Prop) {α : Type} {v : Option PyError} {a : α}
    {db' : Database} (h : Inv db) (hAccept : v = none → Inv db') : Inv (accept v db a db').2 := by
  cases v with
  | none => exact hAccept rfl
  | some e => exact h

/-- A statement either fails and writes nothing, or writes. -/
theorem accept_cases {α : Type} (v : Option PyError) (db : Database) (a : α) (db' : Database) :
    (∃ e, accept v db a db' = (.error e, db)) ∨ accept v db a db' = (.ok a, db') := by
  cases v with
  | none => exact .inr rfl
  | some e => exact .inl ⟨e, rfl⟩

theorem accept_eq_ok {α : Type} {v : Option PyError} {a b : α} {db' db'' : Database}
    (h : accept v db a db' = (.ok b, db'')) : b = a ∧ db'' = db' := by
  cases v with
  | none => simpa [accept, eq_comm] using h
  | some e => simp [accept] at h

theorem accept_eq_error {α : Type} {v : Option PyError} {a : α} {e : PyError} {db' db'' : Database}
    (h : accept v db a db' = (.error e, db'')) : db'' = db := by
  cases v with
  | none => simp [accept] at h
  | some e' => exact (Prod.mk.inj h).2.symm

structure SamePages (db db' : Database) : Prop where
  sites : db'.sites = db.sites
  pages : db'.pages = db.pages
  scheduled : db'.scheduled = db.scheduled

theorem samePages_insertLink (fromPage toPage : Nat) :
    db.SamePages (db.insertLink fromPage toPage).2 :=
  accept_preserves db.SamePages ⟨rfl, rfl, rfl⟩ fun _ => ⟨rfl, rfl, rfl⟩

theorem samePages_insertValue (row : Value) : db.SamePages (db.insertValue row).2 :=
  accept_preserves db.SamePages ⟨rfl, rfl, rfl⟩ fun _ => ⟨rfl, rfl, rfl⟩

theorem samePages_updateValue (row : Value) : db.SamePages (db.updateValue row).2 := by
  unfold Database.updateValue
  split
  · exact accept_preserves db.SamePages ⟨rfl, rfl, rfl⟩ fun _ => ⟨rfl, rfl, rfl⟩
  · exact ⟨rfl, rfl, rfl⟩

def withPage (db : Database) (row : Page) : Database :=
  { db with pages := db.pages ++ [row], nextPage := max db.nextPage (row.idPage + 1) }

/-- An inserted page has the key and the time of its `INSERT`. -/
theorem insertPage_cases (db : Database) (stamp : Nat → Time) (pk : Nat) (row : Page) :
    (∃ e, db.insertPage stamp pk row = (.error e, db)) ∨ db.insertPage stamp pk row =
      (.ok { row with idPage := pk, createdAt := stamp pk },
        db.withPage { row with idPage := pk, createdAt := stamp pk }) :=
  accept_cases ..

theorem updatePage_cases (db : Database) (row : Page) :
    (db.updatePage row).2 = db ∨
      db.updatePage row = (.ok true, { db with pages := replace Page.idPage row db.pages }) := by
  unfold Database.updatePage
  split
  · exact (accept_cases ..).imp (fun ⟨e, hReject⟩ => by rw [hReject]) id
  · exact .inl rfl

theorem mem_pages_insertPage {stamp : Nat → Time} {pk : Nat} {row p : Page}
    (h : p ∈ (db.insertPage stamp pk row).2.pages) :
    p ∈ db.pages ∨ p = { row with idPage := pk, createdAt := stamp pk } := by
  obtain ⟨e, hReject⟩ | hAccept := db.insertPage_cases stamp pk row
  · rw [hReject] at h
    exact .inl h
  · rw [hAccept] at h
    exact (List.mem_append.mp h).imp id List.mem_singleton.mp

theorem mem_pages_updatePage {row p : Page} (h : p ∈ (db.updatePage row).2.pages) :
    p ∈ db.pages ∨ p = row := by
  obtain hReject | hAccept := db.updatePage_cases row
  · rw [hReject] at h
    exact .inl h
  · rw [hAccept] at h
    exact (mem_replace.mp h).symm.imp And.left And.left

theorem insertLink_cases (db : Database) (fromPage toPage : Nat) :
    (db.insertLink fromPage toPage).2 = db ∨ (db.insertLink fromPage toPage).2 =
      { db with
        links := db.links ++ [{ idLink := db.nextLink, fromPage := fromPage, toPage := toPage }]
        nextLink := db.nextLink + 1 } :=
  (accept_cases (db.linkViolation _) db _ _).imp (fun ⟨_, hReject⟩ => congrArg Prod.snd hReject)
    (congrArg Prod.snd)

theorem insertValue_cases (db : Database) (row : Value) :
    (db.insertValue row).2 = db ∨ (db.insertValue row).2 =
      { db with values := db.values ++ [row], nextValue := max db.nextValue (row.idValue + 1) } :=
  (accept_cases (if db.values.any (·.idValue == row.idValue) then some uniqueError
    else db.valueViolation row) db row _).imp (fun ⟨_, hReject⟩ => congrArg Prod.snd hReject)
    (congrArg Prod.snd)

theorem updateValue_cases (db : Database) (row : Value) :
    (db.updateValue row).2 = db ∨ (db.updateValue row).2 =
      { db with values := replace Value.idValue row db.values } := by
  unfold Database.updateValue
  split
  · exact (accept_cases (db.valueViolation row) db true _).imp
      (fun ⟨_, hReject⟩ => congrArg Prod.snd hReject) (congrArg Prod.snd)
  · exact .inl rfl

theorem Consistent.insertSite (h : db.Consistent) (createdAt : Time) (row : Site) :
    (db.insertSite createdAt row).2.Consistent := by
  refine accept_preserves Consistent h fun hv => ?_
  obtain ⟨-, hName, hUrl⟩ := siteViolation_eq_none.mp hv
  exact { h with
    sites := h.sites.append_singleton fun s hs => by
      have := h.sitesFresh s hs
      simp only
      omega
    sitesFresh := by
      intro s hs
      rcases List.mem_append.mp hs with hs | hs
      · have := h.sitesFresh s hs
        simp only
        omega
      · obtain rfl := List.mem_singleton.mp hs
        simp
    siteNames := h.siteNames.append_singleton hName
    siteUrls := h.siteUrls.append_singleton hUrl
    pageSites := fun p hp => by
      obtain ⟨s, hs, hEq⟩ := h.pageSites p hp
      exact ⟨s, List.mem_append_left _ hs, hEq⟩ }

/-- Inserting a page keeps the constraints. -/
theorem Consistent.insertPage (h : db.Consistent) (stamp : Nat → Time) (pk : Nat) (row : Page) :
    (db.insertPage stamp pk row).2.Consistent := by
  refine accept_preserves Consistent h fun hv => ?_
  have hFree : db.hasPage pk = false := by
    cases hHas : db.hasPage pk with
    | false => rfl
    | true => simp [hHas] at hv
  rw [hFree] at hv
  obtain ⟨hFits, hSite, hUnique⟩ := pageViolation_eq_none.mp hv
  have hNew : ∀ p ∈ db.pages, p.idPage ≠ pk := by simpa [hasPage] using hFree
  have hKeep {q : Nat} (hq : ∃ p ∈ db.pages, p.idPage = q) (new : Page) :
      ∃ p ∈ db.pages ++ [new], p.idPage = q := by
    obtain ⟨p, hp, hEq⟩ := hq
    exact ⟨p, List.mem_append_left _ hp, hEq⟩
  exact { h with
    pages := h.pages.append_singleton hNew
    pagesFresh := by
      intro p hp
      rcases List.mem_append.mp hp with hp | hp
      · have := h.pagesFresh p hp
        simp only
        omega
      · obtain rfl := List.mem_singleton.mp hp
        simp only
        omega
    fullPaths := h.fullPaths.append_singleton fun p hp => hUnique p hp (hNew p hp)
    pagesFit := by
      rw [List.forall_mem_append, List.forall_mem_singleton]
      exact ⟨h.pagesFit, hFits⟩
    pageSites := by
      rw [List.forall_mem_append, List.forall_mem_singleton]
      exact ⟨h.pageSites, hSite⟩
    linkFrom := fun l hl => hKeep (h.linkFrom l hl) _
    linkTo := fun l hl => hKeep (h.linkTo l hl) _
    valuePages := fun v hv => hKeep (h.valuePages v hv) _
    scheduledPages := fun s hs => hKeep (h.scheduledPages s hs) _ }

/-- Replacing a row keeps the keys that other tables refer to. -/
theorem exists_idPage_replace {row : Page} {q : Nat} (h : ∃ p ∈ db.pages, p.idPage = q) :
    ∃ p ∈ replace Page.idPage row db.pages, p.idPage = q := by
  have hMem : q ∈ (replace Page.idPage row db.pages).map Page.idPage := by
    rw [map_key_replace]
    exact List.mem_map.mpr h
  exact List.mem_map.mp hMem

theorem Consistent.updatePage (h : db.Consistent) (row : Page) : (db.updatePage row).2.Consistent := by
  unfold Database.updatePage
  split
  · refine accept_preserves Consistent h fun hv => ?_
    obtain ⟨hFits, hSite, hUnique⟩ := pageViolation_eq_none.mp hv
    exact { h with
      pages := h.pages.replace
      pagesFresh := forall_mem_replace h.pagesFresh fun r hr hEq => hEq ▸ h.pagesFresh r hr
      fullPaths := h.pages.replace_of h.fullPaths hUnique
      pagesFit := forall_mem_replace h.pagesFit fun _ _ _ => hFits
      pageSites := forall_mem_replace h.pageSites fun _ _ _ => hSite
      linkFrom := fun l hl => exists_idPage_replace (h.linkFrom l hl)
      linkTo := fun l hl => exists_idPage_replace (h.linkTo l hl)
      valuePages := fun v hv => exists_idPage_replace (h.valuePages v hv)
      scheduledPages := fun s hs => exists_idPage_replace (h.scheduledPages s hs) }
  · exact h

theorem Consistent.insertLink (h : db.Consistent) (fromPage toPage : Nat) :
    (db.insertLink fromPage toPage).2.Consistent := by
  refine accept_preserves Consistent h fun hv => ?_
  obtain ⟨hFrom, hTo, hUnique⟩ := linkViolation_eq_none.mp hv
  exact { h with
    links := h.links.append_singleton fun l hl => by
      have := h.linksFresh l hl
      simp only
      omega
    linksFresh := by
      intro l hl
      rcases List.mem_append.mp hl with hl | hl
      · have := h.linksFresh l hl
        simp only
        omega
      · obtain rfl := List.mem_singleton.mp hl
        simp
    fromTo := h.fromTo.append_singleton hUnique
    linkFrom := by
      rw [List.forall_mem_append, List.forall_mem_singleton]
      exact ⟨h.linkFrom, hFrom⟩
    linkTo := by
      rw [List.forall_mem_append, List.forall_mem_singleton]
      exact ⟨h.linkTo, hTo⟩ }

theorem Consistent.insertValue (h : db.Consistent) (row : Value) :
    (db.insertValue row).2.Consistent := by
  refine accept_preserves Consistent h fun hv => ?_
  have hFree : db.values.any (·.idValue == row.idValue) = false := by
    cases hHas : db.values.any (·.idValue == row.idValue) with
    | false => rfl
    | true => simp [hHas] at hv
  rw [hFree] at hv
  obtain ⟨-, hPage, hUnique⟩ := valueViolation_eq_none.mp hv
  have hNew : ∀ v ∈ db.values, v.idValue ≠ row.idValue := by simpa using hFree
  exact { h with
    values := h.values.append_singleton hNew
    valuesFresh := by
      intro v hv
      rcases List.mem_append.mp hv with hv | hv
      · have := h.valuesFresh v hv
        simp only
        omega
      · obtain rfl := List.mem_singleton.mp hv
        simp only
        omega
    naturalKeys := h.naturalKeys.append_singleton fun v hv => hUnique v hv (hNew v hv)
    valuePages := by
      rw [List.forall_mem_append, List.forall_mem_singleton]
      exact ⟨h.valuePages, hPage⟩ }

theorem Consistent.updateValue (h : db.Consistent) (row : Value) :
    (db.updateValue row).2.Consistent := by
  unfold Database.updateValue
  split
  · refine accept_preserves Consistent h fun hv => ?_
    obtain ⟨-, hPage, hUnique⟩ := valueViolation_eq_none.mp hv
    exact { h with
      values := h.values.replace
      valuesFresh := forall_mem_replace h.valuesFresh fun r hr hEq => hEq ▸ h.valuesFresh r hr
      naturalKeys := h.values.replace_of h.naturalKeys hUnique
      valuePages := forall_mem_replace h.valuePages fun _ _ _ => hPage }
  · exact h

/-- Deleting pages with what cascades from them keeps the constraints. -/
theorem Consistent.deletePages (h : db.Consistent) (doomed : Page → Bool) :
    (db.deletePages doomed).Consistent := by
  -- a page that is referred to by a remaining row was not deleted
  have hKeep {q : Nat} (hq : ∃ p ∈ db.pages, p.idPage = q)
      (hStay : (db.pages.any fun p => doomed p && p.idPage == q) = false) :
      ∃ p ∈ db.pages.filter (!doomed ·), p.idPage = q := by
    obtain ⟨p, hp, hEq⟩ := hq
    have := List.any_eq_false.mp hStay p hp
    exact ⟨p, by simpa [hp, hEq] using this, hEq⟩
  exact {
    sites := h.sites
    sitesFresh := h.sitesFresh
    siteNames := h.siteNames
    siteUrls := h.siteUrls
    pages := h.pages.filter _
    pagesFresh := fun p hp => h.pagesFresh p (List.mem_of_mem_filter hp)
    fullPaths := h.fullPaths.filter _
    pagesFit := fun p hp => h.pagesFit p (List.mem_of_mem_filter hp)
    pageSites := fun p hp => h.pageSites p (List.mem_of_mem_filter hp)
    links := h.links.filter _
    linksFresh := fun l hl => h.linksFresh l (List.mem_of_mem_filter hl)
    fromTo := h.fromTo.filter _
    linkFrom := by
      intro l hl
      obtain ⟨hl, hStay⟩ := List.mem_filter.mp hl
      exact hKeep (h.linkFrom l hl) (by simpa using (Bool.and_eq_true_iff.mp hStay).1)
    linkTo := by
      intro l hl
      obtain ⟨hl, hStay⟩ := List.mem_filter.mp hl
      exact hKeep (h.linkTo l hl) (by simpa using (Bool.and_eq_true_iff.mp hStay).2)
    values := h.values.filter _
    valuesFresh := fun v hv => h.valuesFresh v (List.mem_of_mem_filter hv)
    naturalKeys := h.naturalKeys.filter _
    valuePages := by
      intro v hv
      obtain ⟨hv, hStay⟩ := List.mem_filter.mp hv
      exact hKeep (h.valuePages v hv) (by simpa using hStay)
    scheduled := h.scheduled.filter _
    scheduledPages := by
      intro s hs
      obtain ⟨hs, hStay⟩ := List.mem_filter.mp hs
      exact hKeep (h.scheduledPages s hs) (by simpa using hStay) }

theorem Consistent.deleteLinks (h : db.Consistent) (doomed : Link → Bool) :
    (db.deleteLinks doomed).Consistent :=
  { h with
    links := h.links.filter _
    linksFresh := fun l hl => h.linksFresh l (List.mem_of_mem_filter hl)
    fromTo := h.fromTo.filter _
    linkFrom := fun l hl => h.linkFrom l (List.mem_of_mem_filter hl)
    linkTo := fun l hl => h.linkTo l (List.mem_of_mem_filter hl) }

theorem Consistent.deleteValues (h : db.Consistent) (doomed : Value → Bool) :
    (db.deleteValues doomed).Consistent :=
  { h with
    values := h.values.filter _
    valuesFresh := fun v hv => h.valuesFresh v (List.mem_of_mem_filter hv)
    naturalKeys := h.naturalKeys.filter _
    valuePages := fun v hv => h.valuePages v (List.mem_of_mem_filter hv) }

end Database

end Spidercheck
