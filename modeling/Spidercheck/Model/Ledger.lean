import Spidercheck.Model.Calls
import Mathlib.Logic.Function.Basic

/-! Invariants of links. A key is given to a page once and for all, and what the
program never changes about a page is assigned to its key with it. The ledger of
these assignments only grows, so a session can rely on what it knows of the two
ends of a link although other sessions have written since it loaded them. -/
namespace Spidercheck

open Text Url Execution Relational

/-- A view of pages that neither a check nor a new time of creation changes. -/
def Lasts {View : Type} (view : Page → View) : Prop :=
  ∀ p q : Page, p.idPage = q.idPage → p.fullPath = q.fullPath → p.isLinkable = q.isLinkable →
    view p = view q

/-- What is assigned to the keys of pages, and the sites. -/
structure Ledger (View : Type) where
  assigned : Nat → Option View
  sites : List Site
  keyed : Keyed Site.idSite sites

namespace Ledger
variable {View : Type}

instance : Preorder (Ledger View) where
  le w w' := (∀ k a, w.assigned k = some a → w'.assigned k = some a) ∧ w.sites ⊆ w'.sites
  le_refl _ := ⟨fun _ _ h => h, List.Subset.refl _⟩
  le_trans _ _ _ h h' := ⟨fun k a hk => h'.1 k a (h.1 k a hk), List.Subset.trans h.2 h'.2⟩

/-- The database is as the ledger says, and its links join what may be joined. -/
structure Describes (view : Page → View) (Joins : View → View → Prop) (w : Ledger View)
    (db : Database) : Prop where
  consistent : db.Consistent
  sites : db.sites = w.sites
  rows : ∀ p ∈ db.pages, w.assigned p.idPage = some (view p)
  fresh : ∀ k, db.nextPage ≤ k → w.assigned k = none
  links : ∀ l ∈ db.links, ∃ a b, w.assigned l.fromPage = some a ∧ w.assigned l.toPage = some b ∧
    Joins a b

def assign (w : Ledger View) (k : Nat) (a : View) : Ledger View :=
  { w with assigned := Function.update w.assigned k (some a) }

def withSites (w : Ledger View) (sites : List Site) (h : Keyed Site.idSite sites) : Ledger View :=
  { w with sites := sites, keyed := h }

variable {view : Page → View} {Joins : View → View → Prop} {w : Ledger View} {db : Database}

/-- A new assignment extends the ledger. -/
theorem le_assign {k : Nat} (h : w.assigned k = none) (a : View) : w ≤ w.assign k a := by
  refine ⟨fun k' b hAssigned => ?_, List.Subset.refl _⟩
  have hNe : k' ≠ k := by
    rintro rfl
    rw [h] at hAssigned
    cases hAssigned
  exact (Function.update_of_ne hNe ..).trans hAssigned

/-- Links stay as they were, or lose some rows. -/
theorem Describes.of_subset (h : w.Describes view Joins db) {db' : Database}
    (hConsistent : db'.Consistent) (hSites : db'.sites = db.sites) (hPages : db'.pages ⊆ db.pages)
    (hNext : db'.nextPage = db.nextPage) (hLinks : db'.links ⊆ db.links) :
    w.Describes view Joins db' where
  consistent := hConsistent
  sites := hSites.trans h.sites
  rows p hp := h.rows p (hPages hp)
  fresh k hk := h.fresh k (hNext ▸ hk)
  links l hl := h.links l (hLinks hl)

/-- A new page can be entered in the ledger. -/
theorem Describes.insertPage (h : w.Describes view Joins db) (stamp : Nat → Time) (row : Page) :
    let added := db.insertPage stamp db.nextPage row
    ∃ w', w ≤ w' ∧ w'.Describes view Joins added.2 ∧
      ∀ r, added.1 = .ok r → w'.assigned r.idPage = some (view r) := by
  intro added
  let new : Page := { row with idPage := db.nextPage, createdAt := stamp db.nextPage }
  have hConsistent : added.2.Consistent := h.consistent.insertPage stamp db.nextPage row
  obtain ⟨e, hReject⟩ | hAccept := db.insertPage_cases stamp db.nextPage row
  · refine ⟨w, le_rfl, ?_, fun r hReturn => ?_⟩
    · rw [show added = _ from hReject]
      exact h
    · rw [show added = _ from hReject] at hReturn
      cases hReturn
  · have hLater : w ≤ w.assign db.nextPage (view new) := le_assign (h.fresh _ le_rfl) _
    have hNew : (w.assign db.nextPage (view new)).assigned new.idPage = some (view new) :=
      Function.update_self ..
    have hAdded : added = (.ok new, db.withPage new) := hAccept
    rw [hAdded] at hConsistent ⊢
    refine ⟨_, hLater, ⟨hConsistent, h.sites, ?rows, ?fresh, ?links⟩, ?returned⟩
    case rows =>
      intro p hp
      rcases List.mem_append.mp hp with hp | hp
      · exact hLater.1 _ _ (h.rows p hp)
      · rw [List.mem_singleton.mp hp]
        exact hNew
    case fresh =>
      intro k hk
      have hAbove : db.nextPage + 1 ≤ k := (le_max_right _ _).trans hk
      exact (Function.update_of_ne (by omega) ..).trans (h.fresh k (by omega))
    case links =>
      intro l hl
      obtain ⟨a, b, hFrom, hTo, hJoins⟩ := h.links l hl
      exact ⟨a, b, hLater.1 _ _ hFrom, hLater.1 _ _ hTo, hJoins⟩
    case returned =>
      intro r hReturn
      obtain rfl : new = r := Except.ok.inj hReturn
      exact hNew

/-- A page that is known is written under its own key. -/
theorem Describes.savePage (hView : Lasts view) (h : w.Describes view Joins db)
    (stamp : Nat → Time) {row : Page} (hKnown : w.assigned row.idPage = some (view row)) :
    w.Describes view Joins (db.updatePage row).2 ∧
      w.Describes view Joins (db.insertPage stamp row.idPage row).2 := by
  constructor
  · have hConsistent : (db.updatePage row).2.Consistent := h.consistent.updatePage row
    have hRows (p : Page) (hp : p ∈ (db.updatePage row).2.pages) :
        w.assigned p.idPage = some (view p) := by
      rcases Database.mem_pages_updatePage hp with hp | rfl
      · exact h.rows p hp
      · exact hKnown
    obtain hReject | hAccept := db.updatePage_cases row
    · rw [hReject]
      exact h
    · rw [hAccept] at hConsistent hRows ⊢
      exact ⟨hConsistent, h.sites, hRows, h.fresh, h.links⟩
  · have hConsistent : (db.insertPage stamp row.idPage row).2.Consistent :=
      h.consistent.insertPage stamp row.idPage row
    obtain ⟨e, hReject⟩ | hAccept := db.insertPage_cases stamp row.idPage row
    · rw [hReject]
      exact h
    · rw [hAccept] at hConsistent ⊢
      refine ⟨hConsistent, h.sites, ?_, ?_, h.links⟩
      · intro p hp
        rcases List.mem_append.mp hp with hp | hp
        · exact h.rows p hp
        · rw [List.mem_singleton.mp hp]
          exact hKnown.trans (congrArg some (hView _ _ rfl rfl rfl))
      · intro k hk
        exact h.fresh k ((le_max_left _ _).trans hk)

/-- A link between pages that may be joined keeps the ledger right. -/
theorem Describes.insertLink (h : w.Describes view Joins db) {from' to' : Nat} {a b : View}
    (hFrom : w.assigned from' = some a) (hTo : w.assigned to' = some b) (hJoins : Joins a b) :
    w.Describes view Joins (db.insertLink from' to').2 := by
  have hConsistent : (db.insertLink from' to').2.Consistent := h.consistent.insertLink from' to'
  obtain hReject | hAccept := db.insertLink_cases from' to'
  · rw [hReject]
    exact h
  · rw [hAccept] at hConsistent ⊢
    refine ⟨hConsistent, h.sites, h.rows, h.fresh, fun l hl => ?_⟩
    rcases List.mem_append.mp hl with hl | hl
    · exact h.links l hl
    · rw [List.mem_singleton.mp hl]
      exact ⟨a, b, hFrom, hTo, hJoins⟩

theorem Describes.insertValue (h : w.Describes view Joins db) (row : Value) :
    w.Describes view Joins (db.insertValue row).2 := by
  have hConsistent : (db.insertValue row).2.Consistent := h.consistent.insertValue row
  obtain hReject | hAccept := db.insertValue_cases row
  · rw [hReject]
    exact h
  · rw [hAccept] at hConsistent ⊢
    exact ⟨hConsistent, h.sites, h.rows, h.fresh, h.links⟩

theorem Describes.updateValue (h : w.Describes view Joins db) (row : Value) :
    w.Describes view Joins (db.updateValue row).2 := by
  have hConsistent : (db.updateValue row).2.Consistent := h.consistent.updateValue row
  obtain hReject | hAccept := db.updateValue_cases row
  · rw [hReject]
    exact h
  · rw [hAccept] at hConsistent ⊢
    exact ⟨hConsistent, h.sites, h.rows, h.fresh, h.links⟩

theorem Describes.insertSite (h : w.Describes view Joins db) (createdAt : Time) (row : Site) :
    let added := db.insertSite createdAt row
    ∃ w', w ≤ w' ∧ w'.Describes view Joins added.2 ∧ ∀ site, added.1 = .ok site → site ∈ w'.sites := by
  intro added
  let new : Site := { row with idSite := db.nextSite, createdAt := createdAt }
  have hConsistent : added.2.Consistent := h.consistent.insertSite createdAt row
  obtain ⟨e, hReject⟩ | hAccept := Database.accept_cases (db.siteViolation new) db new
    { db with sites := db.sites ++ [new], nextSite := db.nextSite + 1 }
  · have hAdded : added = (.error e, db) := hReject
    rw [hAdded]
    exact ⟨w, le_rfl, h, fun site hReturn => nomatch hReturn⟩
  · have hAdded : added = (.ok new, _) := hAccept
    rw [hAdded] at hConsistent ⊢
    refine ⟨w.withSites _ hConsistent.sites, ⟨fun _ _ hk => hk, ?_⟩,
      ⟨hConsistent, rfl, h.rows, h.fresh, h.links⟩, fun site hReturn => ?_⟩
    · rw [← h.sites]
      exact List.subset_append_left _ _
    · obtain rfl : new = site := Except.ok.inj hReturn
      exact List.mem_append_right _ (List.mem_singleton_self _)

/-- The links of a database whose links join what may be joined. -/
theorem Describes.joins (h : w.Describes view Joins db) {l : Link} (hl : l ∈ db.links) {p q : Page}
    (hp : p ∈ db.pages) (hFrom : p.idPage = l.fromPage) (hq : q ∈ db.pages)
    (hTo : q.idPage = l.toPage) : Joins (view p) (view q) := by
  obtain ⟨a, b, hA, hB, hJoins⟩ := h.links l hl
  have hP : w.assigned l.fromPage = some (view p) := hFrom ▸ h.rows p hp
  have hQ : w.assigned l.toPage = some (view q) := hTo ▸ h.rows q hq
  obtain rfl : view p = a := Option.some.inj (hP.symm.trans hA)
  obtain rfl : view q = b := Option.some.inj (hQ.symm.trans hB)
  exact hJoins

end Ledger

def Database.LinksJoin {View : Type} (view : Page → View) (Joins : View → View → Prop)
    (db : Database) : Prop :=
  ∀ l ∈ db.links, ∀ p ∈ db.pages, p.idPage = l.fromPage → ∀ q ∈ db.pages, q.idPage = l.toPage →
    Joins (view p) (view q)

namespace Ledger
variable {View : Type} (view : Page → View)

def ofDatabase (db : Database) (h : db.Consistent) : Ledger View where
  assigned k := (db.pageById k).map view
  sites := db.sites
  keyed := h.sites

/-- A consistent database is described by its own ledger. -/
theorem describes_ofDatabase {Joins : View → View → Prop} {db : Database} (h : db.Consistent)
    (hLinks : db.LinksJoin view Joins) : (ofDatabase view db h).Describes view Joins db where
  consistent := h
  sites := rfl
  rows p hp := congrArg (Option.map view) (h.pageById hp)
  fresh k hk := by
    have hNone : db.pageById k = none := by
      apply lookup_eq_none.mpr
      rintro p hp rfl
      have := h.pagesFresh p hp
      omega
    exact congrArg (Option.map view) hNone
  links l hl := by
    obtain ⟨p, hp, hFrom⟩ := h.linkFrom l hl
    obtain ⟨q, hq, hTo⟩ := h.linkTo l hl
    refine ⟨view p, view q, ?_, ?_, hLinks l hl p hp hFrom q hq hTo⟩
    · exact hFrom ▸ congrArg (Option.map view) (h.pageById hp)
    · exact hTo ▸ congrArg (Option.map view) (h.pageById hq)

theorem Describes.linksJoin {view : Page → View} {Joins : View → View → Prop} {w : Ledger View}
    {db : Database} (h : w.Describes view Joins db) : db.LinksJoin view Joins :=
  fun _ hl _ hp hFrom _ hq hTo => h.joins hl hp hFrom hq hTo

end Ledger

/-- The discipline of a lasting view. Known pages with one key look the same. -/
def ledger {View : Type} (view : Page → View) (Joins : View → View → Prop) (hView : Lasts view) :
    OpenDiscipline (Ledger View) where
  Holds := Ledger.Describes view Joins
  Knows w page := w.assigned page.idPage = some (view page)
  Hosts w site := site ∈ w.sites
  Owns _ _ := True
  Clock _ := True
  Joins page target := (page.idPage = target.idPage → view page = view target) →
    Joins (view page) (view target)
  knowsLasting _ _ _ hLater h := hLater.1 _ _ h
  hostsLasting _ _ _ hLater h := hLater.2 h
  ownsLasting _ _ _ _ h := h
  checked w page now row h _ hRow := by
    rw [hRow]
    exact h.trans (congrArg some (hView _ _ rfl rfl rfl))
  joinsChecked page now row target hRow h := by
    have hSame : view row = view page := by
      rw [hRow]
      exact hView _ _ rfl rfl rfl
    have hKey : row.idPage = page.idPage := by
      rw [hRow]
      rfl
    rw [hSame, hKey]
    exact h
  siteOf _ _ _ _ hDb _ hSite := hDb.sites ▸ mem_sites_of_siteById hSite
  found _ _ _ page hDb _ hPage _ := hDb.rows page hPage
  insertPage _ _ _ stamp _ _ _ hDb _ := hDb.insertPage stamp _
  savePage _ _ stamp _ hDb hKnown := hDb.savePage hView stamp hKnown
  insertLink _ _ page target hDb hPage hTarget hJoins := by
    apply hDb.insertLink hPage hTarget
    apply hJoins
    intro hKey
    rw [hKey] at hPage
    exact Option.some.inj (hPage.symm.trans hTarget)
  insertValue _ _ _ _ _ hDb _ := ⟨hDb.insertValue _, fun _ _ => trivial⟩
  foundValue _ _ _ _ _ _ _ _ := trivial
  saveValue _ _ _ _ hDb _ := ⟨hDb.updateValue _, hDb.insertValue _⟩
  deletePages _ _ doomed hDb _ := hDb.of_subset (hDb.consistent.deletePages doomed) rfl
    List.filter_sublist.subset rfl List.filter_sublist.subset
  deleteLinks _ _ doomed hDb _ := hDb.of_subset (hDb.consistent.deleteLinks doomed) rfl
    (List.Subset.refl _) rfl List.filter_sublist.subset
  deleteValues _ _ doomed hDb _ := hDb.of_subset (hDb.consistent.deleteValues doomed) rfl
    (List.Subset.refl _) rfl (List.Subset.refl _)
  loaded _ _ page hDb hPage := hDb.rows page hPage
  stored _ _ _ hDb hSite := hDb.sites ▸ hSite
  insertSite _ _ createdAt row hDb := hDb.insertSite createdAt row

end Spidercheck
