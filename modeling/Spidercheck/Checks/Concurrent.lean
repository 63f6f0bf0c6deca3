import Spidercheck.Checks.Outcome
import Spidercheck.Execution.Interleaving

/-! A check of a page beside an operation of a user on the same page. Both load
the row first and save all of its columns at the end. The outcome is that of
running one after the other unless a page statement of one falls between the
load and the save of the other. -/
namespace Spidercheck

open Text Url Execution Relational

variable {py : Platform} {input : Input} {db : Database} {page row : Page} {site : Site}
  {sites : List Site} {Returned : Type}

/-- The operations of a user on the page with a given key, or on its site. -/
inductive UserOperation where
  | toogleIsLinkable
  | pageDelete
  | resetSite
  deriving DecidableEq, Repr

def UserOperation.session (py : Platform) (input : Input) (pk : Nat) (name : Str) :
    UserOperation → Session Unit
  | toogleIsLinkable => Spidercheck.toogleIsLinkable input.stamp pk
  | pageDelete => Spidercheck.pageDelete pk
  | resetSite => do
    let _ ← Spidercheck.resetSite py input name
    pure ()

def Label.selectPage : Label := { verb := .select, table := .page }

def Label.WritesPage (label : Label) : Prop := label.table = .page ∧ label.verb ≠ .select

instance : DecidablePred Label.WritesPage :=
  fun label => inferInstanceAs (Decidable (label.table = .page ∧ label.verb ≠ .select))

/-- The page is there under its address, or it is gone for good. -/
structure Known (sites : List Site) (page : Page) (db : Database) : Prop where
  consistent : db.Consistent
  sites : db.sites = sites
  fresh : page.idPage < db.nextPage
  address : ∀ p ∈ db.pages, p.idPage = page.idPage → p.fullPath = page.fullPath

def Present (sites : List Site) (page : Page) (db : Database) : Prop :=
  Known sites page db ∧ ∃ p ∈ db.pages, p.idPage = page.idPage

def Gone (sites : List Site) (page : Page) (db : Database) : Prop :=
  Known sites page db ∧ ∀ p ∈ db.pages, p.idPage ≠ page.idPage

/-- A stored page is there under its address. -/
theorem present_of_mem (h : db.Consistent) (hPage : page ∈ db.pages) : Present db.sites page db :=
  ⟨{ consistent := h
     sites := rfl
     fresh := h.pagesFresh page hPage
     address := fun _ hp hKey => congrArg Page.fullPath (h.pages.eq hp hPage hKey) },
    page, hPage, rfl⟩

theorem Present.pageById (h : Present sites page db) : ∃ p, db.pageById page.idPage = some p ∧
    p ∈ db.pages ∧ p.idPage = page.idPage ∧ p.fullPath = page.fullPath := by
  obtain ⟨hKnown, p, hp, hKey⟩ := h
  exact ⟨p, hKey ▸ hKnown.consistent.pageById hp, hp, hKey, hKnown.address p hp hKey⟩

/-- A page that is gone cannot be loaded. -/
theorem Gone.pageById (h : Gone sites page db) : db.pageById page.idPage = none :=
  lookup_eq_none.mpr h.2

theorem Known.deletePages (h : Known sites page db) (doomed : Page → Bool) :
    Known sites page (db.deletePages doomed) where
  consistent := h.consistent.deletePages doomed
  sites := h.sites
  fresh := h.fresh
  address := fun p hp => h.address p (List.mem_of_mem_filter hp)

/-- A deletion that meets the page makes it gone for good. -/
theorem Known.deletePages_gone (h : Known sites page db) {doomed : Page → Bool}
    (hDoomed : ∀ p ∈ db.pages, p.idPage = page.idPage → doomed p = true) :
    Gone sites page (db.deletePages doomed) := by
  refine ⟨h.deletePages doomed, ?_⟩
  intro p hp hKey
  obtain ⟨hp, hStay⟩ := List.mem_filter.mp hp
  simp [hDoomed p hp hKey] at hStay

theorem Present.deleteLinks (h : Present sites page db) (doomed : Link → Bool) :
    Present sites page (db.deleteLinks doomed) :=
  ⟨{ h.1 with consistent := h.1.consistent.deleteLinks doomed }, h.2⟩

/-- A new row has a new key, so it neither is the page nor brings it back. -/
theorem Known.insertPage (h : Known sites page db) (stamp : Nat → Time) (row : Page) :
    Known sites page (db.insertPage stamp db.nextPage row).2 where
  consistent := h.consistent.insertPage stamp db.nextPage row
  sites := Database.accept_preserves (·.sites = sites) h.sites fun _ => h.sites
  fresh := by
    refine Database.accept_preserves (page.idPage < ·.nextPage) h.fresh fun _ => ?_
    have := h.fresh
    simp only
    omega
  address := by
    refine Database.accept_preserves (fun db => ∀ p ∈ db.pages, p.idPage = page.idPage →
      p.fullPath = page.fullPath) h.address fun _ => ?_
    intro p hp hKey
    rcases List.mem_append.mp hp with hp | hp
    · exact h.address p hp hKey
    · obtain rfl := List.mem_singleton.mp hp
      exact absurd hKey h.fresh.ne'

/-- A new page never takes the key of one that is gone. -/
theorem Gone.insertPage (h : Gone sites page db) (stamp : Nat → Time) (row : Page) :
    Gone sites page (db.insertPage stamp db.nextPage row).2 := by
  refine ⟨h.1.insertPage stamp row, ?_⟩
  refine Database.accept_preserves (fun db => ∀ p ∈ db.pages, p.idPage ≠ page.idPage) h.2 fun _ => ?_
  intro p hp
  rcases List.mem_append.mp hp with hp | hp
  · exact h.2 p hp
  · obtain rfl := List.mem_singleton.mp hp
    exact h.1.fresh.ne'

/-- What a reset or a deletion reads of the database: no check changes it. -/
def Database.outline (db : Database) : List Link × List (Nat × Nat) :=
  (db.links, db.pages.map fun p => (p.idPage, p.site))

/-- Saving a row over the page leaves the outline as it is. -/
theorem outline_replace (h : Present sites page db) (hKey : row.idPage = page.idPage)
    (hPath : row.fullPath = page.fullPath) :
    Database.outline { db with pages := replace Page.idPage row db.pages } = db.outline := by
  simp only [Database.outline, replace, List.map_map, Prod.mk.injEq, true_and]
  refine List.map_congr_left fun p hp => ?_
  by_cases hSame : p.idPage = row.idPage
  · have hSite : p.site = row.site :=
      congrArg Prod.fst ((h.1.address p hp (hSame.trans hKey)).trans hPath.symm)
    simp [hSame, hSite]
  · simp [hSame]

/-- Saving a copy of the stored page is one statement, and the page stays stored. -/
theorem Present.updatePage (h : Present sites page db) (hKey : row.idPage = page.idPage)
    (hPath : row.fullPath = page.fullPath) :
    ((db.updatePage row).1 = .ok true ∨ ∃ e, (db.updatePage row).1 = .error e) ∧
      Present sites page (db.updatePage row).2 ∧ (db.updatePage row).2.outline = db.outline := by
  obtain ⟨p, -, hp, hSameKey, hSamePath⟩ := h.pageById
  have hUpdate := h.1.consistent.updatePage_of_stored
    ⟨p, hp, hSameKey.trans hKey.symm, hSamePath.trans hPath.symm⟩
  have hConsistent := h.1.consistent.updatePage row
  by_cases hFits : row.fits = true
  · rw [if_pos hFits] at hUpdate
    rw [hUpdate] at hConsistent ⊢
    refine ⟨.inl rfl, ⟨{ h.1 with consistent := hConsistent, address := ?_ }, ?_⟩,
      outline_replace h hKey hPath⟩
    · intro q hq hqKey
      rcases mem_replace.mp hq with ⟨rfl, -⟩ | ⟨hq, -⟩
      · exact hPath
      · exact h.1.address q hq hqKey
    · exact Database.exists_idPage_replace h.2
  · rw [if_neg hFits] at hUpdate
    rw [hUpdate]
    exact ⟨.inr ⟨_, rfl⟩, h, rfl⟩

section Check

theorem Page.requestable_congr {p q : Page} (hPath : p.fullPath = q.fullPath) :
    p.Requestable py site ↔ q.Requestable py site := by
  obtain ⟨-, hSubpath, hParams⟩ := by simpa [Page.fullPath] using hPath
  simp [Page.Requestable, Page.getFullUrl, hSubpath, hParams]

theorem loadPage_bind (pk : Nat) (k : Page → Session Returned) :
    loadPage pk >>= k = .atomic .selectPage id fun db =>
      match db.pageById pk with
      | some page => k page
      | none => .done (.error unknownPage) := by
  apply congrArg (Program.atomic Label.selectPage id)
  funext db
  cases hPage : db.pageById pk with
  | some page =>
      simp only [hPage]
      rfl
  | none =>
      simp only [hPage]
      rfl

/-- A save of a page ends with its first statement when the row is there. -/
theorem savePage_bind (stamp : Nat → Time) (row : Page) (r : Except PyError Returned) :
    ∃ next, (Session.savePage stamp row >>= fun _ => Program.done r) =
        .atomic { verb := .update, table := .page } (fun db => (db.updatePage row).2) next ∧
      ∀ db, ((db.updatePage row).1 = .ok true ∨ ∃ e, (db.updatePage row).1 = .error e) →
        ∃ r', next db = .done r' := by
  refine ⟨_, rfl, fun db hResult => ?_⟩
  obtain hMatched | ⟨e, hError⟩ := hResult
  · exact ⟨r, by simp only [hMatched]; rfl⟩
  · exact ⟨.error e, by simp only [hError]; rfl⟩

/-- Saving the row of the page is a last save. -/
theorem savePage_closes (stamp : Nat → Time) (r : Except PyError Returned)
    (hKey : row.idPage = page.idPage) (hPath : row.fullPath = page.fullPath) :
    (Session.savePage stamp row >>= fun _ => Program.done r).Closes Label.WritesPage
      (Present sites page) := by
  obtain ⟨next, hShape, hEnd⟩ := savePage_bind stamp row r
  rw [hShape]
  intro db hDb
  obtain ⟨hResult, hPresent, -⟩ := hDb.updatePage hKey hPath
  exact ⟨hPresent, .inl ⟨⟨rfl, by decide⟩, hEnd db hResult⟩⟩

theorem savePage_keeps (stamp : Nat → Time) (r : Except PyError Returned)
    (hKey : row.idPage = page.idPage) (hPath : row.fullPath = page.fullPath)
    (v : List Link × List (Nat × Nat)) :
    (Session.savePage stamp row >>= fun _ => Program.done r).Maintains
      fun db => Present sites page db ∧ db.outline = v := by
  obtain ⟨next, hShape, hEnd⟩ := savePage_bind stamp row r
  rw [hShape]
  intro db hDb
  obtain ⟨hResult, hPresent, hOutline⟩ := hDb.1.updatePage hKey hPath
  obtain ⟨r', hDone⟩ := hEnd db hResult
  rw [hDone]
  exact ⟨⟨hPresent, hOutline.trans hDb.2⟩, trivial⟩

theorem savePage_saving (stamp : Nat → Time) (r : Except PyError Returned)
    (Inv : Database → Prop) :
    (Session.savePage stamp row >>= fun _ => Program.done r).Saving Label.WritesPage Inv := by
  obtain ⟨next, hShape, -⟩ := savePage_bind stamp row r
  rw [hShape]
  exact .inl ⟨rfl, by decide⟩

def checkSited (py : Platform) (input : Input) (page : Page) (site : Site) : Session (Result Str) := do
  let url ← Program.liftExcept ((page.marked input.justNow).getFullUrl py site)
  let answer ← Program.liftExcept ((page.marked input.justNow).isValid py site input.head)
  checkAnswer py input (page.marked input.justNow) site url answer

/-- A check loads the site of its page first. -/
theorem checkPage_eq : checkPage py input page =
    .atomic { verb := .select, table := .site } id fun db =>
      match db.siteById page.site with
      | some site => checkSited py input page site
      | none => .done (.error
          { kind := .doesNotExist, text := "Site matching query does not exist." }) := by
  apply congrArg (Program.atomic (Label.mk .select .site) id)
  funext db
  cases hSite : db.siteById page.site with
  | some site =>
      have hMarked : db.siteById (page.marked input.justNow).site = some site := hSite
      simp only [hMarked]
      rfl
  | none =>
      have hMarked : db.siteById (page.marked input.justNow).site = none := hSite
      simp only [hMarked]
      rfl

/-- The check of the page comes to a save: it can be requested, and the request raises. -/
def Attempts (py : Platform) (input : Input) (site : Site) (page : Page) : Prop :=
  page.Requestable py site ∧ ∃ e, input.head = .raised e

/-- A check that is requested and refused saves its row and ends. -/
theorem checkSited_of_attempts (h : Attempts py input site page) : ∃ e r,
    checkSited py input page site =
      Session.savePage input.stamp (failedRow input page e) >>= fun _ => Program.done r := by
  obtain ⟨hRequest, e, hHead⟩ := h
  have hMarked : (page.marked input.justNow).Requestable py site := hRequest
  obtain ⟨url, hUrl, -⟩ := hRequest
  have hMarkedUrl : (page.marked input.justNow).getFullUrl py site = .ok url := hUrl
  refine ⟨e, .ok (.fail ("Error al comprobar " ++ url ++ ": " ++
    Result.failureText e.text (some (-1)))), ?_⟩
  rw [checkSited, isValid_of_requestable hMarked, hHead, hMarkedUrl]
  rfl

/-- A check that is not requested raises without a save. -/
theorem checkSited_of_not (h : ¬ Attempts py input site page) :
    ∃ e, checkSited py input page site = .done (.error e) := by
  have hMarkedUrl : (page.marked input.justNow).getFullUrl py site = page.getFullUrl py site := rfl
  rw [checkSited, hMarkedUrl]
  cases hUrl : page.getFullUrl py site with
  | error e => exact ⟨e, rfl⟩
  | ok url =>
      cases hValid : (page.marked input.justNow).isValid py site input.head with
      | error e => exact ⟨e, rfl⟩
      | ok answer =>
          have hMarked : (page.marked input.justNow).Requestable py site :=
            requestable_of_isValid hValid
          cases hHead : input.head with
          | raised e => exact (h ⟨hMarked, e, hHead⟩).elim
          | response r =>
              rw [isValid_of_requestable hMarked, hHead] at hValid
              by_cases hOk : 200 ≤ r.statusCode ∧ r.statusCode < 300
              · obtain rfl : Result.success Payload.true = answer := by simpa [hOk] using hValid
                exact ⟨_, rfl⟩
              · obtain rfl := by simpa only [if_neg hOk, Except.ok.injEq] using hValid
                exact ⟨_, rfl⟩

section Reads
variable {p : Page} {Inv : Database → Prop}

theorem attempts_congr (hPath : p.fullPath = page.fullPath) :
    Attempts py input site p ↔ Attempts py input site page :=
  and_congr (Page.requestable_congr hPath) Iff.rfl

theorem Known.siteById (h : Known sites page db) (hPath : p.fullPath = page.fullPath) :
    db.siteById p.site = lookup Site.idSite page.site sites := by
  rw [Database.siteById, h.sites, show p.site = page.site from congrArg Prod.fst hPath]

variable (hSite : lookup Site.idSite page.site sites = some site)
  (hKey : p.idPage = page.idPage) (hPath : p.fullPath = page.fullPath)

include hSite hKey hPath in
/-- A check that is refused loads first and saves last. -/
theorem checkPage_closes (h : Attempts py input site page) :
    (checkPage py input p).Closes Label.WritesPage (Present sites page) := by
  obtain ⟨e, r, hShape⟩ := checkSited_of_attempts ((attempts_congr hPath).mpr h)
  rw [checkPage_eq]
  intro db hDb
  refine ⟨hDb, .inr ⟨fun hSaves => hSaves.2 rfl, ?_⟩⟩
  simp only [hDb.1.siteById hPath, hSite, hShape]
  have hRowKey : (failedRow input p e).idPage = page.idPage := hKey
  exact savePage_closes input.stamp r hRowKey hPath

include hSite hKey hPath in
theorem checkPage_keeps (h : Attempts py input site page) (v : List Link × List (Nat × Nat)) :
    (checkPage py input p).Maintains fun db => Present sites page db ∧ db.outline = v := by
  obtain ⟨e, r, hShape⟩ := checkSited_of_attempts ((attempts_congr hPath).mpr h)
  rw [checkPage_eq]
  intro db hDb
  refine ⟨hDb, ?_⟩
  simp only [hDb.1.1.siteById hPath, hSite, hShape]
  have hRowKey : (failedRow input p e).idPage = page.idPage := hKey
  exact savePage_keeps input.stamp r hRowKey hPath v

include hSite hPath in
theorem checkPage_saving (h : Attempts py input site page) :
    (checkPage py input p).Saving Label.WritesPage (Known sites page) := by
  obtain ⟨e, r, hShape⟩ := checkSited_of_attempts ((attempts_congr hPath).mpr h)
  rw [checkPage_eq]
  refine .inr fun db hDb => ⟨hDb, ?_⟩
  simp only [hDb.siteById hPath, hSite, hShape]
  exact savePage_saving input.stamp r _

include hSite hPath in
/-- A check that is not requested writes nothing. -/
theorem checkPage_idle (h : ¬ Attempts py input site page) :
    (checkPage py input p).Idle (Known sites page) := by
  obtain ⟨e, hShape⟩ := checkSited_of_not (mt (attempts_congr hPath).mp h)
  rw [checkPage_eq]
  intro db hDb
  refine ⟨rfl, ?_⟩
  simp only [hDb.siteById hPath, hSite, hShape]
  trivial

end Reads

/-- The request: it loads the page and checks it. -/
theorem pageCheck_eq (pk : Nat) : pageCheck py input pk = .atomic .selectPage id fun db =>
    match db.pageById pk with
    | some page => checkPage py input page
    | none => .done (.error unknownPage) :=
  loadPage_bind pk (checkPage py input)

end Check

section Users

/-- The switch of the flag saves last. -/
theorem toogle_closes {p : Page} (stamp : Nat → Time) (hKey : p.idPage = page.idPage)
    (hPath : p.fullPath = page.fullPath) :
    (toogle stamp p).Closes Label.WritesPage (Present sites page) := by
  have hSave (row : Page) (hRowKey : row.idPage = page.idPage)
      (hRowPath : row.fullPath = page.fullPath) :
      (Session.savePage stamp row).Closes Label.WritesPage (Present sites page) := by
    rw [← bind_pure (Session.savePage stamp row)]
    exact savePage_closes stamp (.ok ()) hRowKey hRowPath
  unfold toogle
  simp only
  split
  · intro db hDb
    exact ⟨hDb.deleteLinks _, .inr ⟨fun hSaves => (nomatch hSaves.1), hSave _ hKey hPath⟩⟩
  · exact hSave _ hKey hPath

theorem toogleIsLinkable_eq (stamp : Nat → Time) (pk : Nat) :
    toogleIsLinkable stamp pk = .atomic .selectPage id fun db =>
      match db.pageById pk with
      | some page => toogle stamp page
      | none => .done (.error unknownPage) :=
  loadPage_bind pk (toogle stamp)

theorem toogleIsLinkable_closes (stamp : Nat → Time) :
    (toogleIsLinkable stamp page.idPage).Closes Label.WritesPage (Present sites page) := by
  rw [toogleIsLinkable_eq]
  intro db hDb
  refine ⟨hDb, .inr ⟨fun hSaves => hSaves.2 rfl, ?_⟩⟩
  obtain ⟨p, hLoad, -, hKey, hPath⟩ := hDb.pageById
  simp only [hLoad]
  exact toogle_closes stamp hKey hPath

theorem delete_congr {p q : Page} (hKey : p.idPage = q.idPage) (hSite : p.site = q.site) :
    delete p = delete q := by
  simp only [delete, siteOf, deletePage, Database.canBeDeleted, hKey, hSite]

/-- Deleting the page reads the outline, and then makes the page gone. -/
theorem delete_erases {p : Page} (hKey : p.idPage = page.idPage) :
    (delete p).Erases Database.outline Label.WritesPage (Present sites page) (Gone sites page) := by
  refine .inr ⟨fun hSaves => hSaves.2 rfl, fun db hDb => ⟨rfl, ?_, fun db' hDb' hView => ⟨rfl, ?_⟩⟩⟩
  · cases hFree : db.canBeDeleted p with
    | false => simp only [hFree]; trivial
    | true =>
        simp only [hFree]
        refine .inr ⟨fun hSaves => hSaves.2 rfl, fun db hDb => ⟨rfl, ?_, fun db' hDb' _ => ⟨rfl, ?_⟩⟩⟩
        · cases hSite : db.siteById p.site with
          | none => simp only [hSite]; trivial
          | some site =>
              simp only [hSite]
              refine .inl ⟨⟨rfl, by decide⟩, fun db hDb => ⟨?_, trivial⟩⟩
              exact hDb.1.deletePages_gone fun q _ hq => by simp [hq, hKey]
        · simp only [Database.siteById, hDb.1.sites, hDb'.1.sites]
  · have hLinks : db'.links = db.links := congrArg Prod.fst hView
    simp only [Database.canBeDeleted, hLinks]

theorem pageDelete_erases : (pageDelete page.idPage).Erases Database.outline Label.WritesPage
    (Present sites page) (Gone sites page) := by
  rw [pageDelete, loadPage_bind]
  refine .inr ⟨fun hSaves => hSaves.2 rfl, fun db hDb => ?_⟩
  obtain ⟨p, hLoad, -, hKey, hPath⟩ := hDb.pageById
  refine ⟨rfl, ?_, fun db' hDb' _ => ⟨rfl, ?_⟩⟩
  · simp only [hLoad]
    exact delete_erases hKey
  · obtain ⟨p', hLoad', -, hKey', hPath'⟩ := hDb'.pageById
    simp only [hLoad, hLoad']
    exact delete_congr (hKey'.trans hKey.symm)
      ((congrArg Prod.fst hPath').trans (congrArg Prod.fst hPath).symm)

theorem addPage_maintains {Inv : Database → Prop} {stamp : Nat → Time}
    (h : ∀ db row, Inv db → Inv (db.insertPage stamp db.nextPage row).2) (url : Str) :
    (site.addPage py stamp url).Maintains Inv := by
  refine (Program.maintains_liftExcept _).bind fun info => ?_
  refine (maintains_selectFrom _ _).bind fun found => ?_
  cases found with
  | some page => exact Program.maintains_pure _
  | none =>
      refine Program.Maintains.bind ?_ fun _ => Program.maintains_pure _
      exact Program.maintains_statement _ _ fun db hDb => h db _ hDb

/-- Resetting the site of the page makes the page gone. -/
theorem reset_erases (hSite : site.idSite = page.site) :
    (reset py input site >>= fun _ => (pure () : Session Unit)).Erases Database.outline
      Label.WritesPage (Present sites page) (Gone sites page) := by
  refine .inr ⟨fun hSaves => hSaves.2 rfl, fun db hDb => ⟨rfl, ?_, fun db' hDb' hView => ⟨rfl, ?_⟩⟩⟩
  · refine .inl ⟨⟨rfl, by decide⟩, fun db' hDb' => ⟨?_, ?_⟩⟩
    · refine hDb'.1.deletePages_gone fun q _ hq => ?_
      obtain ⟨p, -, hMem, hKey, hPath⟩ := hDb.pageById
      have hOwn : p.site = site.idSite := (congrArg Prod.fst hPath).trans hSite.symm
      rw [List.contains_iff_mem]
      exact List.mem_map.mpr
        ⟨p, List.mem_filter.mpr ⟨hMem, by simp [hOwn]⟩, hKey.trans hq.symm⟩
    · refine Program.Maintains.bind ?_ fun _ => Program.maintains_pure _
      refine (addPage_maintains (fun db row hDb => hDb.insertPage input.stamp row) _).bind
        fun _ => Program.maintains_pure _
  · have hPages : (db'.pagesOf site).map (·.idPage) = (db.pagesOf site).map (·.idPage) := by
      have hOutline (db : Database) : (db.pagesOf site).map (·.idPage) =
          (db.outline.2.filter (·.2 == site.idSite)).map (·.1) := by
        simp [Database.pagesOf, Database.outline, List.filter_map, Function.comp_def]
      rw [hOutline, hOutline, hView]
    simp only [hPages]

theorem Known.siteByName (h : Known sites page db) {name : Str} :
    db.siteByName name = sites.find? (·.name == name) := by
  rw [Database.siteByName, h.sites]

theorem resetSite_erases {name : Str} (hName : sites.find? (·.name == name) = some site)
    (hSite : site.idSite = page.site) :
    (resetSite py input name >>= fun _ => (pure () : Session Unit)).Erases Database.outline
      Label.WritesPage (Present sites page) (Gone sites page) := by
  refine .inr ⟨fun hSaves => hSaves.2 rfl, fun db hDb => ⟨rfl, ?_, fun db' hDb' _ => ⟨rfl, ?_⟩⟩⟩
  · have hFound : db.siteByName name = some site := hDb.1.siteByName.trans hName
    simp only [hFound]
    exact reset_erases hSite
  · simp only [hDb.1.siteByName, hDb'.1.siteByName]

theorem pageDelete_maintains (pk : Nat) : (pageDelete pk).Maintains (Known sites page) := by
  rw [pageDelete, loadPage_bind]
  intro db hDb
  refine ⟨hDb, ?_⟩
  cases hLoad : db.pageById pk with
  | none =>
      simp only [hLoad]
      trivial
  | some p =>
      simp only [hLoad]
      refine (maintains_selectFrom _ _).bind fun free => ?_
      cases free with
      | false => trivial
      | true =>
          refine (maintains_siteOf p).bind fun _ => ?_
          exact Program.maintains_statement _ _ fun db hDb => hDb.deletePages _

theorem resetSite_maintains (name : Str) :
    (resetSite py input name).Maintains (Known sites page) := by
  refine (maintains_selectFrom _ _).bind fun found => ?_
  cases found with
  | none => exact Program.maintains_raise _
  | some site =>
      refine (maintains_selectFrom _ _).bind fun doomed => ?_
      refine (Program.maintains_statement _ _ fun db hDb => hDb.deletePages _).bind fun _ => ?_
      refine (addPage_maintains (fun db row hDb => hDb.insertPage input.stamp row) _).bind
        fun _ => Program.maintains_pure _

end Users

section Beside
variable (hSite : lookup Site.idSite page.site sites = some site)

include hSite in
/-- A check that comes to no save writes nothing. -/
theorem pageCheck_idle (h : ¬ Attempts py input site page) :
    (pageCheck py input page.idPage).Idle (Known sites page) := by
  rw [pageCheck_eq]
  intro db hDb
  refine ⟨rfl, ?_⟩
  cases hLoad : db.pageById page.idPage with
  | none =>
      simp only [hLoad]
      trivial
  | some p =>
      simp only [hLoad]
      obtain ⟨hMem, hKey⟩ := mem_of_lookup hLoad
      exact checkPage_idle hSite (hDb.address p hMem hKey) h

include hSite in
theorem pageCheck_closes (h : Attempts py input site page) :
    (pageCheck py input page.idPage).Closes Label.WritesPage (Present sites page) := by
  rw [pageCheck_eq]
  intro db hDb
  refine ⟨hDb, .inr ⟨fun hSaves => hSaves.2 rfl, ?_⟩⟩
  obtain ⟨p, hLoad, -, hKey, hPath⟩ := hDb.pageById
  simp only [hLoad]
  exact checkPage_closes hSite hKey hPath h

include hSite in
theorem pageCheck_keeps (h : Attempts py input site page) (v : List Link × List (Nat × Nat)) :
    (pageCheck py input page.idPage).Maintains
      fun db => Present sites page db ∧ db.outline = v := by
  rw [pageCheck_eq]
  intro db hDb
  refine ⟨hDb, ?_⟩
  obtain ⟨p, hLoad, -, hKey, hPath⟩ := hDb.1.pageById
  simp only [hLoad]
  exact checkPage_keeps hSite hKey hPath h v

/-- A check of a page that is gone finds nothing. -/
theorem pageCheck_idle_gone : (pageCheck py input page.idPage).Idle (Gone sites page) := by
  rw [pageCheck_eq]
  intro db hDb
  refine ⟨rfl, ?_⟩
  simp only [hDb.pageById]
  trivial

include hSite in
/-- A check beside an operation that takes the page away. -/
theorem serial_of_erases {q : Session Unit} {db' : Database} {trace : List (Side × Label)}
    (hRun : Interleaving (pageCheck py input page.idPage) q db trace db')
    (hErases : q.Erases Database.outline Label.WritesPage (Present sites page) (Gone sites page))
    (hMaintains : q.Maintains (Known sites page)) (hPresent : Present sites page db)
    (hCheck : ¬ Overtaken .left Label.selectPage Label.WritesPage trace) :
    Serial (pageCheck py input page.idPage) q db db' := by
  by_cases hAttempts : Attempts py input site page
  · have hCloses := pageCheck_closes hSite hAttempts
    have hKeeps := pageCheck_keeps hSite hAttempts
    have hIdle : (pageCheck py input page.idPage).Idle (Gone sites page) := pageCheck_idle_gone
    rw [pageCheck_eq] at hRun hCloses hKeeps hIdle ⊢
    apply hRun.serial_of_erases hCloses (fun hSaves => hSaves.2 rfl) hKeeps ?_ hIdle hErases
      hMaintains (fun _ hDb => hDb.1) hPresent hCheck
    intro db hDb
    obtain ⟨p, hLoad, -, hKey, hPath⟩ := hDb.pageById
    simp only [hLoad]
    exact checkPage_saving hSite hPath hAttempts
  · exact hRun.serial_of_idle (pageCheck_idle hSite hAttempts) hMaintains hPresent.1

include hSite in
/-- A check beside a toggle of the page. -/
theorem serial_of_toogle {stamp : Nat → Time} {db' : Database} {trace : List (Side × Label)}
    (hRun : Interleaving (pageCheck py input page.idPage) (toogleIsLinkable stamp page.idPage)
      db trace db')
    (hPresent : Present sites page db)
    (hCheck : ¬ Overtaken .left Label.selectPage Label.WritesPage trace)
    (hToogle : ¬ Overtaken .right Label.selectPage Label.WritesPage trace) :
    Serial (pageCheck py input page.idPage) (toogleIsLinkable stamp page.idPage) db db' := by
  have hUser : (toogleIsLinkable stamp page.idPage).Closes Label.WritesPage
      (Present sites page) := toogleIsLinkable_closes stamp
  by_cases hAttempts : Attempts py input site page
  · have hCloses := pageCheck_closes hSite hAttempts
    rw [pageCheck_eq] at hRun hCloses ⊢
    rw [toogleIsLinkable_eq] at hRun hUser ⊢
    exact hRun.serial_of_closes hCloses hUser (fun hSaves => hSaves.2 rfl) hPresent hCheck hToogle
  · have hIdle : (pageCheck py input page.idPage).Idle (Present sites page) :=
      (pageCheck_idle hSite hAttempts).mono fun _ hDb => hDb.1
    exact hRun.serial_of_idle hIdle hUser.maintains hPresent

end Beside

/-- A check runs before or after an operation of a user on the same page as if
alone, as long as no page statement of the operation falls between the load and
a save of the check, and none of the check between those of a toggle. -/
theorem serial_of_not_overtaken (py : Platform) (input userInput : Input) (op : UserOperation)
    (db db' : Database) (page : Page) (site : Site) (trace : List (Side × Label))
    (h : db.Consistent) (hPage : page ∈ db.pages) (hSite : db.siteById page.site = some site)
    (hRun : Interleaving (pageCheck py input page.idPage)
      (op.session py userInput page.idPage site.name) db trace db')
    (hCheck : ¬ Overtaken .left Label.selectPage Label.WritesPage trace)
    (hToogle : op = .toogleIsLinkable →
      ¬ Overtaken .right Label.selectPage Label.WritesPage trace) :
    Serial (pageCheck py input page.idPage) (op.session py userInput page.idPage site.name)
      db db' := by
  have hPresent : Present db.sites page db := present_of_mem h hPage
  have hLookup : lookup Site.idSite page.site db.sites = some site := hSite
  cases op with
  | toogleIsLinkable => exact serial_of_toogle hLookup hRun hPresent hCheck (hToogle rfl)
  | pageDelete =>
      exact serial_of_erases hLookup hRun pageDelete_erases (pageDelete_maintains _) hPresent hCheck
  | resetSite =>
      obtain ⟨hMem, hKey⟩ := mem_of_lookup hLookup
      have hName : db.sites.find? (·.name == site.name) = some site := by
        simpa [lookup, Bool.beq_eq_decide_eq] using h.siteNames.lookup_eq hMem
      have hMaintains : (resetSite py userInput site.name >>= fun _ =>
          (pure () : Session Unit)).Maintains (Known db.sites page) :=
        (resetSite_maintains site.name).bind fun _ => Program.maintains_pure _
      exact serial_of_erases hLookup hRun (resetSite_erases hName hKey) hMaintains hPresent hCheck

def refused : Input := .scripted (.raised { kind := .osError, text := "refused" })

/-- The check runs between the first reads of a deletion and the deletion itself. -/
theorem serial_of_not_overtaken_delete :
    Serial (pageCheck (.scripted []) refused 1)
      (UserOperation.pageDelete.session (.scripted []) refused 1 "s") .seeded
      { Database.seeded with pages := [] } := by
  apply serial_of_not_overtaken (.scripted []) refused refused .pageDelete .seeded _ seedPage seedSite
    _ Database.consistent_seeded (by decide) (by decide)
    (.right (.left (.left (.left (.right (.right (.right (.done _ _ _)))))))) ?_ (nomatch ·)
  rintro ⟨w, w', hw, -, hSub⟩
  -- after the only statement of the deletion that writes, the check does nothing
  have hOrder : List.Pairwise (fun a b : Side × Label => a.1 = .right → a.2.WritesPage → b.1 = .right)
      [(Side.left, Label.selectPage), (.right, w), (.left, w')] :=
    List.Pairwise.sublist hSub (by decide)
  have hLast : (Side.left, w').1 = .right :=
    List.rel_of_pairwise_cons (List.Pairwise.of_cons hOrder) (by simp) rfl hw
  cases hLast

/-- An interleaving of a check of the seed page with a user operation whose
outcome is that of no serial run. -/
def Interferes (op : UserOperation) : Prop :=
  ∃ trace db', Interleaving (pageCheck (.scripted []) refused 1)
    (op.session (.scripted []) refused 1 "s") .seeded trace db' ∧
    ¬ Serial (pageCheck (.scripted []) refused 1) (op.session (.scripted []) refused 1 "s")
      .seeded db'

/-- A toggle is lost, a deleted page is back with its old data, and a reset one too. -/
theorem interferes_overtaken :
    Interferes .toogleIsLinkable ∧ Interferes .pageDelete ∧ Interferes .resetSite := by
  refine ⟨?toogle, ?delete, ?reset⟩
  case toogle =>
    refine ⟨_, _, .left (.left (.right (.right (.right (.left (.done _ _ _)))))), ?_⟩
    rintro (h | h) <;> cases h
  case delete =>
    refine ⟨_, _, .left (.left (.right (.right (.right (.right (.left (.left (.done _ _ _)))))))), ?_⟩
    rintro (h | h) <;> cases h
  case reset =>
    refine ⟨_, _, .left (.left (.right (.right (.right (.left (.left (.right (.done _ _ _)))))))), ?_⟩
    rintro (h | h) <;> cases h

end Spidercheck
