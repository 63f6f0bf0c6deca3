import Spidercheck.Addresses.Identity
import Spidercheck.Search.Indexing

/-! One index for all sites. The `id` of a document is the relative URL of its
page, which does not tell sites apart: documents keep their places as long as no
two sites have a page with the same path and query. -/
namespace Spidercheck

open Text Url Execution Relational

variable {py : Platform} {input : Input} {db : Database} {op : Operation} {site : Site} {page : Page}

/-- No page of another site has the path and query. -/
def Unclaimed (db : Database) (site : Site) (subpath params : Str) : Prop :=
  ∀ r ∈ db.pages, r.site ≠ site.idSite → (r.subpath, r.params) ≠ (subpath, params)

def Database.PathsDiffer (db : Database) : Prop :=
  ∀ p ∈ db.pages, ∀ q ∈ db.pages, p.site ≠ q.site → (p.subpath, p.params) ≠ (q.subpath, q.params)

def Operation.target (db : Database) : Operation → Option Nat
  | initSite _ _ => some db.nextSite
  | resetSite name => (db.siteByName name).map (·.idSite)
  | updateLinks pk _ | checkPage pk _ => (db.pageById pk).map (·.site)
  | _ => none

/-- URLs are handed to the target of the call only. -/
theorem Operation.target_of_hands {url : Str} (h : op.Hands py input db site url) :
    op.target db = some site.idSite := by
  cases op with
  | resetSite name => simp [target, h.1]
  | updateLinks pk body =>
      obtain ⟨page, hPage, hSite, -⟩ := h
      simp [target, hPage, (mem_of_lookup hSite).2]
  | checkPage pk isValid =>
      obtain ⟨page, hPage, hSite, -⟩ := h
      simp [target, hPage, (mem_of_lookup hSite).2]
  | _ => exact h.elim

/-- The address was there before the call, or the call adds it and no other site has it. -/
def Accounted (db : Database) (op : Operation) (site : Site) (subpath params : Str) : Prop :=
  (∃ q ∈ db.pages, q.fullPath = (site.idSite, subpath, params)) ∨
    (op.target db = some site.idSite ∧ Unclaimed db site subpath params)

theorem Operation.Meets.accounted (h : op.Meets py (Unclaimed db) input db) :
    op.Meets py (Accounted db op) input db := by
  constructor
  · intro site url info hHands hInfo
    exact .inr ⟨target_of_hands hHands, h.1 site url info hHands hInfo⟩
  · rintro url name info rfl hInfo
    exact .inr ⟨rfl, h.2 url name info rfl hInfo⟩

/-- What a call adds does not meet the pages of other sites. -/
theorem pathsDiffer_step (hDb : db.Consistent) (hDiffer : db.PathsDiffer)
    (hMeets : op.Meets py (Unclaimed db) input db) :
    Database.PathsDiffer ((op.session py input).run db).2 := by
  have hOld : db.AllGood (Accounted db op) := by
    intro p hp s _ hSite
    exact .inl ⟨p, hp, by rw [Page.fullPath, hSite]⟩
  obtain ⟨hDb', hAll⟩ := Operation.allGood_step hDb hOld hMeets.accounted
  intro p hp q hq hSites hSame
  obtain ⟨s, hs, hpSite⟩ := hDb'.pageSites p hp
  obtain ⟨t, ht, hqSite⟩ := hDb'.pageSites q hq
  obtain ⟨hSubpath, hParams⟩ := Prod.mk.inj hSame
  -- a page that was there under the address of a new page of another site
  have hClash {r : Page} (hr : r ∈ db.pages) {s t : Site} (hNe : s.idSite ≠ t.idSite)
      {subpath params : Str} (hPath : r.fullPath = (s.idSite, subpath, params))
      (hNew : Unclaimed db t subpath params) : False := by
    obtain ⟨hSite, hKeys⟩ := Prod.mk.inj hPath
    exact hNew r hr (hSite ▸ hNe) hKeys
  have hNe : s.idSite ≠ t.idSite := by rwa [hpSite, hqSite]
  rcases hAll p hp s hs hpSite with ⟨p', hp', hpPath⟩ | ⟨hpTarget, hpNew⟩
  · rcases hAll q hq t ht hqSite with ⟨q', hq', hqPath⟩ | ⟨-, hqNew⟩
    · obtain ⟨hpSite', hpKeys⟩ := Prod.mk.inj hpPath
      obtain ⟨hqSite', hqKeys⟩ := Prod.mk.inj hqPath
      refine hDiffer p' hp' q' hq' (by rwa [hpSite', hqSite']) ?_
      rw [hpKeys, hqKeys, hSubpath, hParams]
    · exact hClash hp' hNe hpPath (by rwa [hSubpath, hParams])
  · rcases hAll q hq t ht hqSite with ⟨q', hq', hqPath⟩ | ⟨hqTarget, -⟩
    · exact hClash hq' hNe.symm hqPath (by rwa [← hSubpath, ← hParams])
    · exact hNe (Option.some.inj (hpTarget.symm.trans hqTarget))

/-- The relative URL of a page whose address is settled. -/
theorem getRelativeUrl_of_settles (h : Settles py site page.subpath page.params) :
    page.getRelativeUrl py site = .ok (locator [] [] page.subpath ++ marked '?' page.params) := by
  simp [Page.getRelativeUrl, h.2, orValueError, urlunparse, urlunsplit, marked]

/-- Different addresses have different relative URLs, whatever their sites are. -/
theorem getRelativeUrl_inj {p q : Page} {s t : Site} (hp : Identifies py s p.subpath p.params)
    (hq : Identifies py t q.subpath q.params) (h : p.getRelativeUrl py s = q.getRelativeUrl py t) :
    p.subpath = q.subpath ∧ p.params = q.params := by
  rw [getRelativeUrl_of_settles hp.1, getRelativeUrl_of_settles hq.1, Except.ok.injEq] at h
  exact locator_append_marked_inj hp.1.1 hq.1.1 hp.2 hq.2 h

/-- A settled address that no other site has. -/
def Distinguishes (py : Platform) (db : Database) (site : Site) (subpath params : Str) : Prop :=
  Settles py site subpath params ∧ Unclaimed db site subpath params

theorem Operation.Meets.mono {Good Good' : Site → Str → Str → Prop} (h : op.Meets py Good input db)
    (hImp : ∀ site subpath params, Good site subpath params → Good' site subpath params) :
    op.Meets py Good' input db :=
  ⟨fun site url info hHands hInfo => hImp _ _ _ (h.1 site url info hHands hInfo),
    fun url name info hEq hInfo => hImp _ _ _ (h.2 url name info hEq hInfo)⟩

/-- The run lemma: no two sites come to share an address. -/
theorem pathsDiffer_of_runs
    (h : Runs py (fun input db op => op.Meets py (Distinguishes py db) input db) .empty db) :
    db.PathsDiffer := by
  have hInv : db.Consistent ∧ db.PathsDiffer := by
    apply Runs.induct py (fun db => db.Consistent ∧ db.PathsDiffer) ?_ h
    · exact ⟨Database.consistent_empty, fun p hp => nomatch hp⟩
    · intro input db op hInv hMeets
      have hUnclaimed : op.Meets py (Unclaimed db) input db := hMeets.mono fun _ _ _ h => h.2
      have hAll : db.AllGood fun _ _ _ => True := fun _ _ _ _ _ => trivial
      have hDb := Operation.allGood_step hInv.1 hAll (hUnclaimed.mono fun _ _ _ _ => trivial)
      exact ⟨hDb.1, pathsDiffer_step hInv.1 hInv.2 hUnclaimed⟩
  exact hInv.2

/-- In a run that stores settled paths only, and none that another site has,
different pages have different documents, and none takes the place of another. -/
theorem documents_distinct {Tag Index : Type} (py : Platform) (markup : Markup Tag) (u : Unicode)
    (adapter : SearchAdapter Index) (db : Database)
    (h : Runs py (fun input db op => op.Meets py (Distinguishes py db) input db) .empty db) :
    ∀ p ∈ db.pages, ∀ q ∈ db.pages, p ≠ q → ∀ s ∈ db.sites, ∀ t ∈ db.sites,
      p.site = s.idSite → q.site = t.idSite → ∀ headers body headers' body' document,
      getInfo markup u py s p headers body = .ok document →
      (∀ document', getInfo markup u py t q headers' body' = .ok document' →
        document.id ≠ document'.id) ∧
      ∀ index answer index', indexSite markup u adapter py t q headers' body' index =
        .ok (answer, index') →
        adapter.document index' indexName document.id = adapter.document index indexName document.id := by
  intro p hp q hq hNe s hs t ht hpSite hqSite headers body headers' body' document hInfo
  have hRun : Runs py (fun input db op => op.Meets py (Identifies py) input db) .empty db :=
    h.mono fun _ _ _ hMeets => (hMeets.mono fun _ _ _ h => h.1).identifies
  obtain ⟨hDb, hAll⟩ := hRun.allGood Database.consistent_empty allGood_empty
  have hUrls : q.getRelativeUrl py t ≠ .ok document.id := by
    rw [← (getInfo_eq_ok hInfo).1]
    intro hSame
    obtain ⟨hSubpath, hParams⟩ := getRelativeUrl_inj (hAll q hq t ht hqSite.symm)
      (hAll p hp s hs hpSite.symm) hSame
    by_cases hSites : p.site = q.site
    · exact hNe (hDb.fullPaths.eq hp hq (by rw [Page.fullPath, Page.fullPath, hSites, hSubpath, hParams]))
    · exact pathsDiffer_of_runs h p hp q hq hSites (by rw [hSubpath, hParams])
  constructor
  · intro document' hInfo' hId
    exact hUrls (hId ▸ (getInfo_eq_ok hInfo').1)
  · intro index answer index' hIndexed
    exact document_indexSite hIndexed hUrls

def Database.hosted (url : Str) : Database :=
  (((Operation.initSite url "t").session (.scripted []) quiet).run .seeded).2

theorem runs_hosted {Condition : Input → Database → Operation → Prop} {url : Str}
    (hFirst : Condition quiet .empty (.initSite "http://h/" "s"))
    (hSecond : Condition quiet .seeded (.initSite url "t")) :
    Runs (.scripted []) Condition .empty (.hosted url) :=
  .step quiet (.initSite url "t") (.step quiet (.initSite "http://h/" "s") (.refl _) hFirst) hSecond

def hostedSite (path : Str) : Site :=
  { idSite := 2, name := "t", scheme := "http", netloc := "g", path := path, createdAt := 10 }

def hostedPage (path : Str) : Page :=
  { Page.new 2 path [] with idPage := 2, status := -1, createdAt := 2 }

def Markup.blank : Markup Unit where
  soup := fun _ => .ok ()
  find := fun _ _ => some ()
  findAll := fun _ _ => []
  text := fun _ => []
  attrs := fun _ => []
  data := fun _ => .ok []

def blankDocument (url : Str) (pk : Nat) : Document where
  id := url
  pageId := pk
  url := url
  title := []
  keywords := []
  area := []
  h1 := []
  h2 := []
  h3 := []
  h4 := []
  h5 := []
  h6 := []
  body := []
  version := 0

def htmlHeaders : Headers := [("content-type", "text/html")]

/-- The seed pages of two sites with different seed paths. -/
theorem documents_distinct_paths :
    let adapter := SearchAdapter.tables
    let index := adapter.addDocuments indexName [blankDocument "/" 1] fun _ _ => none
    ∃ index', indexSite Markup.blank .ascii adapter (.scripted []) (hostedSite "/b") (hostedPage "/b")
        htmlHeaders [] index = .ok ([], index') ∧
      adapter.document index' indexName "/" = some (blankDocument "/" 1) := by
  intro adapter index
  have hDistinct := documents_distinct (.scripted []) Markup.blank .ascii adapter (.hosted "http://g/b")
    (runs_hosted ?first ?second) seedPage (by decide) (hostedPage "/b") (by decide) (by decide)
    seedSite (by decide) (hostedSite "/b") (by decide) rfl rfl [] [] htmlHeaders []
    (blankDocument "/" 1) (by rfl)
  case first =>
    refine ⟨fun site url info hHands => hHands.elim, ?_⟩
    intro url name info hEq hInfo
    obtain ⟨rfl, rfl⟩ := by simpa using hEq
    obtain rfl : _ = info := Option.some.inj hInfo
    exact ⟨⟨by decide, by rfl⟩, fun p hp => nomatch hp⟩
  case second =>
    refine ⟨fun site url info hHands => hHands.elim, ?_⟩
    intro url name info hEq hInfo
    obtain ⟨rfl, rfl⟩ := by simpa using hEq
    obtain rfl : _ = info := Option.some.inj hInfo
    refine ⟨⟨by decide, by rfl⟩, ?_⟩
    intro p hp _
    obtain rfl := List.mem_singleton.mp hp
    decide
  exact ⟨_, by rfl, (hDistinct.2 index [] _ (by rfl)).trans (by rfl)⟩

/-- The seed pages of `http://h/` and `http://g/`: the second document takes the
place of the first. -/
theorem documents_collide : ∃ db, Reachable (.scripted []) db ∧
    ∃ p ∈ db.pages, ∃ q ∈ db.pages, p ≠ q ∧ ∃ s ∈ db.sites, ∃ t ∈ db.sites,
      p.site = s.idSite ∧ q.site = t.idSite ∧
      ∃ document document',
        getInfo Markup.blank .ascii (.scripted []) s p [] [] = .ok document ∧
        getInfo Markup.blank .ascii (.scripted []) t q [] [] = .ok document' ∧
        document.id = document'.id ∧
        ∃ index index', let adapter := SearchAdapter.tables
          indexSite Markup.blank .ascii adapter (.scripted []) s p htmlHeaders [] (fun _ _ => none) =
            .ok ([], index) ∧
          indexSite Markup.blank .ascii adapter (.scripted []) t q htmlHeaders [] index = .ok ([], index') ∧
          adapter.document index indexName document.id = some document ∧
          adapter.document index' indexName document.id = some document' ∧ document ≠ document' :=
  ⟨.hosted "http://g/", runs_hosted trivial trivial, seedPage, by decide, hostedPage "/", by decide,
    by decide, seedSite, by decide, hostedSite "/", by decide, rfl, rfl, blankDocument "/" 1,
    blankDocument "/" 2, by rfl, by rfl, rfl, _, _, by rfl, by rfl, by rfl, by rfl, by decide⟩

end Spidercheck
