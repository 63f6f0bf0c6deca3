import Spidercheck.Addresses.Identity
import Spidercheck.Checks.Agreement
import Spidercheck.Checks.Plugins
import Spidercheck.Links.Synchronisation

/-! The links and values of a page after a check that succeeded. A local HTML
page gets those of its new text. What other responses leave is another matter:
each of their exits keeps something that an earlier check stored. -/
namespace Spidercheck

open Text Url Execution Relational

variable {py : Platform} {input : Input} {db db' : Database} {page row : Page} {site : Site}
  {response : Response} {url message : Str}

def Response.IsLocalHtml (py : Platform) (site : Site) (response : Response) : Prop :=
  contentIsHtml response.headers = true ∧ site.isLocal py response.url = .ok true

/-- The page links to the linkable pages that are stored for the links of a text. -/
def Database.LinksOf (py : Platform) (input : Input) (site : Site) (row : Page) (text : Str)
    (db : Database) : Prop :=
  let links := row.getAllValidLinks py site input.robots text
  links.raised = none ∧ ∃ targets, List.Forall₂ (Stored py site db) links.yielded targets ∧
    db.targetsOf row.idPage = linkable targets

/-- The links and values of the page are those of the response, and no others. -/
structure Mirrors (py : Platform) (input : Input) (site : Site) (response : Response) (row : Page)
    (db : Database) : Prop where
  page : response.IsLocalHtml py site → ∃ url text, row.getFullUrl py site = .ok url ∧
    (getTextFromUrl py input.get url >>= TextResult.unpack) = .ok text ∧
    db.LinksOf py input site row text.2 ∧
    ∀ name value, db.HasValue row.idPage name value ↔
      (name, value) ∈ (collect row text.1 text.2 input.plugins).1
  other : ¬ response.IsLocalHtml py site →
    (∀ l ∈ db.links, l.fromPage ≠ row.idPage) ∧ ∀ v ∈ db.values, v.page ≠ row.idPage

/-- Nothing is stored that the exit of the response keeps. -/
def Response.FindsNothing (py : Platform) (site : Site) (page : Page) (db : Database)
    (response : Response) : Prop :=
  response.IsLocalHtml py site ∨ (∀ v ∈ db.values, v.page ≠ page.idPage) ∧
    (contentIsHtml response.headers = true ∨ ∀ l ∈ db.links, l.fromPage ≠ page.idPage)

/-- Without a local HTML page there is one thing to say. -/
theorem mirrors_of_other (h : ¬ response.IsLocalHtml py site) :
    Mirrors py input site response row db ↔
      (∀ l ∈ db.links, l.fromPage ≠ row.idPage) ∧ ∀ v ∈ db.values, v.page ≠ row.idPage := by
  constructor
  · intro hMirrors
    exact hMirrors.other h
  · intro hNone
    exact ⟨fun hLocal => absurd hLocal h, fun _ => hNone⟩

/-- The links and values that `_update_links` and `_run_plugins` leave. -/
theorem mirrors_processed {saved linked : Database} (hSaved : saved.Consistent)
    (hRow : row ∈ saved.pages) (hSite : site ∈ saved.sites) (hLocal : response.IsLocalHtml py site)
    (hUrl : row.getFullUrl py site = .ok url) {text : Headers × Str}
    (hText : (getTextFromUrl py input.get url >>= TextResult.unpack) = .ok text)
    {changes : Finset Nat × Finset Nat} {phase : Result Dict}
    (hLinks : (updateLinks py input site row text.2).run saved = (.ok changes, linked))
    (hPlugins : (runPlugins input.plugins row text.1 text.2).run linked = (.ok phase, db')) :
    Mirrors py input site response row db' := by
  let links : Generator Str := row.getAllValidLinks py site input.robots text.2
  have hLinked : linked.Consistent := by
    have hAppends : Appends input.stamp saved ((updateLinks py input site row text.2).run saved).2 :=
      appends_updateLinks hSaved text.2
    rw [hLinks] at hAppends
    exact hAppends.consistent
  obtain ⟨hPages, hSame, hValues⟩ := runPlugins_returns hLinked hPlugins
  have hExact := run_syncLinks_exact py input.stamp hSaved hRow hSite links
  rw [show (syncLinks py input.stamp site row links).run saved = (.ok changes, linked) from hLinks] at hExact
  obtain ⟨hRaised, targets, t, hAdd, hStoredPages, hSync, -⟩ := hExact
  have hStored : List.Forall₂ (Stored py site t) links.yielded targets := by
    have hAdded := run_addPages py input.stamp links.yielded hSaved hSite
    rw [hAdd] at hAdded
    exact hAdded.2
  refine ⟨fun _ => ⟨url, text, hUrl, hText, ⟨hRaised, targets, ?_, ?_⟩, hValues⟩,
    fun hOther => absurd hLocal hOther⟩
  · exact hStored.imp fun _ _ => Stored.congr (hPages.trans hStoredPages)
  · rw [← hSync.targets, Database.targetsOf, Database.targetsOf, hSame]

/-- A successful check leaves the links and values of its response and nothing
older exactly when the response was a local HTML page, or what its exit does not
delete was not there: the values, and without HTML also the links. -/
theorem mirrors_iff (py : Platform) (input : Input) (db db' : Database) (site : Site) (page : Page)
    (response : Response) (message : Str) (hDb : db.Consistent) (hPage : page ∈ db.pages)
    (hSite : db.siteById page.site = some site)
    (hRun : (checkPageWith (fun _ _ => .ok (.success (.response response))) py input page).run db =
      (.ok (.success message), db')) :
    (∃ row, db'.pageById page.idPage = some row ∧ Mirrors py input site response row db') ↔
      response.FindsNothing py site page db := by
  have hEnd : db'.Consistent := (recorded_of_returns hDb hPage hRun).consistent
  obtain ⟨url, sizeBytes, hUrl, hSaved, hExit⟩ := exit_of_returns hDb hPage hSite hRun
  let row : Page := (page.marked input.justNow).answered input response sizeBytes
  have hRow : row ∈ (db.rewrite row).pages := Database.mem_rewrite hPage rfl
  have hStored : db'.pageById page.idPage = some row := by
    rcases hExit.ends hSaved hRow with ⟨-, -, hRow⟩ | ⟨hFailure, -⟩
    · exact hEnd.pageById hRow
    · cases hFailure
  have hAt : (∃ row, db'.pageById page.idPage = some row ∧ Mirrors py input site response row db') ↔
      Mirrors py input site response row db' := by
    simp [hStored]
  rw [hAt]
  cases hExit with
  | plain message hKind =>
      have hOther : ¬ response.IsLocalHtml py site := by
        rintro ⟨hHtml, -⟩
        rw [hKind] at hHtml
        cases hHtml
      rw [mirrors_of_other hOther, Response.FindsNothing, hKind]
      constructor
      · rintro ⟨hLinks, hValues⟩
        exact .inr ⟨hValues, .inr hLinks⟩
      · rintro (hLocal | ⟨hValues, hHtml | hLinks⟩)
        · exact absurd hLocal hOther
        · cases hHtml
        · exact ⟨hLinks, hValues⟩
  | external message hKind hScope =>
      have hOther : ¬ response.IsLocalHtml py site := by
        rintro ⟨-, hLocal⟩
        rw [hScope] at hLocal
        cases hLocal
      rw [mirrors_of_other hOther, Response.FindsNothing, hKind]
      constructor
      · rintro ⟨-, hValues⟩
        exact .inr ⟨hValues, .inl rfl⟩
      · rintro (hLocal | ⟨hValues, -⟩)
        · exact absurd hLocal hOther
        · refine ⟨fun l hl => ?_, hValues⟩
          simpa using (List.mem_filter.mp hl).2
  | processed headers text message hKind hScope hGet hBody hText hLinks hPlugins =>
      have hLocal : response.IsLocalHtml py site := ⟨hKind, hScope⟩
      have hSiteIn : site ∈ (db.rewrite row).sites := mem_sites_of_siteById hSite
      have hMirrors : Mirrors py input site response row db' :=
        mirrors_processed hSaved hRow hSiteIn hLocal hUrl hText hLinks hPlugins
      constructor
      · intro _
        exact .inl hLocal
      · intro _
        exact hMirrors

/-- A document, at the first check of its page. -/
theorem mirrors_document :
    ∃ row, (checkedWith (.success (.response documentResponse)) seedPage .seeded).2.pageById 1 =
      some row ∧ Mirrors (.scripted []) (.scripted (.raised dataError)) seedSite documentResponse row
        (checkedWith (.success (.response documentResponse)) seedPage .seeded).2 := by
  have hMirrors := mirrors_iff (.scripted []) (.scripted (.raised dataError)) .seeded
    (checkedWith (.success (.response documentResponse)) seedPage .seeded).2 seedSite seedPage
    documentResponse "Comprobando http://h/" Database.consistent_seeded (by decide) (by decide) (by rfl)
  exact hMirrors.mpr (.inr ⟨by decide, .inr (by decide)⟩)

/-- A page with a link that has turned into a document keeps the link. -/
theorem not_mirrors_document :
    seedPage ∈ (Database.crawled "http://h/" "a.html").pages ∧
      (checkedWith (.success (.response documentResponse)) seedPage (.crawled "http://h/" "a.html")).1 =
        .ok (.success "Comprobando http://h/") ∧
      ¬ ∃ row, (checkedWith (.success (.response documentResponse)) seedPage
          (.crawled "http://h/" "a.html")).2.pageById 1 = some row ∧
        Mirrors (.scripted []) (.scripted (.raised dataError)) seedSite documentResponse row
          (checkedWith (.success (.response documentResponse)) seedPage
            (.crawled "http://h/" "a.html")).2 := by
  refine ⟨by decide, by rfl, ?_⟩
  rintro ⟨row, hRow, hMirrors⟩
  obtain rfl := Option.some.inj hRow
  have hOther : ¬ documentResponse.IsLocalHtml (.scripted []) seedSite := by
    rintro ⟨hHtml, -⟩
    revert hHtml
    decide
  have hNone := (hMirrors.other hOther).1
  revert hNone
  decide

end Spidercheck
