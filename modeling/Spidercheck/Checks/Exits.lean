import Spidercheck.Model.Integrity

/-! The exits of `check_page`, for any answer of `is_valid`. A check that returns
has saved its row, and after a response it went one of four ways. -/
namespace Spidercheck

open Text Url Execution Relational

variable {py : Platform} {input : Input} {db db' : Database} {page row : Page} {site : Site}
  {stamp : Nat → Time}

def Page.refused (page : Page) (input : Input) (message : Str) (status : Int) : Page :=
  { page with
    status := status
    errorMessage := message
    checkTime := input.stopTime - input.startTime }

/-- The ways from the saved row of a response to a return. -/
inductive Exit (py : Platform) (input : Input) (site : Site) (url : Str) (response : Response)
    (row : Page) (saved : Database) : Result Str → Database → Prop where
  | plain (message : Str) (hKind : contentIsHtml response.headers = false) :
      Exit py input site url response row saved (.success message) saved
  | external (message : Str) (hKind : contentIsHtml response.headers = true)
      (hScope : site.isLocal py response.url = .ok false) :
      Exit py input site url response row saved (.success message)
        (saved.deleteLinks (·.fromPage == row.idPage))
  | rejected (headers : Headers) (body message : Str)
      (hKind : contentIsHtml response.headers = true) (hScope : site.isLocal py response.url = .ok true)
      (hGet : input.get = .response headers (.ok body)) (hBody : isValidHtml body = false)
      (hMessage : message = "La URL " ++ url ++ " debería ser HTML, pero no lo parece") :
      Exit py input site url response row saved (.fail message)
        (saved.rewrite { row with status := 418, errorMessage := message })
  | processed (headers : Headers) (text : Headers × Str) (message : Str)
      (hKind : contentIsHtml response.headers = true) (hScope : site.isLocal py response.url = .ok true)
      (hGet : input.get = .response headers (.ok text.2)) (hBody : isValidHtml text.2 = true)
      (hText : (getTextFromUrl py input.get url >>= TextResult.unpack) = .ok text)
      {changes : Finset Nat × Finset Nat} {phase : Result Dict} {linked db' : Database}
      (hLinks : (updateLinks py input site row text.2).run saved = (.ok changes, linked))
      (hPlugins : (runPlugins input.plugins row text.1 text.2).run linked = (.ok phase, db')) :
      Exit py input site url response row saved (.success message) db'

/-- A check that returns after a response could read its length, and the text if
the page is one of the site. -/
theorem sized_exit_of_checkResponse (hDb : db.Consistent) (hPage : page ∈ db.pages) {url : Str}
    {response : Response} {r : Result Str}
    (hRun : (checkResponse py input (page.marked input.justNow) site url (.response response)).run db =
      (.ok r, db')) :
    ∃ sizeBytes, getContentLength response.headers = .ok sizeBytes ∧
      (contentIsHtml response.headers = true → site.isLocal py response.url = .ok true →
        ∃ text, (getTextFromUrl py input.get url >>= TextResult.unpack) = .ok text) ∧
      let row := (page.marked input.justNow).answered input response sizeBytes
      (db.rewrite row).Consistent ∧ Exit py input site url response row (db.rewrite row) r db' := by
  obtain ⟨_, hValue, hRun⟩ := (Program.run_liftExcept_bind_eq_ok _ _).mp hRun
  obtain rfl := Except.ok.inj hValue
  obtain ⟨sizeBytes, hSize, hRun⟩ := (Program.run_liftExcept_bind_eq_ok _ _).mp hRun
  obtain ⟨_, saved, hSave, hRun⟩ := (Program.run_bind_eq_ok _ _ _).mp hRun
  let row : Page := (page.marked input.justNow).answered input response sizeBytes
  obtain ⟨rfl, hSaved⟩ := hDb.rewrite_of_savePage hPage (by rfl) (by rfl) hSave
  suffices h : (contentIsHtml response.headers = true → site.isLocal py response.url = .ok true →
      ∃ text, (getTextFromUrl py input.get url >>= TextResult.unpack) = .ok text) ∧
      Exit py input site url response row (db.rewrite row) r db' from
    ⟨sizeBytes, hSize, h.1, hSaved, h.2⟩
  split at hRun
  · next hKind =>
    obtain ⟨isLocal, hScope, hRun⟩ := (Program.run_liftExcept_bind_eq_ok _ _).mp hRun
    cases isLocal with
    | true =>
        obtain ⟨text, hText, hRun⟩ := (Program.run_liftExcept_bind_eq_ok _ _).mp hRun
        obtain ⟨headers, hGet⟩ := get_of_text hText
        refine ⟨fun _ _ => ⟨text, hText⟩, ?_⟩
        unfold checkBody at hRun
        split at hRun
        · next hBody =>
          obtain ⟨changes, linked, hLinks, hRun⟩ := (Program.run_bind_eq_ok _ _ _).mp hRun
          obtain ⟨phase, t, hPlugins, hRun⟩ := (Program.run_bind_eq_ok _ _ _).mp hRun
          obtain ⟨rfl, rfl⟩ : _ = r ∧ t = db' := by simpa using hRun
          exact .processed headers text _ hKind hScope hGet hBody hText hLinks hPlugins
        · next hBody =>
          obtain ⟨_, t, hSave', hRun⟩ := (Program.run_bind_eq_ok _ _ _).mp hRun
          obtain ⟨rfl, rfl⟩ : _ = r ∧ t = db' := by simpa using hRun
          have hRow : row ∈ (db.rewrite row).pages := Database.mem_rewrite hPage rfl
          obtain ⟨rfl, -⟩ := hSaved.rewrite_of_savePage hRow (by rfl) (by rfl) hSave'
          exact .rejected headers text.2 _ hKind hScope hGet (by simpa using hBody) rfl
    | false =>
        obtain ⟨_, t, hDelete, hRun⟩ := (Program.run_bind_eq_ok _ _ _).mp hRun
        obtain ⟨rfl, rfl⟩ : _ = r ∧ t = db' := by simpa using hRun
        obtain rfl := (Prod.mk.inj hDelete).2
        exact ⟨fun _ hLocal => by simp [hScope] at hLocal, .external _ hKind hScope⟩
  · next hKind =>
    obtain ⟨rfl, rfl⟩ : _ = r ∧ _ = db' := by simpa using hRun
    exact ⟨fun hHtml => absurd hHtml hKind, .plain _ (by simpa using hKind)⟩

/-- A check that returns from a response has taken one of the exits. -/
theorem exit_of_checkResponse (hDb : db.Consistent) (hPage : page ∈ db.pages) {url : Str}
    {response : Response} {r : Result Str}
    (hRun : (checkResponse py input (page.marked input.justNow) site url (.response response)).run db =
      (.ok r, db')) :
    ∃ sizeBytes, let row := (page.marked input.justNow).answered input response sizeBytes
      (db.rewrite row).Consistent ∧ Exit py input site url response row (db.rewrite row) r db' := by
  obtain ⟨sizeBytes, -, -, hExit⟩ := sized_exit_of_checkResponse hDb hPage hRun
  exact ⟨sizeBytes, hExit⟩

/-- A check that was answered with a response. -/
theorem exit_of_returns (hDb : db.Consistent) (hPage : page ∈ db.pages)
    (hSite : db.siteById page.site = some site) {response : Response} {r : Result Str}
    (hRun : (checkPageWith (fun _ _ => .ok (.success (.response response))) py input page).run db =
      (.ok r, db')) :
    ∃ url sizeBytes, let row := (page.marked input.justNow).answered input response sizeBytes
      page.getFullUrl py site = .ok url ∧ (db.rewrite row).Consistent ∧
        Exit py input site url response row (db.rewrite row) r db' := by
  rw [run_checkPageWith hSite] at hRun
  cases hUrl : page.getFullUrl py site with
  | error e => simp [hUrl] at hRun
  | ok url =>
      simp only [hUrl] at hRun
      obtain ⟨sizeBytes, hExit⟩ := exit_of_checkResponse hDb hPage hRun
      exact ⟨url, sizeBytes, rfl, hExit⟩

/-- A check that was answered with a failure. -/
theorem refused_of_returns (hDb : db.Consistent) (hPage : page ∈ db.pages)
    {message : Str} {code : Int} {r : Result Str}
    (hRun : (checkPageWith (fun _ _ => .ok (.failure message (some code))) py input page).run db =
      (.ok r, db')) :
    (∃ text, r = .fail text) ∧ (db' = db.rewrite ((page.marked input.justNow).refused input message code) ∧
      db'.Consistent) := by
  obtain ⟨site, -, hSite⟩ := hDb.siteById hPage
  rw [run_checkPageWith hSite] at hRun
  cases hUrl : page.getFullUrl py site with
  | error e => simp [hUrl] at hRun
  | ok url =>
      simp only [hUrl] at hRun
      obtain ⟨_, hStatus, hRun⟩ := (Program.run_liftExcept_bind_eq_ok _ _).mp hRun
      obtain rfl := Except.ok.inj hStatus
      obtain ⟨_, t, hSave, hRun⟩ := (Program.run_bind_eq_ok _ _ _).mp hRun
      obtain ⟨rfl, rfl⟩ : _ = r ∧ t = db' := by simpa using hRun
      obtain ⟨rfl, hSaved⟩ := hDb.rewrite_of_savePage hPage (by rfl) (by rfl) hSave
      exact ⟨⟨_, rfl⟩, rfl, hSaved⟩

end Spidercheck
