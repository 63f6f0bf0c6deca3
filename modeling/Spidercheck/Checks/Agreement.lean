import Spidercheck.Checks.Exits
import Spidercheck.Checks.Recorded

/-! The result of a check against the row that it saved. Every exit sets the
status, but the message of an earlier failure is never cleared, and a failure
may come without a message. -/
namespace Spidercheck

open Text Url Execution Relational

variable {py : Platform} {input : Input} {db db' : Database} {page row : Page} {site : Site}

/-- The row is good exactly after a success, and it has a message exactly after a failure. -/
def Page.Agrees (row : Page) (r : Result Str) : Prop :=
  (r.isSuccess = true ↔ row.isOk = true) ∧ (row.errorMessage = [] ↔ r.isSuccess = true)

/-- A failure with a code outside of the range of success, or a response inside of it. -/
def Result.Proper : Result Payload → Prop
  | .failure _ code => ∃ n : Int, code = some n ∧ ¬ (200 ≤ n ∧ n < 300)
  | .success value => ∃ response, value = .response response ∧
      200 ≤ response.statusCode ∧ response.statusCode < 300

/-- The response announces a local HTML page, and what is then read is no HTML. -/
def Response.Misleads (py : Platform) (input : Input) (site : Site) (response : Response) : Prop :=
  contentIsHtml response.headers = true ∧ site.isLocal py response.url = .ok true ∧
    ∃ headers body, input.get = .response headers (.ok body) ∧ isValidHtml body = false

/-- A failure that has a message, or a response that is rejected or for a page without one. -/
def Result.Conclusive (py : Platform) (input : Input) (site : Site) (page : Page) :
    Result Payload → Prop
  | .failure message _ => message ≠ []
  | .success value => page.errorMessage = [] ∨
      ∃ response, value = .response response ∧ response.Misleads py input site

/-- The row at the end of each exit. -/
theorem Exit.ends {url : Str} {response : Response} {saved : Database} {r : Result Str}
    (h : Exit py input site url response row saved r db') (hSaved : saved.Consistent)
    (hRow : row ∈ saved.pages) :
    (r.isSuccess = true ∧ ¬ response.Misleads py input site ∧ row ∈ db'.pages) ∨
      (r.isSuccess = false ∧ response.Misleads py input site ∧
        ∃ message, message ≠ [] ∧ { row with status := 418, errorMessage := message } ∈ db'.pages) := by
  cases h with
  | plain message hKind =>
      refine .inl ⟨rfl, ?_, hRow⟩
      rintro ⟨hHtml, -⟩
      rw [hKind] at hHtml
      cases hHtml
  | external message hKind hScope =>
      refine .inl ⟨rfl, ?_, hRow⟩
      rintro ⟨-, hLocal, -⟩
      rw [hScope] at hLocal
      cases hLocal
  | rejected headers body message hKind hScope hGet hBody hMessage =>
      refine .inr ⟨rfl, ⟨hKind, hScope, headers, body, hGet, hBody⟩, message, ?_, ?_⟩
      · rw [hMessage]
        exact List.cons_ne_nil _ _
      · exact Database.mem_rewrite hRow rfl
  | processed headers text message hKind hScope hGet hBody hText hLinks hPlugins =>
      refine .inl ⟨rfl, ?_, ?_⟩
      · rintro ⟨-, -, headers', body, hGet', hBody'⟩
        rw [hGet] at hGet'
        obtain ⟨-, hText'⟩ := GetOutcome.response.inj hGet'
        rw [← Except.ok.inj hText', hBody] at hBody'
        cases hBody'
      · have hLinked : Appends input.stamp saved ((updateLinks py input site row text.2).run saved).2 :=
          appends_updateLinks hSaved text.2
        rw [hLinks] at hLinked
        have hDone : Appends input.stamp _ ((runPlugins input.plugins row text.1 text.2).run _).2 :=
          appends_runPlugins hLinked.consistent input.plugins text.1 text.2
        rw [hPlugins] at hDone
        obtain ⟨new, hPages, -⟩ := (hLinked.trans hDone).pages
        rw [hPages]
        exact List.mem_append_left _ hRow

/-- A row that is there for a result, with the parts that the two agree on. -/
theorem agrees_of_success {r : Result Str} (hSuccess : r.isSuccess = true) (hOk : row.isOk = true) :
    row.Agrees r ↔ row.errorMessage = [] := by
  simp [Page.Agrees, hSuccess, hOk]

/-- After a failure the row agrees when it has a message. -/
theorem agrees_of_failure {r : Result Str} (hFailure : r.isSuccess = false) (hOk : row.isOk = false) :
    row.Agrees r ↔ row.errorMessage ≠ [] := by
  simp [Page.Agrees, hFailure, hOk]

/-- A check that returns agrees with its row exactly when a failure came with a
message, and a success did not find the message of an earlier failure. -/
theorem agrees_iff (py : Platform) (input : Input) (db db' : Database) (site : Site) (page : Page)
    (answer : Result Payload) (r : Result Str) (hDb : db.Consistent) (hPage : page ∈ db.pages)
    (hSite : db.siteById page.site = some site) (hAnswer : answer.Proper)
    (hRun : (checkPageWith (fun _ _ => .ok answer) py input page).run db = (.ok r, db')) :
    (∃ row, db'.pageById page.idPage = some row ∧ row.Agrees r) ↔
      answer.Conclusive py input site page := by
  have hEnd : db'.Consistent := (recorded_of_returns hDb hPage hRun).consistent
  have hAt {row : Page} (hRow : row ∈ db'.pages) (hKey : row.idPage = page.idPage) :
      (∃ row, db'.pageById page.idPage = some row ∧ row.Agrees r) ↔ row.Agrees r := by
    rw [← hKey, hEnd.pageById hRow]
    simp
  cases answer with
  | failure message code =>
      obtain ⟨n, rfl, hRange⟩ := hAnswer
      obtain ⟨⟨text, rfl⟩, hSaved, -⟩ := refused_of_returns hDb hPage hRun
      let row : Page := (page.marked input.justNow).refused input message n
      have hRow : row ∈ db'.pages := hSaved ▸ Database.mem_rewrite hPage rfl
      have hBad : row.isOk = false := by simpa [Page.isOk, row, Page.refused] using hRange
      rw [hAt hRow rfl, agrees_of_failure rfl hBad]
      rfl
  | success value =>
      obtain ⟨response, rfl, hRange⟩ := hAnswer
      obtain ⟨_, sizeBytes, -, hSaved, hExit⟩ := exit_of_returns hDb hPage hSite hRun
      let row : Page := (page.marked input.justNow).answered input response sizeBytes
      have hRow : row ∈ (db.rewrite row).pages := Database.mem_rewrite hPage rfl
      have hOk : row.isOk = true := by
        simp only [Page.isOk, row, Page.answered, Bool.and_eq_true, decide_eq_true_eq]
        omega
      rcases hExit.ends hSaved hRow with ⟨hSuccess, hFine, hRow⟩ |
        ⟨hFailure, hMisleads, message, hMessage, hRow⟩
      · rw [hAt hRow rfl, agrees_of_success hSuccess hOk]
        constructor
        · intro hEmpty
          exact .inl hEmpty
        · rintro (hEmpty | ⟨other, hOther, hMisleads⟩)
          · exact hEmpty
          · obtain rfl := Payload.response.inj hOther
            exact absurd hMisleads hFine
      · rw [hAt hRow rfl, agrees_of_failure hFailure rfl]
        constructor
        · intro _
          exact .inr ⟨response, rfl, hMisleads⟩
        · intro _
          exact hMessage

def documentResponse : Response :=
  { statusCode := 200, headers := [("Content-Type", "application/pdf")], url := "http://h/" }

/-- The outcome of a check of that page with a given answer of `is_valid`. -/
def checkedWith (answer : Result Payload) (page : Page) (db : Database) :
    Except PyError (Result Str) × Database :=
  (checkPageWith (fun _ _ => .ok answer) (.scripted []) (.scripted (.raised dataError)) page).run db

def failedSeed : Page :=
  (seedPage.marked 10).refused (.scripted (.raised dataError)) "HTTP Error 404: Not Found" (-1)

def Database.failed : Database :=
  (checkedWith (.failure "HTTP Error 404: Not Found" (some (-1))) seedPage .seeded).2

/-- The first check of a page that is a document. -/
theorem agrees_document :
    ∃ row, (checkedWith (.success (.response documentResponse)) seedPage .seeded).2.pageById 1 =
      some row ∧ row.Agrees (.success "Comprobando http://h/") := by
  have hAgrees := agrees_iff (.scripted []) (.scripted (.raised dataError)) .seeded
    (checkedWith (.success (.response documentResponse)) seedPage .seeded).2 seedSite seedPage
    (.success (.response documentResponse)) (.success "Comprobando http://h/")
    Database.consistent_seeded (by decide) (by decide) ⟨documentResponse, rfl, by decide⟩ (by rfl)
  exact hAgrees.mpr (.inl rfl)

/-- A check that fails, and then one that succeeds: the message is still there. -/
theorem not_agrees_recovered :
    failedSeed ∈ Database.failed.pages ∧
      (checkedWith (.success (.response documentResponse)) failedSeed .failed).1 =
        .ok (.success "Comprobando http://h/") ∧
      ¬ ∃ row, (checkedWith (.success (.response documentResponse)) failedSeed .failed).2.pageById 1 =
        some row ∧ row.Agrees (.success "Comprobando http://h/") := by
  refine ⟨by decide, by rfl, ?_⟩
  rintro ⟨row, hRow, -, hMessage⟩
  obtain rfl := Option.some.inj hRow
  cases hMessage.mpr rfl

end Spidercheck
