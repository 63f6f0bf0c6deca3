import Spidercheck.Model.Operations

/-! When a check returns, and what it leaves in the row. Only a `HEAD` request
that raises takes `check_page` to a return: a good answer is reported as a
`Success` without its response, and a bad status as a `Failure` without code. -/
namespace Spidercheck

open Text Execution Relational

variable {py : Platform} {input : Input} {db : Database} {page : Page} {site : Site}

def failedRow (input : Input) (page : Page) (e : PyError) : Page :=
  { page with
    isChecked := true
    checkedAt := input.justNow
    status := -1
    errorMessage := e.text
    checkTime := input.stopTime - input.startTime }

def Page.Requestable (py : Platform) (site : Site) (page : Page) : Prop :=
  ∃ url, page.getFullUrl py site = .ok url ∧ Page.request py url = .ok ()

/-- The answer of `is_valid` by the outcome of the request. -/
theorem isValid_of_requestable (h : page.Requestable py site) (head : HeadOutcome) :
    page.isValid py site head = match head with
      | .response r =>
        if 200 ≤ r.statusCode ∧ r.statusCode < 300 then .ok (.success .true)
        else .ok (.fail "El servidor devuelve un código de error {req.status}")
      | .raised e => .ok (.failure e.text (some (-1))) := by
  obtain ⟨url, hUrl, hRequest⟩ := h
  cases head with
  | response r =>
      by_cases hOk : 200 ≤ r.statusCode ∧ r.statusCode < 300
      · simp [Page.isValid, hUrl, hRequest, hOk]
      · simp [Page.isValid, hUrl, hRequest, hOk]
  | raised e => simp [Page.isValid, hUrl, hRequest]

/-- A value of `is_valid` is there only for a page that can be requested. -/
theorem requestable_of_isValid {head : HeadOutcome} {r : Result Payload}
    (h : page.isValid py site head = .ok r) : page.Requestable py site := by
  rw [Page.isValid] at h
  obtain ⟨url, hUrl, h⟩ := (except_bind_eq_ok _).mp h
  obtain ⟨⟨⟩, hRequest, -⟩ := (except_bind_eq_ok _).mp h
  exact ⟨url, hUrl, hRequest⟩

/-- A request that raised is reported as a `Failure`, if its text can be saved. -/
theorem run_checkPage_raised (h : db.Consistent) (hPage : page ∈ db.pages)
    (hSite : db.siteById page.site = some site) (hRequest : page.Requestable py site)
    {e : PyError} (hHead : input.head = .raised e) :
    ∃ message, (checkPage py input page).run db =
      if (failedRow input page e).fits = true then
        (.ok (.fail message),
          { db with pages := replace Page.idPage (failedRow input page e) db.pages })
      else (.error dataError, db) := by
  have hMarked : (page.marked input.justNow).Requestable py site := hRequest
  have hValid : (page.marked input.justNow).isValid py site input.head =
      .ok (.failure e.text (some (-1))) := by
    rw [isValid_of_requestable hMarked, hHead]
  have hStored : ∃ p ∈ db.pages, p.idPage = (failedRow input page e).idPage ∧
      p.fullPath = (failedRow input page e).fullPath := ⟨page, hPage, rfl, rfl⟩
  obtain ⟨url, hUrl, -⟩ := hRequest
  refine ⟨"Error al comprobar " ++ url ++ ": " ++ Result.failureText e.text (some (-1)), ?_⟩
  rw [checkPage, run_checkPageWith hSite, hUrl, hValid]
  exact Program.run_bind_ite _ _ _ (run_savePage_of_stored h input.stamp hStored)

/-- The `True` of a `Success` has no `status_code`. -/
theorem run_checkAnswer_true (url : Str) :
    (checkAnswer py input page site url (.success .true)).run db =
      (.error (attributeError "status_code"), db) := rfl

/-- The `None` of a `Failure` without code is no `int`. -/
theorem run_checkAnswer_fail (url message : Str) :
    ∃ e, (checkAnswer py input page site url (.fail message)).run db = (.error e, db) :=
  ⟨_, rfl⟩

/-- Whatever the response, the check raises and nothing is saved. -/
theorem run_checkPage_response {r : Response} (hHead : input.head = .response r) :
    ∃ e, (checkPage py input page).run db = (.error e, db) := by
  cases hSite : db.siteById page.site with
  | none => exact run_checkPageWith_none hSite _
  | some site =>
      rw [checkPage, run_checkPageWith hSite]
      cases hUrl : page.getFullUrl py site with
      | error e => exact ⟨e, rfl⟩
      | ok url =>
          cases hValid : (page.marked input.justNow).isValid py site input.head with
          | error e => exact ⟨e, rfl⟩
          | ok answer =>
              rw [isValid_of_requestable (requestable_of_isValid hValid), hHead] at hValid
              by_cases hOk : 200 ≤ r.statusCode ∧ r.statusCode < 300
              · obtain rfl : Result.success Payload.true = answer := by simpa [hOk] using hValid
                exact ⟨_, run_checkAnswer_true url⟩
              · obtain rfl := by simpa only [if_neg hOk, Except.ok.injEq] using hValid
                exact run_checkAnswer_fail url _

/-- What a check that returned has met. -/
theorem checkPage_returns {r : Result Str} {db' : Database}
    (hRun : (checkPage py input page).run db = (.ok r, db')) :
    ∃ site, db.siteById page.site = some site ∧ page.Requestable py site ∧
      ∃ e, input.head = .raised e := by
  cases hSite : db.siteById page.site with
  | none =>
      obtain ⟨e, hRaises⟩ : ∃ e, (checkPage py input page).run db = (.error e, db) :=
        run_checkPageWith_none hSite _
      simp [hRaises] at hRun
  | some site =>
      refine ⟨site, rfl, ?_, ?_⟩
      · rw [checkPage, run_checkPageWith hSite] at hRun
        cases hUrl : page.getFullUrl py site with
        | error e => simp [hUrl] at hRun
        | ok url =>
            cases hValid : (page.marked input.justNow).isValid py site input.head with
            | error e => simp [hUrl, hValid] at hRun
            | ok answer => exact requestable_of_isValid hValid
      · cases hHead : input.head with
        | raised e => exact ⟨e, rfl⟩
        | response response =>
            have hRaises : ∃ e, (checkPage py input page).run db = (.error e, db) :=
              run_checkPage_response hHead
            obtain ⟨e, hRaises⟩ := hRaises
            simp [hRaises] at hRun

/-- Only the message of a failure may be too long. -/
theorem failedRow_fits (hFits : page.fits = true) {e : PyError} :
    (failedRow input page e).fits = true ↔ storable 512 e.text = true := by
  simp only [Page.fits, failedRow, Bool.and_eq_true] at hFits ⊢
  constructor
  · intro h
    exact h.1.1.2
  · intro h
    exact ⟨⟨⟨hFits.1.1.1, h⟩, by simp⟩, hFits.2⟩

/-- The check returns, and its row carries the mark and the time of the check. -/
def ChecksOut (input : Input) (page : Page) (outcome : Except PyError (Result Str) × Database) :
    Prop :=
  ∃ r, outcome.1 = .ok r ∧ ∃ row ∈ outcome.2.pages,
    row.idPage = page.idPage ∧ row.isChecked = true ∧ row.checkedAt = input.justNow

/-- A check of a stored page returns, with its row up to date, exactly when the
page can be requested and the `HEAD` request raises with a text that the
column `error_message` can hold. -/
theorem checksOut_iff (py : Platform) (input : Input) (db : Database) (page : Page)
    (h : db.Consistent) (hPage : page ∈ db.pages) :
    ChecksOut input page ((checkPage py input page).run db) ↔
      ∃ site, db.siteById page.site = some site ∧ page.Requestable py site ∧
        ∃ e, input.head = .raised e ∧ storable 512 e.text = true := by
  constructor
  · rintro ⟨r, hReturn, -⟩
    obtain ⟨site, hSite, hRequest, e, hHead⟩ := checkPage_returns (Prod.ext hReturn rfl)
    refine ⟨site, hSite, hRequest, e, hHead, ?_⟩
    obtain ⟨message, hRun⟩ := run_checkPage_raised h hPage hSite hRequest hHead
    by_contra hWide
    rw [hRun, if_neg (mt (failedRow_fits (h.pagesFit page hPage)).mp hWide)] at hReturn
    cases hReturn
  · rintro ⟨site, hSite, hRequest, e, hHead, hWide⟩
    obtain ⟨message, hRun⟩ := run_checkPage_raised h hPage hSite hRequest hHead
    rw [hRun, if_pos ((failedRow_fits (h.pagesFit page hPage)).mpr hWide)]
    exact ⟨_, rfl, failedRow input page e, mem_replace.mpr (.inl ⟨rfl, page, hPage, rfl⟩),
      rfl, rfl, rfl⟩

theorem seedPage_requestable (tags : List StartTag) :
    seedPage.Requestable (.scripted tags) seedSite :=
  ⟨"http://h/", by rfl, by rfl⟩

/-- The seed page of a server that refuses the connection. -/
theorem checksOut_refused :
    ChecksOut (.scripted (.raised { kind := .osError, text := "refused" })) seedPage
      ((checkPage (.scripted []) (.scripted (.raised { kind := .osError, text := "refused" }))
        seedPage).run .seeded) :=
  (checksOut_iff _ _ .seeded seedPage Database.consistent_seeded (by decide)).mpr
    ⟨seedSite, by decide, seedPage_requestable [], _, rfl, by decide⟩

/-- A good answer to the request for the seed page makes the check raise. -/
theorem not_checksOut_ok :
    ¬ ChecksOut (.scripted (.response { statusCode := 200, headers := [], url := "http://h/" }))
      seedPage ((checkPage (.scripted [])
        (.scripted (.response { statusCode := 200, headers := [], url := "http://h/" }))
        seedPage).run .seeded) := by
  rintro ⟨r, hReturn, -⟩
  obtain ⟨_, _, _, e, hHead⟩ := checkPage_returns (Prod.ext hReturn rfl)
  cases hHead

/-- The server answers with this status: as a response, or as the exception
that carries it. -/
def HeadOutcome.Answers (head : HeadOutcome) (s : Nat) : Prop :=
  (∃ r, head = .response r ∧ r.statusCode = s) ∨ ∃ reason, head = .raised (httpError s reason)

/-- The check returns a `Failure`, and its row carries the status code. -/
def StatusRecorded (s : Nat) (page : Page) (outcome : Except PyError (Result Str) × Database) :
    Prop :=
  (∃ message code, outcome.1 = .ok (.failure message code)) ∧
    ∃ row ∈ outcome.2.pages, row.idPage = page.idPage ∧ row.status = s

/-- No answer leaves its status code in the row, inside the range of success or out of it. -/
theorem not_statusRecorded (py : Platform) (input : Input) (db : Database) (page : Page) (s : Nat)
    (h : db.Consistent) (hPage : page ∈ db.pages)
    (hAnswer : input.head.Answers s) :
    ¬ StatusRecorded s page ((checkPage py input page).run db) := by
  rintro ⟨⟨message, code, hReturn⟩, row, hRow, hKey, hStatus⟩
  rcases hAnswer with ⟨r, hHead, -⟩ | ⟨reason, hHead⟩
  · have hRaises : ∃ e, (checkPage py input page).run db = (.error e, db) :=
      run_checkPage_response hHead
    obtain ⟨e, hRaises⟩ := hRaises
    simp [hRaises] at hReturn
  · obtain ⟨site, hSite, hRequest, -⟩ := checkPage_returns (Prod.ext hReturn rfl)
    obtain ⟨text, hRun⟩ := run_checkPage_raised h hPage hSite hRequest hHead
    by_cases hFits : (failedRow input page (httpError s reason)).fits = true
    · rw [hRun, if_pos hFits] at hRow
      obtain ⟨rfl, -⟩ | ⟨-, hNe⟩ := mem_replace.mp hRow
      · have hMinus : (failedRow input page (httpError s reason)).status = -1 := rfl
        omega
      · exact hNe hKey
    · rw [hRun, if_neg hFits] at hReturn
      cases hReturn

/-- A server that answers with a status of its own accord. -/
theorem not_statusRecorded_unavailable :
    ¬ StatusRecorded 503 seedPage ((checkPage (.scripted [])
      (.scripted (.response { statusCode := 503, headers := [], url := "http://h/" })) seedPage).run
      .seeded) :=
  not_statusRecorded _ _ .seeded seedPage 503 Database.consistent_seeded (by decide)
    (.inl ⟨_, rfl, rfl⟩)

/-- A missing page, reported by an `HTTPError`. -/
theorem not_statusRecorded_notFound :
    ¬ StatusRecorded 404 seedPage ((checkPage (.scripted [])
      (.scripted (.raised (httpError 404 "Not Found"))) seedPage).run .seeded) := by
  rintro ⟨-, row, hRow, -, hStatus⟩
  have hHead : (Input.scripted (.raised (httpError 404 "Not Found"))).head =
      .raised (httpError 404 "Not Found") := rfl
  obtain ⟨text, hRun⟩ := run_checkPage_raised Database.consistent_seeded (by decide) (by rfl)
    (seedPage_requestable []) hHead
  rw [hRun, if_pos (by decide)] at hRow
  obtain ⟨rfl, -⟩ | ⟨hRow, -⟩ := mem_replace.mp hRow
  · cases hStatus
  · obtain rfl : row = seedPage := by simpa [Database.seeded] using hRow
    cases hStatus

end Spidercheck
