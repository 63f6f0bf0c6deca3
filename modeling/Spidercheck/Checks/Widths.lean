import Spidercheck.Checks.Freshness
import Spidercheck.Checks.Rejections

/-! The widths of the text columns. A check writes what it is given: headers,
error texts, links and the answers of the plugins, none of them cut to the width
of its column. Which checks are rejected can be read off their inputs. -/
namespace Spidercheck

open Text Url Execution Relational

variable {py : Platform} {input : Input} {db : Database} {page row : Page} {site : Site} {url : Str}

def Tame {α : Type} (r : Except PyError α) : Prop := ∀ e, r = .error e → e.kind ≠ .dataError

/-- The exceptions that come from outside are not those of the database. -/
structure Foreign (py : Platform) (input : Input) : Prop where
  tags : ∀ text, Tame (py.startTags text)
  robots : Tame input.robots
  raised : ∀ e, input.get = .raised e → e.kind ≠ .dataError
  body : ∀ headers body, input.get = .response headers body → Tame body

section Tame
variable {α β : Type}

theorem tame_ok (value : α) : Tame (.ok value) := by
  intro e h
  cases h

theorem tame_valueError (text : Str) : Tame (.error (valueError text) : Except PyError α) := by
  rintro e h
  obtain rfl := Except.error.inj h
  simp [valueError]

theorem tame_orValueError (o : Option α) : Tame (orValueError o) := by
  cases o with
  | some value => exact tame_ok value
  | none => exact tame_valueError _

theorem Tame.bind {r : Except PyError α} {k : α → Except PyError β} (h : Tame r)
    (hk : ∀ value, Tame (k value)) : Tame (r >>= k) := by
  cases r with
  | ok value => exact hk value
  | error e => exact fun e' h' => h e' (congrArg Except.error (Except.error.inj h'))

end Tame

theorem tame_getFullUrl : Tame (page.getFullUrl py site) :=
  (tame_orValueError _).bind fun _ => tame_ok _

theorem tame_getRelativeUrl : Tame (page.getRelativeUrl py site) :=
  (tame_orValueError _).bind fun _ => tame_ok _

theorem tame_isLocal : Tame (site.isLocal py url) := by
  apply (tame_orValueError _).bind
  intro info
  split
  · exact tame_ok _
  · split
    · exact tame_ok _
    · exact tame_ok _

theorem tame_validLink (robots : Robots.RobotFileParser) (link : Str) :
    Tame (page.validLink py site robots link) := by
  apply tame_getFullUrl.bind
  intro full
  apply (tame_orValueError _).bind
  intro resolved
  apply tame_getFullUrl.bind
  intro again
  split
  · exact tame_ok _
  · apply tame_isLocal.bind
    intro isLocal
    split
    · exact tame_ok _
    · apply (tame_orValueError _).bind
      intro allowed
      split
      · exact tame_ok _
      · apply tame_getRelativeUrl.bind
        intro relative
        exact (tame_orValueError _).bind fun _ => tame_ok _

/-- No link raises an exception of the database. -/
theorem kind_of_validLinks (robots : Robots.RobotFileParser) (links : List Str) {e : PyError}
    (h : (page.validLinks py site robots links).raised = some e) : e.kind ≠ .dataError := by
  induction links with
  | nil => cases h
  | cons link rest ih =>
      unfold Page.validLinks at h
      split at h
      · next e' hLink =>
        obtain rfl := Option.some.inj h
        exact tame_validLink robots link e' hLink
      · exact ih h
      · exact ih h

theorem kind_of_raised (hForeign : Foreign py input) {body : Str} {e : PyError}
    (h : (page.getAllValidLinks py site input.robots body).raised = some e) : e.kind ≠ .dataError := by
  have hTags : Tame (Page.linksOf py body) := (hForeign.tags body).bind fun _ => tame_ok _
  unfold Page.getAllValidLinks at h
  split at h
  · next e' hLinks =>
    obtain rfl := Option.some.inj h
    exact hTags e' hLinks
  · next e' _ hRobots =>
    obtain rfl := Option.some.inj h
    exact hForeign.robots e' hRobots
  · exact kind_of_validLinks _ _ h

theorem tame_request : Tame (Page.request py url) := by
  unfold Page.request
  simp only
  split
  · exact tame_valueError _
  · exact (tame_orValueError _).bind fun _ => tame_ok _

/-- Reading a page raises no exception of the database. -/
theorem tame_getText (hForeign : Foreign py input) :
    Tame (getTextFromUrl py input.get url >>= TextResult.unpack) := by
  have hFailure {e : PyError} (h : e.kind ≠ .dataError) : Tame (ioFailure e >>= TextResult.unpack) := by
    unfold ioFailure
    split
    · exact tame_valueError _
    · rintro e' hRaised
      obtain rfl := Except.error.inj hRaised
      exact h
  unfold getTextFromUrl
  split
  · next e hRequest => exact hFailure (tame_request e hRequest)
  · next e _ hGet => exact hFailure (hForeign.raised e hGet)
  · next headers e _ hGet => exact hFailure (hForeign.body headers _ hGet e rfl)
  · split
    · exact tame_ok _
    · exact tame_ok _

theorem tame_getContentLength (headers : Headers) : Tame (getContentLength headers) := by
  unfold getContentLength
  split
  · exact tame_ok _
  · exact tame_valueError _

/-- The links and the answers of the plugins for a text, or the message about it. -/
def TextFits (py : Platform) (input : Input) (site : Site) (row : Page) (url : Str)
    (text : Headers × Str) : Prop :=
  let links := row.getAllValidLinks py site input.robots text.2
  if isValidHtml text.2 then
    UrlsFit py links.yielded ∧ (links.raised = none ∧ (∀ url ∈ links.yielded, Storable py url) →
      ∀ item ∈ (collect row text.1 text.2 input.plugins).1, ValueFits item.1 item.2)
  else storable 512 ("La URL " ++ url ++ " debería ser HTML, pero no lo parece") = true

/-- The columns of a response, and what follows from its text. -/
def Response.Fits (py : Platform) (input : Input) (site : Site) (page : Page) (url : Str)
    (response : Response) (sizeBytes : Int) : Prop :=
  (storable 32 (getContentType response.headers) = true ∧ response.statusCode < 2 ^ 31 ∧
    -2 ^ 63 ≤ sizeBytes ∧ sizeBytes < 2 ^ 63) ∧
  ∀ text, response.IsLocalHtml py site →
    (getTextFromUrl py input.get url >>= TextResult.unpack) = .ok text →
    TextFits py input site ((page.marked input.justNow).answered input response sizeBytes) url text

/-- Everything fits that a check writes after an answer of `is_valid`. -/
def Result.Fits (py : Platform) (input : Input) (site : Site) (page : Page) (url : Str) :
    Result Payload → Prop
  | .failure message code => ∀ n, code = some n →
      storable 512 message = true ∧ -2 ^ 31 ≤ n ∧ n < 2 ^ 31
  | .success value => ∀ response sizeBytes, value = .response response →
      getContentLength response.headers = .ok sizeBytes → response.Fits py input site page url sizeBytes

/-- The columns of a page that have a bound. -/
theorem page_fits_iff : page.fits = true ↔
    (storable 280 page.subpath = true ∧ storable 1024 page.params = true) ∧
      storable 32 page.contentType = true ∧ storable 512 page.errorMessage = true ∧
      (-2 ^ 31 ≤ page.status ∧ page.status < 2 ^ 31) ∧ (-2 ^ 63 ≤ page.sizeBytes ∧ page.sizeBytes < 2 ^ 63) := by
  simp only [Page.fits, Bool.and_eq_true, decide_eq_true_eq, and_assoc]

/-- Only the message and the code of a failure may not fit. -/
theorem refused_fits (hFits : page.fits = true) (message : Str) (status : Int) :
    ((page.marked input.justNow).refused input message status).fits = true ↔
      storable 512 message = true ∧ -2 ^ 31 ≤ status ∧ status < 2 ^ 31 := by
  obtain ⟨hPath, hType, -, -, hSize⟩ := page_fits_iff.mp hFits
  rw [page_fits_iff]
  constructor
  · rintro ⟨-, -, hMessage, hStatus, -⟩
    exact ⟨hMessage, hStatus⟩
  · rintro ⟨hMessage, hStatus⟩
    exact ⟨hPath, hType, hMessage, hStatus, hSize⟩

/-- Only the data of the response may not fit. -/
theorem answered_fits (hFits : page.fits = true) (response : Response) (sizeBytes : Int) :
    ((page.marked input.justNow).answered input response sizeBytes).fits = true ↔
      storable 32 (getContentType response.headers) = true ∧ response.statusCode < 2 ^ 31 ∧
        -2 ^ 63 ≤ sizeBytes ∧ sizeBytes < 2 ^ 63 := by
  obtain ⟨hPath, -, hMessage, -, -⟩ := page_fits_iff.mp hFits
  rw [page_fits_iff]
  constructor
  · rintro ⟨-, hType, -, ⟨-, hStatus⟩, hSize⟩
    have hNat : (response.statusCode : Int) < 2 ^ 31 := hStatus
    exact ⟨hType, by omega, hSize⟩
  · rintro ⟨hType, hStatus, hSize⟩
    have hRange : -2 ^ 31 ≤ (response.statusCode : Int) ∧ (response.statusCode : Int) < 2 ^ 31 := by omega
    exact ⟨hPath, hType, hMessage, hRange, hSize⟩

theorem not_rejects_liftExcept {α : Type} {r : Except PyError α} (h : Tame r) :
    ¬ Rejects (Program.liftExcept r : Session α) db := by
  rintro ⟨e, hRun, hKind⟩
  exact h e hRun hKind

/-- A computation that may raise, and what comes after it. -/
theorem rejects_liftExcept_bind {α β : Type} {r : Except PyError α} {k : α → Session β} (h : Tame r) :
    Rejects (Program.liftExcept r >>= k) db ↔ ∃ value, r = .ok value ∧ Rejects (k value) db := by
  rw [rejects_bind, or_iff_right (not_rejects_liftExcept h)]
  constructor
  · rintro ⟨value, t, hRun, hRejects⟩
    obtain ⟨hValue, rfl⟩ := Prod.mk.inj hRun
    exact ⟨value, hValue, hRejects⟩
  · rintro ⟨value, hValue, hRejects⟩
    exact ⟨value, db, Prod.ext hValue rfl, hRejects⟩

/-- A failed check is rejected exactly when its message or its code does not fit. -/
theorem rejects_checkFailure (hDb : db.Consistent) (hPage : page ∈ db.pages) (message : Str)
    (code : Option Int) :
    Rejects (checkFailure input (page.marked input.justNow) url message code) db ↔
      ¬ (Result.failure message code).Fits py input site page url := by
  cases code with
  | none =>
      refine iff_of_false ?_ (not_not.mpr fun n hCode => nomatch hCode)
      rw [checkFailure, rejects_liftExcept_bind]
      · rintro ⟨status, hStatus, -⟩
        cases hStatus
      · rintro e hError
        obtain rfl := Except.error.inj hError
        simp
  | some n =>
      let row : Page := (page.marked input.justNow).refused input message n
      have hSave : Rejects (Session.savePage input.stamp row) db ↔ ¬ row.fits = true :=
        rejects_savePage hDb input.stamp ⟨page, hPage, rfl, rfl⟩
      rw [refused_fits (hDb.pagesFit page hPage)] at hSave
      have hFits : (Result.failure message (some n)).Fits py input site page url ↔
          storable 512 message = true ∧ -2 ^ 31 ≤ n ∧ n < 2 ^ 31 := by
        constructor
        · intro h
          exact h n rfl
        · rintro h m hCode
          obtain rfl := Option.some.inj hCode
          exact h
      rw [hFits, ← hSave]
      exact rejects_bind_pure _

/-- An HTML text writes links and then values, any other text a message. -/
theorem rejects_checkBody (hForeign : Foreign py input) (hDb : db.Consistent) (hRow : row ∈ db.pages)
    (hSite : site ∈ db.sites) (text : Headers × Str) :
    Rejects (checkBody py input row site url text.1 text.2) db ↔
      ¬ TextFits py input site row url text := by
  unfold checkBody TextFits
  simp only
  split
  · let links : Generator Str := row.getAllValidLinks py site input.robots text.2
    have hLinks : Rejects (updateLinks py input site row text.2) db ↔ ¬ UrlsFit py links.yielded :=
      rejects_syncLinks py input.stamp hDb hSite hRow fun e => kind_of_raised hForeign
    have hValues {linked : Database} {changes : Finset Nat × Finset Nat}
        (hRun : (updateLinks py input site row text.2).run db = (.ok changes, linked)) :
        Rejects (runPlugins input.plugins row text.1 text.2) linked ↔
          ¬ ∀ item ∈ (collect row text.1 text.2 input.plugins).1, ValueFits item.1 item.2 := by
      have hAppends : Appends input.stamp db ((updateLinks py input site row text.2).run db).2 :=
        appends_updateLinks hDb text.2
      rw [hRun] at hAppends
      obtain ⟨new, hPages, -⟩ := hAppends.pages
      exact rejects_runPlugins _ _ _ hAppends.consistent (hPages ▸ List.mem_append_left _ hRow)
    rw [rejects_bind, hLinks, not_and_or]
    apply or_congr_right
    rw [Classical.not_imp]
    constructor
    · rintro ⟨changes, linked, hRun, hRejects⟩
      have hReturned : links.raised = none ∧ ∀ url ∈ links.yielded, Storable py url :=
        storable_of_returns py input.stamp hDb hSite hRow hRun
      rw [rejects_bind_pure, hValues hRun] at hRejects
      exact ⟨hReturned, hRejects⟩
    · rintro ⟨⟨hRaised, hStorable⟩, hWide⟩
      obtain ⟨changes, linked, hRun⟩ :=
        returns_of_storable py input.stamp hDb hSite hRow hRaised hStorable
      refine ⟨changes, linked, hRun, ?_⟩
      rw [rejects_bind_pure, hValues hRun]
      exact hWide
  · let message : Str := "La URL " ++ url ++ " debería ser HTML, pero no lo parece"
    let teapot : Page := { row with status := 418, errorMessage := message }
    have hSave : Rejects (Session.savePage input.stamp teapot) db ↔ ¬ teapot.fits = true :=
      rejects_savePage hDb input.stamp ⟨row, hRow, rfl, rfl⟩
    obtain ⟨hPath, hType, -, -, hSize⟩ := page_fits_iff.mp (hDb.pagesFit row hRow)
    have hStatus : -2 ^ 31 ≤ (418 : Int) ∧ (418 : Int) < 2 ^ 31 := by decide
    have hFits : teapot.fits = true ↔ storable 512 message = true := by
      rw [page_fits_iff]
      constructor
      · rintro ⟨-, -, hMessage, -⟩
        exact hMessage
      · intro hMessage
        exact ⟨hPath, hType, hMessage, hStatus, hSize⟩
    rw [hFits] at hSave
    rw [rejects_bind_pure]
    exact hSave

/-- What comes after the row of a response was saved. -/
theorem rejects_rest (hForeign : Foreign py input) (hDb : db.Consistent) (hRow : row ∈ db.pages)
    (hSite : site ∈ db.sites) (response : Response) :
    Rejects (do
      if contentIsHtml response.headers then
        if ← Program.liftExcept (site.isLocal py response.url) then
          let text ← Program.liftExcept (getTextFromUrl py input.get url >>= TextResult.unpack)
          checkBody py input row site url text.1 text.2
        else
          let _ ← Session.deleteLinks (·.fromPage == row.idPage)
          return .success ("Comprobando " ++ url)
      else return .success ("Comprobando " ++ url) : Session (Result Str)) db ↔
    ¬ ∀ text, response.IsLocalHtml py site →
      (getTextFromUrl py input.get url >>= TextResult.unpack) = .ok text →
      TextFits py input site row url text := by
  split
  · next hKind =>
    rw [rejects_liftExcept_bind tame_isLocal]
    constructor
    · rintro ⟨isLocal, hScope, hRejects⟩ hAll
      cases isLocal with
      | false =>
          rw [if_neg Bool.false_ne_true, rejects_bind_pure] at hRejects
          exact not_rejects_of_ok (by rfl) hRejects
      | true =>
          obtain ⟨text, hText, hRejects⟩ := (rejects_liftExcept_bind (tame_getText hForeign)).mp hRejects
          exact (rejects_checkBody hForeign hDb hRow hSite text).mp hRejects
            (hAll text ⟨hKind, hScope⟩ hText)
    · intro hSome
      obtain ⟨text, hText⟩ := not_forall.mp hSome
      obtain ⟨hLocal, hText⟩ := Classical.not_imp.mp hText
      obtain ⟨hText, hWide⟩ := Classical.not_imp.mp hText
      refine ⟨true, hLocal.2, (rejects_liftExcept_bind (tame_getText hForeign)).mpr ⟨text, hText, ?_⟩⟩
      exact (rejects_checkBody hForeign hDb hRow hSite text).mpr hWide
  · next hKind =>
    exact iff_of_false (not_rejects_pure _) (not_not.mpr fun _ hLocal => absurd hLocal.1 hKind)

/-- A check of a response is rejected exactly when something of what it writes does not fit. -/
theorem rejects_checkResponse (hForeign : Foreign py input) (hDb : db.Consistent)
    (hPage : page ∈ db.pages) (hSite : site ∈ db.sites) (response : Response) :
    Rejects (checkResponse py input (page.marked input.justNow) site url (.response response)) db ↔
      ∃ sizeBytes, getContentLength response.headers = .ok sizeBytes ∧
        ¬ response.Fits py input site page url sizeBytes := by
  let row (sizeBytes : Int) : Page := (page.marked input.justNow).answered input response sizeBytes
  have hRow (sizeBytes : Int) : row sizeBytes ∈ (db.rewrite (row sizeBytes)).pages :=
    Database.mem_rewrite hPage rfl
  have hRun (sizeBytes : Int) := run_savePage_of_stored hDb input.stamp
    (show ∃ p ∈ db.pages, p.idPage = (row sizeBytes).idPage ∧ p.fullPath = (row sizeBytes).fullPath from
      ⟨page, hPage, rfl, rfl⟩)
  show Rejects (Program.liftExcept (getContentLength response.headers) >>= fun sizeBytes =>
    Session.savePage input.stamp (row sizeBytes) >>= fun _ => _) db ↔ _
  rw [rejects_liftExcept_bind (tame_getContentLength _)]
  apply exists_congr
  intro sizeBytes
  apply and_congr_right
  intro _
  rw [Response.Fits, ← answered_fits (hDb.pagesFit page hPage)]
  by_cases hFits : (row sizeBytes).fits = true
  · have hSave : (Session.savePage input.stamp (row sizeBytes)).run db =
        (.ok (), db.rewrite (row sizeBytes)) := (hRun sizeBytes).trans (if_pos hFits)
    rw [rejects_bind_of_ok hSave, and_iff_right hFits]
    have hSaved : (db.rewrite (row sizeBytes)).Consistent :=
      (hDb.rewrite_of_savePage hPage (by rfl) (by rfl) hSave).2
    exact rejects_rest hForeign hSaved (hRow sizeBytes) hSite response
  · have hSave : (Session.savePage input.stamp (row sizeBytes)).run db = (.error dataError, db) :=
      (hRun sizeBytes).trans (if_neg hFits)
    exact iff_of_true ((rejects_bind_of_error hSave).mpr rfl) fun h => hFits h.1

/-- A check is rejected exactly when something of what it writes does not fit. -/
theorem rejects_checkPageWith (hForeign : Foreign py input) (hDb : db.Consistent)
    (hPage : page ∈ db.pages) (hSite : db.siteById page.site = some site) (answer : Result Payload) :
    Rejects (checkPageWith (fun _ _ => .ok answer) py input page) db ↔
      ¬ ∀ url, page.getFullUrl py site = .ok url → answer.Fits py input site page url := by
  rw [Rejects, run_checkPageWith hSite]
  cases hUrl : page.getFullUrl py site with
  | error e =>
      have hKind : e.kind ≠ .dataError := tame_getFullUrl e hUrl
      simp [hKind]
  | ok url =>
      simp only [Except.ok.injEq, forall_eq']
      cases answer with
      | failure message code => exact rejects_checkFailure hDb hPage message code
      | success value =>
          cases value with
          | true =>
              refine iff_of_false ?_ (not_not.mpr fun _ _ hValue => by cases hValue)
              rintro ⟨e, hRun, hKind⟩
              obtain rfl := Except.error.inj hRun
              cases hKind
          | response response =>
              refine (rejects_checkResponse hForeign hDb hPage (mem_sites_of_siteById hSite) response).trans ?_
              simp [Result.Fits]

/-- A text document, by the type that the standard registers for it. -/
def wordResponse : Response where
  statusCode := 200
  headers := [("Content-Type",
    "application/vnd.openxmlformats-officedocument.wordprocessingml.document")]
  url := "http://h/"

end Spidercheck
