import Spidercheck.Execution.Worlds
import Spidercheck.Model.Integrity

/-! What every procedure keeps, whatever else is running. A discipline says what
holds of the database, what is known of the rows that a session has in hand, and
that each statement keeps to it when the rows it is about are known. Whole
procedures then keep to it, with one obligation: the links that they create. -/
namespace Spidercheck

open Text Url Execution Relational

/-- The row is the page after a check at that time, with any results. -/
def Page.Rechecked (page : Page) (now : Time) (row : Page) : Prop :=
  row = { page.marked now with
    status := row.status
    contentType := row.contentType
    sizeBytes := row.sizeBytes
    errorMessage := row.errorMessage
    checkTime := row.checkTime }

/-- The body whose links a check reads: the page and the answer are good, local HTML. -/
def Page.Reads (isValid : Site → Page → Except PyError (Result Payload)) (py : Platform)
    (input : Input) (site : Site) (page : Page) (body : Str) : Prop :=
  ∃ response headers, isValid site (page.marked input.justNow) = .ok (.success (.response response)) ∧
    contentIsHtml response.headers = true ∧ site.isLocal py response.url = .ok true ∧
    input.get = .response headers (.ok body) ∧ isValidHtml body = true

structure Discipline (World : Type) [Preorder World] where
  Holds : World → Database → Prop
  /-- The pages in hand, as they were loaded or changed in memory. -/
  Knows : World → Page → Prop
  /-- The sites in hand, to which pages may be added. -/
  Hosts : World → Site → Prop
  /-- The values in hand. -/
  Owns : World → Value → Prop
  /-- The times that the clock may show. -/
  Clock : Time → Prop
  /-- The pages that a page may be linked to. -/
  Joins : Page → Page → Prop
  knowsLasting : Lasting Knows
  hostsLasting : Lasting Hosts
  ownsLasting : Lasting Owns
  checked : ∀ w page now row, Knows w page → Clock now → page.Rechecked now row → Knows w row
  joinsChecked : ∀ page now row target, page.Rechecked now row → Joins page target → Joins row target
  siteOf : ∀ w db page site, Holds w db → Knows w page → db.siteById page.site = some site →
    Hosts w site
  found : ∀ w db site page, Holds w db → Hosts w site → page ∈ db.pages →
    page.site = site.idSite → Knows w page
  insertPage : ∀ w db site stamp subpath params status, Holds w db → Hosts w site →
    let added := db.insertPage stamp db.nextPage
      { Page.new site.idSite subpath params with status := status }
    ∃ w', w ≤ w' ∧ Holds w' added.2 ∧ ∀ row, added.1 = .ok row → Knows w' row
  savePage : ∀ w db stamp row, Holds w db → Knows w row →
    Holds w (db.updatePage row).2 ∧ Holds w (db.insertPage stamp row.idPage row).2
  insertLink : ∀ w db page target, Holds w db → Knows w page → Knows w target →
    Joins page target → Holds w (db.insertLink page.idPage target.idPage).2
  insertValue : ∀ w db page name value, Holds w db → Knows w page →
    let added := db.insertValue
      { idValue := db.nextValue, page := page.idPage, name := name, value := value }
    Holds w added.2 ∧ ∀ row, added.1 = .ok row → Owns w row
  foundValue : ∀ w db page row, Holds w db → Knows w page → row ∈ db.values →
    row.page = page.idPage → Owns w row
  saveValue : ∀ w db row value, Holds w db → Owns w row →
    Holds w (db.updateValue { row with value := value }).2 ∧
      Holds w (db.insertValue { row with value := value }).2
  deletePages : ∀ w db doomed, Holds w db →
    (∀ p ∈ db.pages, doomed p = true → ∃ q, Knows w q ∧ q.idPage = p.idPage) →
    Holds w (db.deletePages doomed)
  deleteLinks : ∀ w db doomed, Holds w db →
    (∀ l, doomed l = true → ∃ q, Knows w q ∧ (q.idPage = l.fromPage ∨ q.idPage = l.toPage)) →
    Holds w (db.deleteLinks doomed)
  deleteValues : ∀ w db doomed, Holds w db →
    (∀ v, doomed v = true → ∃ q, Knows w q ∧ q.idPage = v.page) → Holds w (db.deleteValues doomed)

namespace Discipline
variable {World : Type} [Preorder World] {d : Discipline World} {w : World} {Returned : Type}
  {py : Platform} {input : Input} {site : Site} {page : Page} {stamp : Nat → Time}

open Program

variable (d) in
/-- A session that keeps to the discipline, and returns what meets `post`. -/
abbrev Keeps (post : World → Returned → Prop) (w : World) (p : Session Returned) : Prop :=
  p.Secures d.Holds post w

/-- What is not said about the returned value. -/
abbrev Any : World → Returned → Prop := fun _ _ => True

theorem select {post : World → Returned → Prop} (table : Table) (f : Database → Returned)
    (h : ∀ w', w ≤ w' → ∀ db, d.Holds w' db → post w' (f db)) :
    d.Keeps post w (Session.selectFrom table f) :=
  secures_select _ f h

/-- Some page in hand has the key that a statement is about. -/
theorem known_idPage {w' : World} (hPage : d.Knows w page) (hw : w ≤ w') {pk : Nat}
    (hKey : page.idPage = pk) : ∃ q, d.Knows w' q ∧ q.idPage = pk :=
  ⟨page, d.knowsLasting w w' page hw hPage, hKey⟩

/-- Loading the site of a known page. -/
theorem loadSite (hPage : d.Knows w page) :
    d.Keeps (fun w site => d.Hosts w site ∧ site.idSite = page.site) w (Spidercheck.siteOf page) := by
  have hLoad : d.Keeps (fun w found => ∀ site, found = some site →
      d.Hosts w site ∧ site.idSite = page.site) w
      (Session.selectFrom .site (·.siteById page.site)) := by
    refine select _ _ fun w' hw db hDb site hSite => ?_
    exact ⟨d.siteOf w' db page site hDb (d.knowsLasting w w' page hw hPage) hSite,
      (mem_of_lookup hSite).2⟩
  refine hLoad.bind fun w' hw found hFound => ?_
  cases found with
  | some site => exact secures_pure (hFound site rfl)
  | none => exact secures_raise _

/-- Inserting a new page of the site. -/
theorem createPage (hSite : d.Hosts w site) (stamp : Nat → Time) (subpath params : Str) (status : Int) :
    d.Keeps (fun w row => d.Knows w row ∧ row.fullPath = (site.idSite, subpath, params)) w
      (Session.insertPage stamp { Page.new site.idSite subpath params with status := status }) := by
  refine secures_statement _ _ fun w' hw db hDb => ?_
  obtain ⟨w'', hw', hHolds, hKnows⟩ := d.insertPage w' db site stamp subpath params status hDb
    (d.hostsLasting w w' site hw hSite)
  refine ⟨w'', hw', hHolds, fun row hRow => ⟨hKnows row hRow, ?_⟩⟩
  obtain ⟨rfl, -⟩ := Database.accept_eq_ok (Prod.ext hRow rfl)
  rfl

/-- The page that is found or created is known, under its address. -/
theorem loadOrCreate (hSite : d.Hosts w site) (stamp : Nat → Time) (subpath params : Str) :
    d.Keeps (fun w r => d.Knows w r.1 ∧ r.1.fullPath = (site.idSite, subpath, params)) w
      (site.loadOrCreate stamp subpath params) := by
  have hFind : d.Keeps (fun w found => ∀ page, found = some page →
      d.Knows w page ∧ page.fullPath = (site.idSite, subpath, params)) w
      (Session.selectFrom .page fun db => firstBy Page.createdAt
        ((db.pagesOf site).filter fun p => p.subpath == subpath && p.params == params)) := by
    refine select _ _ fun w' hw db hDb page hPage => ?_
    have hMem := List.mem_filter.mp (List.argmin_mem hPage)
    obtain ⟨hStored, hOf⟩ := List.mem_filter.mp hMem.1
    have hOf : page.site = site.idSite := by simpa using hOf
    obtain ⟨hSubpath, hParams⟩ : page.subpath = subpath ∧ page.params = params := by
      simpa using hMem.2
    refine ⟨d.found w' db site page hDb (d.hostsLasting w w' site hw hSite) hStored hOf, ?_⟩
    rw [Page.fullPath, hOf, hSubpath, hParams]
  refine hFind.bind fun w' hw found hFound => ?_
  cases found with
  | some page => exact secures_pure (hFound page rfl)
  | none =>
      refine (createPage (d.hostsLasting w w' site hw hSite) stamp subpath params 0).bind ?_
      exact fun w'' _ row hRow => secures_pure hRow

/-- The page of a URL is known, under the path and query of the URL. -/
theorem addPage (hSite : d.Hosts w site) (py : Platform) (stamp : Nat → Time) (url : Str) :
    d.Keeps (fun w r => d.Knows w r.1 ∧ ∃ info, urlparse py.netlocCheck url [] = some info ∧
      r.1.fullPath = (site.idSite, info.path, info.query)) w (site.addPage py stamp url) := by
  unfold Site.addPage
  cases hParse : urlparse py.netlocCheck url [] with
  | none => trivial
  | some info =>
      exact (loadOrCreate hSite stamp info.path info.query).weaken
        fun _ _ r hr => ⟨hr.1, info, rfl, hr.2⟩

/-- Both looks and the `INSERT` between them. -/
theorem getOrCreate {α : Type} (post : World → α → Prop) (table : Table)
    (find : Database → Option α) {create : Session α}
    (hFind : ∀ w', w ≤ w' → ∀ db, d.Holds w' db → ∀ row, find db = some row → post w' row)
    (hCreate : ∀ w', w ≤ w' → d.Keeps post w' create) :
    d.Keeps (fun w r => post w r.1) w (Session.getOrCreate table find create) := by
  have hLook (w' : World) (hw : w ≤ w') :
      d.Keeps (fun w found => ∀ row, found = some row → post w row) w'
        (Session.selectFrom table find) :=
    select _ _ fun w'' hw' db hDb => hFind w'' (hw.trans hw') db hDb
  refine (hLook w le_rfl).bind fun w' hw found hFound => ?_
  cases found with
  | some row => exact secures_pure (hFound row rfl)
  | none =>
      refine Secures.attempt ((hCreate w' hw).bind fun _ _ _ hRow => secures_pure hRow) ?_
      intro w'' hw' e
      split
      · refine (hLook w'' (hw.trans hw')).bind fun _ _ found hFound => ?_
        cases found with
        | some row => exact secures_pure (hFound row rfl)
        | none => exact secures_raise _
      · exact secures_raise _

variable (d) in
/-- The page may be linked to every linkable page that the URL leads to. -/
def Admits (py : Platform) (site : Site) (page : Page) (url : Str) : Prop :=
  ∀ info, urlparse py.netlocCheck url [] = some info → ∀ target : Page, target.isLinkable = true →
    target.fullPath = (site.idSite, info.path, info.query) → d.Joins page target

variable (d) in
/-- All links that are read from the body are admitted. -/
def AdmitsBody (py : Platform) (input : Input) (site : Site) (page : Page) (body : Str) : Prop :=
  ∀ url ∈ (page.getAllValidLinks py site input.robots body).yielded, d.Admits py site page url

theorem AdmitsBody.checked {now : Time} {row : Page} {body : Str}
    (h : d.AdmitsBody py input site page body) (hRow : page.Rechecked now row) :
    d.AdmitsBody py input site row body := by
  intro url hUrl info hInfo target hLinkable hAddress
  have hLinks : row.getAllValidLinks py site input.robots body =
      page.getAllValidLinks py site input.robots body := by
    rw [hRow]
    exact Page.getAllValidLinks_congr py site (by rfl) (by rfl) _ _
  rw [hLinks] at hUrl
  exact d.joinsChecked page now row target hRow (h url hUrl info hInfo target hLinkable hAddress)

/-- One turn of `_update_links`. -/
theorem addLink (hPage : d.Knows w page) (hSite : d.Hosts w site) {url : Str}
    (hAdmits : d.Admits py site page url) (acc : Finset Nat) :
    d.Keeps Any w (Spidercheck.addLink py stamp site page acc url) := by
  refine (addPage hSite py stamp url).bind fun w' hw r hTarget => ?_
  obtain ⟨target, created⟩ := r
  obtain ⟨hTarget, info, hInfo, hAddress⟩ := hTarget
  simp only
  split
  · next hLinkable =>
      have hInsert (w'' : World) (hw' : w' ≤ w'') :
          d.Keeps Any w'' (Session.insertLink page.idPage target.idPage) := by
        refine secures_statement_stay _ _ fun v hv db hDb => ?_
        exact d.insertLink v db page target hDb
          (d.knowsLasting w v page (hw.trans (hw'.trans hv)) hPage)
          (d.knowsLasting w' v target (hw'.trans hv) hTarget)
          (hAdmits info hInfo target hLinkable hAddress)
      have hLink : d.Keeps Any w' (Session.getOrCreate .link
          (fun db => db.links.find? fun l => l.fromPage == page.idPage && l.toPage == target.idPage)
          (Session.insertLink page.idPage target.idPage)) :=
        getOrCreate Any _ _ (fun _ _ _ _ _ _ => trivial) hInsert
      exact hLink.seq fun _ _ _ => secures_pure trivial
  · exact secures_pure trivial

/-- The loop of `_update_links`, with the deletion behind it. -/
theorem syncLinks (hPage : d.Knows w page) (hSite : d.Hosts w site) (links : Generator Str)
    (hAdmits : ∀ url ∈ links.yielded, d.Admits py site page url) :
    d.Keeps Any w (Spidercheck.syncLinks py stamp site page links) := by
  have hBefore : d.Keeps Any w (Session.selectFrom .link (·.targetsOf page.idPage)) :=
    select _ _ fun _ _ _ _ => trivial
  refine hBefore.seq fun w' hw before => ?_
  have hLoop : d.Keeps Any w' (links.yielded.foldlM (Spidercheck.addLink py stamp site page) ∅) := by
    refine secures_foldlM _ (fun w'' hw' acc url hUrl => ?_) ∅
    exact addLink (d.knowsLasting w w'' page (hw.trans hw') hPage)
      (d.hostsLasting w w'' site (hw.trans hw') hSite) (hAdmits url hUrl) acc
  refine hLoop.seq fun w'' hw' after => ?_
  cases links.raised with
  | some e => exact secures_raise _
  | none =>
      simp only
      split
      · refine Secures.seq ?_ fun _ _ _ => secures_pure trivial
        refine secures_statement_stay _ _ fun v hv db hDb => ?_
        refine d.deleteLinks v db _ hDb fun l hl => ?_
        have hFrom : l.fromPage = page.idPage := by simpa using (Bool.and_eq_true_iff.mp hl).1
        exact ⟨page, d.knowsLasting w v page (hw.trans (hw'.trans hv)) hPage, .inl hFrom.symm⟩
      · exact secures_pure trivial

theorem updateLinks (hPage : d.Knows w page) (hSite : d.Hosts w site) (body : Str)
    (hAdmits : d.AdmitsBody py input site page body) :
    d.Keeps Any w (Spidercheck.updateLinks py input site page body) :=
  syncLinks hPage hSite _ hAdmits

theorem upsert (hPage : d.Knows w page) (name value : Str) :
    d.Keeps Any w (Value.upsert page name value) := by
  have hRow : d.Keeps (fun w r => d.Owns w r.1) w (Session.getOrCreate .value
      (fun db => db.values.find? fun v => v.page == page.idPage && v.name == name)
      (Session.insertValue page.idPage name [])) := by
    refine getOrCreate d.Owns _ _ ?_ ?_
    · intro w' hw db hDb row hRow
      obtain ⟨hOf, -⟩ : row.page = page.idPage ∧ row.name = name := by
        simpa using List.find?_some hRow
      exact d.foundValue w' db page row hDb (d.knowsLasting w w' page hw hPage)
        (List.mem_of_find?_eq_some hRow) hOf
    · intro w' hw
      refine secures_statement _ _ fun w'' hw' db hDb => ⟨w'', le_rfl, ?_⟩
      exact d.insertValue w'' db page name [] hDb (d.knowsLasting w w'' page (hw.trans hw') hPage)
  refine hRow.bind fun w' hw r hOwns => ?_
  have hSave (w'' : World) (hw' : w' ≤ w'') (db : Database) (hDb : d.Holds w'' db) :
      d.Holds w'' (db.updateValue { r.1 with value := value }).2 ∧
        d.Holds w'' (db.insertValue { r.1 with value := value }).2 :=
    d.saveValue w'' db r.1 value hDb (d.ownsLasting w' w'' r.1 hw' hOwns)
  refine Secures.seq
    (secures_statement_stay _ _ fun w'' hw' db hDb => (hSave w'' hw' db hDb).1) ?_
  intro w'' hw' matched
  cases matched with
  | true => exact secures_pure trivial
  | false =>
      refine Secures.seq ?_ fun _ _ _ => secures_pure trivial
      exact secures_statement_stay _ _ fun v hv db hDb => (hSave v (hw'.trans hv) db hDb).2

/-- The plugins, with the deletion in front of them. -/
theorem runPlugins (hPage : d.Knows w page) (plugins : List Plugin) (headers : Headers) (body : Str) :
    d.Keeps Any w (Spidercheck.runPlugins plugins page headers body) := by
  have hBefore : d.Keeps Any w (Session.selectFrom .value fun db =>
      (db.values.filter (·.page == page.idPage)).map (·.name)) :=
    select _ _ fun _ _ _ _ => trivial
  refine hBefore.seq fun w' hw before => ?_
  have hUpserts (w'' : World) (hw' : w' ≤ w'') :
      d.Keeps Any w'' ((collect page headers body plugins).1.forM fun item =>
        Value.upsert page item.1 item.2) :=
    secures_forM _ fun v hv item _ =>
      upsert (d.knowsLasting w v page (hw.trans (hw'.trans hv)) hPage) item.1 item.2
  simp only
  split
  · refine Secures.seq ?_ fun w'' hw' _ => ?_
    · refine secures_statement_stay _ _ fun v hv db hDb => ?_
      refine d.deleteValues v db _ hDb fun value hValue => ?_
      have hOf : value.page = page.idPage := by simpa using (Bool.and_eq_true_iff.mp hValue).1
      exact known_idPage hPage (hw.trans hv) hOf.symm
    · refine (hUpserts w'' hw').seq fun _ _ _ => ?_
      split <;> exact secures_pure trivial
  · refine (hUpserts w' le_rfl).seq fun _ _ _ => ?_
    split <;> exact secures_pure trivial

/-- Saving a known row. -/
theorem saveRow (hRow : d.Knows w page) (stamp : Nat → Time) :
    d.Keeps Any w (Session.savePage stamp page) := by
  have hSave (w' : World) (hw : w ≤ w') (db : Database) (hDb : d.Holds w' db) :
      d.Holds w' (db.updatePage page).2 ∧ d.Holds w' (db.insertPage stamp page.idPage page).2 :=
    d.savePage w' db stamp page hDb (d.knowsLasting w w' page hw hRow)
  refine Secures.seq (secures_statement_stay _ _ fun w' hw db hDb => (hSave w' hw db hDb).1) ?_
  intro w' hw matched
  cases matched with
  | true => exact secures_pure trivial
  | false =>
      refine Secures.seq ?_ fun _ _ _ => secures_pure trivial
      exact secures_statement_stay _ _ fun v hv db hDb => (hSave v (hw.trans hv) db hDb).2

/-- A check with the text of the page in hand. -/
theorem checkBody (hPage : d.Knows w page) (hClock : d.Clock input.justNow) (hSite : d.Hosts w site)
    {row : Page} (hRow : page.Rechecked input.justNow row) (url : Str) (headers : Headers) (body : Str)
    (hAdmits : isValidHtml body = true → d.AdmitsBody py input site page body) :
    d.Keeps Any w (Spidercheck.checkBody py input row site url headers body) := by
  have hKnown : d.Knows w row := d.checked w page _ row hPage hClock hRow
  unfold Spidercheck.checkBody
  split
  · next hHtml =>
      refine (updateLinks hKnown hSite body ((hAdmits hHtml).checked hRow)).seq fun w' hw _ => ?_
      refine (runPlugins (d.knowsLasting w w' row hw hKnown) input.plugins headers body).seq ?_
      exact fun _ _ _ => secures_pure trivial
  · refine Secures.seq (saveRow ?_ input.stamp) fun _ _ _ => secures_pure trivial
    refine d.checked w page _ _ hPage hClock ?_
    rw [hRow]
    rfl

theorem asResponse_eq_ok {name : Str} {value : Payload} {response : Response}
    (h : value.asResponse name = .ok response) : value = .response response := by
  cases value with
  | true => cases h
  | response r =>
      obtain rfl : r = response := Except.ok.inj h
      rfl

/-- A check after a response. -/
theorem checkResponse (hPage : d.Knows w page) (hClock : d.Clock input.justNow)
    (hSite : d.Hosts w site) (url : Str) (value : Payload)
    (hAdmits : ∀ response headers body, value = .response response →
      contentIsHtml response.headers = true → site.isLocal py response.url = .ok true →
      input.get = .response headers (.ok body) → isValidHtml body = true →
      d.AdmitsBody py input site page body) :
    d.Keeps Any w (Spidercheck.checkResponse py input (page.marked input.justNow) site url value) := by
  have hResponse : d.Keeps (fun _ response => value = .response response) w
      (liftExcept (value.asResponse "status_code") : Session Response) :=
    secures_liftExcept fun _ h => asResponse_eq_ok h
  refine hResponse.bind fun w' hw response hValue => ?_
  have hSize : d.Keeps Any w' (liftExcept (getContentLength response.headers) : Session Int) :=
    secures_liftExcept fun _ _ => trivial
  refine hSize.seq fun w'' hw' sizeBytes => ?_
  have hRow : page.Rechecked input.justNow
      ((page.marked input.justNow).answered input response sizeBytes) := rfl
  have hKnown : d.Knows w'' page := d.knowsLasting w w'' page (hw.trans hw') hPage
  refine (saveRow (d.checked w'' page _ _ hKnown hClock hRow) input.stamp).seq fun v hv _ => ?_
  have hHosts : d.Hosts v site := d.hostsLasting w v site (hw.trans (hw'.trans hv)) hSite
  split
  · next hHtml =>
      have hLocal : d.Keeps (fun _ isLocal => site.isLocal py response.url = .ok isLocal) v
          (liftExcept (site.isLocal py response.url) : Session Bool) :=
        secures_liftExcept fun _ h => h
      refine hLocal.bind fun v' hv' isLocal hIsLocal => ?_
      cases isLocal with
      | true =>
          have hText : d.Keeps (fun _ text => ∃ headers, input.get = .response headers (.ok text.2)) v'
              (liftExcept (getTextFromUrl py input.get url >>= TextResult.unpack) :
                Session (Headers × Str)) :=
            secures_liftExcept fun _ h => get_of_text h
          refine hText.bind fun v'' hv'' text hGet => ?_
          obtain ⟨headers, hGet⟩ := hGet
          exact checkBody (d.knowsLasting w'' v'' page (hv.trans (hv'.trans hv'')) hKnown) hClock
            (d.hostsLasting v v'' site (hv'.trans hv'') hHosts) hRow url text.1 text.2
            (hAdmits response headers text.2 hValue hHtml hIsLocal hGet)
      | false =>
          refine Secures.seq ?_ fun _ _ _ => secures_pure trivial
          refine secures_statement_stay _ _ fun v'' hv'' db hDb => d.deleteLinks v'' db _ hDb ?_
          intro l hl
          have hFrom : l.fromPage = (page.marked input.justNow).idPage := by simpa using hl
          exact ⟨page, d.knowsLasting w'' v'' page (hv.trans (hv'.trans hv'')) hKnown, .inl hFrom.symm⟩
  · exact secures_pure trivial

/-- A check after a failure. -/
theorem checkFailure (hPage : d.Knows w page) (hClock : d.Clock input.justNow) (url message : Str)
    (code : Option Int) :
    d.Keeps Any w (Spidercheck.checkFailure input (page.marked input.justNow) url message code) := by
  have hStatus : d.Keeps Any w (liftExcept (intOfCode code) : Session Int) :=
    secures_liftExcept fun _ _ => trivial
  refine hStatus.seq fun w' hw status => ?_
  refine Secures.seq (saveRow ?_ input.stamp) fun _ _ _ => secures_pure trivial
  exact d.checked w' page _ _ (d.knowsLasting w w' page hw hPage) hClock rfl

/-- A whole check. -/
theorem checkPageWith (hPage : d.Knows w page) (hClock : d.Clock input.justNow)
    (isValid : Site → Page → Except PyError (Result Payload))
    (hAdmits : ∀ w', w ≤ w' → ∀ site, d.Hosts w' site → site.idSite = page.site →
      ∀ body, page.Reads isValid py input site body → d.AdmitsBody py input site page body) :
    d.Keeps Any w (Spidercheck.checkPageWith isValid py input page) := by
  have hMarked : d.Knows w (page.marked input.justNow) := d.checked w page _ _ hPage hClock rfl
  refine (loadSite hMarked).bind fun w' hw site hSite => ?_
  have hUrl : d.Keeps Any w'
      (liftExcept ((page.marked input.justNow).getFullUrl py site) : Session Str) :=
    secures_liftExcept fun _ _ => trivial
  refine hUrl.seq fun w'' hw' url => ?_
  have hAnswer : d.Keeps (fun _ answer => isValid site (page.marked input.justNow) = .ok answer) w''
      (liftExcept (isValid site (page.marked input.justNow)) : Session (Result Payload)) :=
    secures_liftExcept fun _ h => h
  refine hAnswer.bind fun v hv answer hIsValid => ?_
  have hKnown : d.Knows v page := d.knowsLasting w v page (hw.trans (hw'.trans hv)) hPage
  cases answer with
  | failure message code => exact checkFailure hKnown hClock url message code
  | success value =>
      refine checkResponse hKnown hClock (d.hostsLasting w' v site (hw'.trans hv) hSite.1) url value ?_
      rintro response headers body rfl hHtml hLocal hGet hBody
      exact hAdmits w' hw site hSite.1 hSite.2 body
        ⟨response, headers, hIsValid, hHtml, hLocal, hGet, hBody⟩

/-- The switch of the flag, for disciplines that allow it. -/
theorem toogle (hPage : d.Knows w page)
    (hSwitched : d.Knows w { page with isLinkable := !page.isLinkable }) (stamp : Nat → Time) :
    d.Keeps Any w (Spidercheck.toogle stamp page) := by
  unfold Spidercheck.toogle
  simp only
  split
  · refine Secures.seq ?_ fun w' hw _ => ?_
    · refine secures_statement_stay _ _ fun v hv db hDb => d.deleteLinks v db _ hDb fun l hl => ?_
      have hTo : l.toPage = page.idPage := by simpa using hl
      exact ⟨page, d.knowsLasting w v page hv hPage, .inr hTo.symm⟩
    · exact saveRow (d.knowsLasting w w' _ hw hSwitched) stamp
  · exact saveRow hSwitched stamp

theorem deletePage (hPage : d.Knows w page) : d.Keeps Any w (Spidercheck.deletePage page) := by
  refine secures_statement_stay _ _ fun w' hw db hDb => d.deletePages w' db _ hDb fun p _ hp => ?_
  have hKey : p.idPage = page.idPage := by simpa using hp
  exact known_idPage hPage hw hKey.symm

theorem delete (hPage : d.Knows w page) : d.Keeps Any w (Spidercheck.delete page) := by
  have hDeletable : d.Keeps Any w (Session.selectFrom .link (·.canBeDeleted page)) :=
    select _ _ fun _ _ _ _ => trivial
  refine hDeletable.seq fun w' hw deletable => ?_
  cases deletable with
  | false => exact secures_raise _
  | true =>
      refine (loadSite (d.knowsLasting w w' page hw hPage)).bind fun w'' hw' _ _ => ?_
      exact deletePage (d.knowsLasting w w'' page (hw.trans hw') hPage)

/-- One turn of `site_expunge`, whether the page goes or not. -/
theorem expungePage (hPage : d.Knows w page) (py : Platform) (acc : Site × Nat × List Str) :
    d.Keeps Any w (Spidercheck.expungePage py acc page) := by
  refine (loadSite hPage).bind fun w' hw site _ => ?_
  have hDeletable : d.Keeps Any w' (Session.selectFrom .link (·.canBeDeleted page)) :=
    select _ _ fun _ _ _ _ => trivial
  refine hDeletable.seq fun w'' hw' deletable => ?_
  cases deletable with
  | false =>
      have hMessage : d.Keeps Any w'' (liftExcept (expungeError py site page) : Session Str) :=
        secures_liftExcept fun _ _ => trivial
      exact hMessage.seq fun _ _ _ => secures_pure trivial
  | true =>
      refine (deletePage (d.knowsLasting w w'' page (hw.trans hw') hPage)).seq fun _ _ _ => ?_
      exact secures_pure trivial

/-- All turns of `site_expunge`. -/
theorem siteExpunge (hSite : d.Hosts w site) (py : Platform) (idPages : List Nat) :
    d.Keeps Any w (Spidercheck.siteExpunge py site idPages) := by
  have hPages : d.Keeps (fun w pages => ∀ page ∈ pages, d.Knows w page) w
      (Session.selectFrom .page (·.selected site idPages)) := by
    refine select _ _ fun w' hw db hDb page hPage => ?_
    obtain ⟨hStored, hOf⟩ := List.mem_filter.mp (List.mem_of_mem_filter ((List.mem_insertionSort _).mp hPage))
    exact d.found w' db site page hDb (d.hostsLasting w w' site hw hSite) hStored (by simpa using hOf)
  refine hPages.bind fun w' hw pages hKnown => ?_
  have hLoop : d.Keeps Any w' (expunge py site pages) :=
    secures_foldlM _ (fun w'' hw' acc page hPage =>
      expungePage (d.knowsLasting w' w'' page hw' (hKnown page hPage)) py acc) (site, 0, [])
  exact hLoop.seq fun _ _ _ => secures_pure trivial

/-- A reset keeps to the discipline. -/
theorem reset (hSite : d.Hosts w site) (py : Platform) (input : Input) :
    d.Keeps Any w (Spidercheck.reset py input site) := by
  have hDoomed : d.Keeps (fun w keys => ∀ pk ∈ keys, ∃ q, d.Knows w q ∧ q.idPage = pk) w
      (Session.selectFrom .page fun db => (db.pagesOf site).map (·.idPage)) := by
    refine select _ _ fun w' hw db hDb pk hKey => ?_
    obtain ⟨page, hPage, rfl⟩ := List.mem_map.mp hKey
    obtain ⟨hStored, hOf⟩ := List.mem_filter.mp hPage
    exact ⟨page, d.found w' db site page hDb (d.hostsLasting w w' site hw hSite) hStored
      (by simpa using hOf), rfl⟩
  refine hDoomed.bind fun w' hw keys hKeys => ?_
  refine Secures.seq ?_ fun w'' hw' _ => ?_
  · refine secures_statement_stay _ _ fun v hv db hDb => d.deletePages v db _ hDb fun p _ hp => ?_
    obtain ⟨q, hq, hKey⟩ := hKeys p.idPage (by simpa using hp)
    exact known_idPage hq hv hKey
  · refine (addPage (d.hostsLasting w w'' site (hw.trans hw') hSite) py input.stamp site.path).bind ?_
    exact fun _ _ _ _ => secures_pure trivial

end Discipline

end Spidercheck
