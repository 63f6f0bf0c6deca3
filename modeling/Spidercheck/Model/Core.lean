import Spidercheck.Model.Page
import Mathlib.Data.Finset.SDiff
import Mathlib.Data.Finset.Card

/-! `core.py`: checking a page, synchronising its links and values, and
creating and resetting a site. -/
namespace Spidercheck

open Text Url Robots Execution

/-- What `get_text_from_url` returns: a pair, or a tuple of four. -/
inductive TextResult where
  | pair (headers : Headers) (text : Str)
  | quadruple (message : Str)

/-- `except IOError`: a tuple of four values. Other exceptions go through. -/
def ioFailure (e : PyError) : Except PyError TextResult :=
  if e.kind = .osError then .ok (.quadruple ("Conexion error: " ++ e.text)) else .error e

def getTextFromUrl (py : Platform) (get : GetOutcome) (url : Str) : Except PyError TextResult :=
  match Page.request py url, get with
  | .error e, _ => ioFailure e
  | .ok (), .raised e => ioFailure e
  | .ok (), .response _ (.error e) => ioFailure e
  | .ok (), .response headers (.ok text) =>
    if headers.any (lower ·.1 == "content-length".toList) then .ok (.pair headers text)
    else .ok (.pair (headers ++ [("content-length".toList, ofInt text.length)]) text)

/-- `headers, body = get_text_from_url(url)`. -/
def TextResult.unpack : TextResult → Except PyError (Headers × Str)
  | .pair headers text => .ok (headers, text)
  | .quadruple _ => .error (valueError "too many values to unpack (expected 2)")

def getContentType (headers : Headers) : Str :=
  let value := headers.get "content-type" []
  lower (if value ≠ [] ∧ ';' ∈ value then (cut ';' value).1 else value)

def getContentLength (headers : Headers) : Except PyError Int :=
  match toInt (headers.get "content-length" "0") with
  | some n => .ok n
  | none => .error (valueError "invalid literal for int() with base 10")

def contentIsHtml (headers : Headers) : Bool := getContentType headers == "text/html".toList

/-- The page that an attribute access on a page loads its site for. -/
def siteOf (page : Page) : Session Site := do
  match ← Session.selectFrom .site (·.siteById page.site) with
  | some site => return site
  | none => Program.raise { kind := .doesNotExist, text := "Site matching query does not exist." }

def Value.upsert (page : Page) (name value : Str) : Session Unit := do
  let (row, _) ← Session.getOrCreate .value
    (fun db => db.values.find? fun v => v.page == page.idPage && v.name == name)
    (Session.insertValue page.idPage name [])
  Session.saveValue { row with value := value }

def collect (page : Page) (headers : Headers) (body : Str) (plugins : List Plugin) :
    Dict × List Str :=
  plugins.foldl (fun acc plugin =>
    match plugin.process page headers body with
    | .ok (some result) => (acc.1.update result, acc.2)
    | .ok none => acc
    | .error e => (acc.1, acc.2 ++ [plugin.name ++ ": " ++ e.text])) ([], [])

def joinFailures (failures : List Str) : Str := List.intercalate "\n - ".toList failures

def runPlugins (plugins : List Plugin) (page : Page) (headers : Headers) (body : Str) :
    Session (Result Dict) := do
  let collected := collect page headers body plugins
  let before ← Session.selectFrom .value fun db =>
    (db.values.filter (·.page == page.idPage)).map (·.name)
  let removed := before.filter fun name => !collected.1.any (·.1 == name)
  if removed ≠ [] then
    Session.deleteValues fun v => v.page == page.idPage && removed.contains v.name
  collected.1.forM fun item => Value.upsert page item.1 item.2
  if collected.2 ≠ [] then
    return .fail ("Error al ejecutar los plug-ins:\n" ++ joinFailures collected.2)
  return .success collected.1

/-- One turn of the loop of `_update_links`: find or create the target and link to it. -/
def addLink (py : Platform) (stamp : Nat → Time) (site : Site) (page : Page)
    (afterLinks : Finset Nat) (newUrl : Str) : Session (Finset Nat) := do
  let (targetPage, _) ← site.addPage py stamp newUrl
  if targetPage.isLinkable then
    let _ ← Session.getOrCreate .link
      (fun db => db.links.find? fun l => l.fromPage == page.idPage && l.toPage == targetPage.idPage)
      (Session.insertLink page.idPage targetPage.idPage)
    return insert targetPage.idPage afterLinks
  return afterLinks

/-- The targets of the links that leave a page. -/
def Database.targetsOf (db : Database) (page : Nat) : Finset Nat :=
  ((db.links.filter (·.fromPage == page)).map (·.toPage)).toFinset

/-- `_update_links` for the links that a generator yields. -/
def syncLinks (py : Platform) (stamp : Nat → Time) (site : Site) (page : Page)
    (links : Generator Str) : Session (Finset Nat × Finset Nat) := do
  let beforeLinks ← Session.selectFrom .link (·.targetsOf page.idPage)
  let afterLinks ← links.yielded.foldlM (addLink py stamp site page) ∅
  match links.raised with
  | some e => Program.raise e
  | none =>
    let toRemoveLinks := beforeLinks \ afterLinks
    let toAddLinks := afterLinks \ beforeLinks
    if toRemoveLinks.Nonempty then
      let _ ← Session.deleteLinks fun l => l.fromPage == page.idPage && decide (l.toPage ∈ toRemoveLinks)
    return (toRemoveLinks, toAddLinks)

/-- `_update_links(page, body)` for a page with its site. -/
def updateLinks (py : Platform) (input : Input) (site : Site) (page : Page) (body : Str) :
    Session (Finset Nat × Finset Nat) :=
  syncLinks py input.stamp site page (page.getAllValidLinks py site input.robots body)

/-- `check_page` with the text of an HTML page in hand. -/
def checkBody (py : Platform) (input : Input) (page : Page) (site : Site) (url : Str)
    (headers : Headers) (body : Str) : Session (Result Str) := do
  if isValidHtml body then
    let (deletedLinks, addedLinks) ← updateLinks py input site page body
    let pluginsPhase ← runPlugins input.plugins page headers body
    return .success ("Comprobando " ++ url ++
      " Enlaces nuevos: " ++ ofInt addedLinks.card ++
      " Enlaces Borrados: " ++ ofInt deletedLinks.card ++
      " Plugins: " ++ if pluginsPhase.isSuccess then "✓" else "𐄂")
  else
    let msg : Str := "La URL " ++ url ++ " debería ser HTML, pero no lo parece"
    Session.savePage input.stamp { page with status := 418, errorMessage := msg }
    return .fail msg

/-- The page with the data of a response to its `HEAD` request. -/
def Page.answered (page : Page) (input : Input) (response : Response) (sizeBytes : Int) : Page :=
  { page with
    status := response.statusCode
    contentType := getContentType response.headers
    sizeBytes := sizeBytes
    checkTime := input.stopTime - input.startTime }

/-- `check_page` after `is_valid` answered with a response. -/
def checkResponse (py : Platform) (input : Input) (page : Page) (site : Site) (url : Str)
    (value : Payload) : Session (Result Str) := do
  let response ← Program.liftExcept (value.asResponse "status_code")
  let sizeBytes ← Program.liftExcept (getContentLength response.headers)
  Session.savePage input.stamp (page.answered input response sizeBytes)
  if contentIsHtml response.headers then
    if ← Program.liftExcept (site.isLocal py response.url) then
      let text ← Program.liftExcept (getTextFromUrl py input.get url >>= TextResult.unpack)
      checkBody py input (page.answered input response sizeBytes) site url text.1 text.2
    else
      let _ ← Session.deleteLinks (·.fromPage == page.idPage)
      return .success ("Comprobando " ++ url)
  else return .success ("Comprobando " ++ url)

/-- `check_page` after `is_valid` answered with a failure. -/
def checkFailure (input : Input) (page : Page) (url message : Str) (code : Option Int) :
    Session (Result Str) := do
  let status ← Program.liftExcept (intOfCode code)
  Session.savePage input.stamp { page with
    status := status
    errorMessage := message
    checkTime := input.stopTime - input.startTime }
  return .fail ("Error al comprobar " ++ url ++ ": " ++ Result.failureText message code)

def checkAnswer (py : Platform) (input : Input) (page : Page) (site : Site) (url : Str) :
    Result Payload → Session (Result Str)
  | .failure message code => checkFailure input page url message code
  | .success value => checkResponse py input page site url value

/-- The page that `check_page` works on: the one it was given, marked as checked now. -/
def Page.marked (page : Page) (now : Time) : Page := { page with checkedAt := now, isChecked := true }

/-- `check_page`, with the answer of `is_valid` as an argument. -/
def checkPageWith (isValid : Site → Page → Except PyError (Result Payload)) (py : Platform)
    (input : Input) (page : Page) : Session (Result Str) := do
  let page := page.marked input.justNow
  let site ← siteOf page
  let url ← Program.liftExcept (page.getFullUrl py site)
  let answer ← Program.liftExcept (isValid site page)
  checkAnswer py input page site url answer

def checkPage (py : Platform) (input : Input) (page : Page) : Session (Result Str) :=
  checkPageWith (fun site page => page.isValid py site input.head) py input page

/-- `Site(…)` for a parsed seed URL; the key and the time are set by the `INSERT`. -/
def Site.new (name : Str) (info : ParseResult) : Site where
  idSite := 0
  name := name
  scheme := info.scheme
  netloc := info.netloc
  path := info.path
  createdAt := epoch

def initSite (py : Platform) (input : Input) (url name : Str) : Session Site := do
  if (← Session.selectFrom .site (·.siteByName name)).isSome then
    Program.raise (valueError ("Error: El site " ++ name ++ " ya existe"))
  else
    let info ← Program.liftExcept (orValueError (urlparse py.netlocCheck url []))
    let site ← Session.insertSite input.justNow (Site.new name info)
    let _ ← Session.insertPage input.stamp { Page.new site.idSite info.path [] with status := -1 }
    return site

/-- `reset_site` after the site was found. -/
def reset (py : Platform) (input : Input) (site : Site) : Session Site := do
  let doomed ← Session.selectFrom .page fun db => (db.pagesOf site).map (·.idPage)
  Session.deletePages fun p => doomed.contains p.idPage
  let _ ← site.addPage py input.stamp site.path
  return site

def resetSite (py : Platform) (input : Input) (name : Str) : Session Site := do
  match ← Session.selectFrom .site (·.siteByName name) with
  | none => Program.raise (valueError ("No existe ningun site llamado " ++ name))
  | some site => reset py input site

/-- What a turn of `check_site` reads: the database time and the random draw of the
choice, what its check reads, and what others do to the database between the
`yield` and the next choice. -/
structure Turn where
  now : Time
  draw : ℚ
  isValid : Site → Page → Except PyError (Result Payload)
  input : Input
  meanwhile : Database → Database

/-- The loop of `check_site`, with the page it looks at and the number of results
that are still wanted; `none` when the fuel is used up. -/
def checkLoop (py : Platform) (site : Site) (turns : Nat → Turn) :
    Nat → Nat → Option Page → Int → Database → Option (Generator (Page × Result Str) × Database)
  | 0, _, _, _, _ => none
  | _ + 1, _, none, _, db => some ({ yielded := [], raised := none }, db)
  | fuel + 1, i, some page, num, db =>
    if 0 < num then
      match (checkPageWith (turns i).isValid py (turns i).input page).run db with
      | (.error e, db') => some ({ yielded := [], raised := some e }, db')
      | (.ok result, db') =>
        let db'' := (turns i).meanwhile db'
        let next := site.nextPageToCheck db'' (turns (i + 1)).now (turns (i + 1)).draw
        (checkLoop py site turns fuel (i + 1) next (num - 1) db'').map fun rest =>
          ({ rest.1 with yielded := (page, result) :: rest.1.yielded }, rest.2)
    else some ({ yielded := [], raised := none }, db)

/-- `check_site(site, num)`, run to its end. -/
def checkSite (py : Platform) (site : Site) (turns : Nat → Turn) (fuel : Nat) (num : Int)
    (db : Database) : Option (Generator (Page × Result Str) × Database) :=
  checkLoop py site turns fuel 0 (site.nextPageToCheck db (turns 0).now (turns 0).draw) num db

end Spidercheck
