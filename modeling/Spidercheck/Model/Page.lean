import Spidercheck.Model.Site

/-! The `Page` model of `models.py`: its URLs, the links it may follow, and the
`HEAD` request that tells whether it is valid. -/
namespace Spidercheck

open Text Url Robots

/-- A generator: what it yields, and what it raises after that. -/
structure Generator (α : Type) where
  yielded : List α
  raised : Option PyError

namespace Page
variable (py : Platform) (site : Site) (page : Page)

def getRelativeUrl : Except PyError Str := do
  let path ← orValueError (urljoin py.netlocCheck site.path page.subpath)
  return urlunparse { scheme := [], netloc := [], path := path, params := [],
                      query := page.params, fragment := [] }

def getFullUrl : Except PyError Str := do
  let path ← orValueError (urljoin py.netlocCheck site.path page.subpath)
  return urlunparse { scheme := site.scheme, netloc := site.netloc, path := path, params := [],
                      query := page.params, fragment := [] }

/-- The body of the loop of `get_all_valid_links`: what it yields for a link. -/
def validLink (robots : RobotFileParser) (link : Str) : Except PyError (Option Str) := do
  let url ← orValueError (urljoin py.netlocCheck (← page.getFullUrl py site) link)
  if url = (← page.getFullUrl py site) then return none
  if !(← site.isLocal py url) then return none
  if !(← orValueError (robots.canFetch py.netlocCheck py.quoting "*" link)) then return none
  return some (← orValueError (urljoin py.netlocCheck (← page.getRelativeUrl py site) link))

/-- The loop of `get_all_valid_links`, up to the first link that raises. -/
def validLinks (robots : RobotFileParser) : List Str → Generator Str
  | [] => { yielded := [], raised := none }
  | link :: rest =>
    match page.validLink py site robots link with
    | .error e => { yielded := [], raised := some e }
    | .ok none => validLinks robots rest
    | .ok (some found) =>
      { yielded := found :: (validLinks robots rest).yielded,
        raised := (validLinks robots rest).raised }

/-- The links of a page depend on its address only. -/
theorem validLinks_congr {p q : Page} (hSubpath : p.subpath = q.subpath) (hParams : p.params = q.params)
    (robots : RobotFileParser) (links : List Str) :
    p.validLinks py site robots links = q.validLinks py site robots links := by
  have hLink (link : Str) : p.validLink py site robots link = q.validLink py site robots link := by
    simp [validLink, getFullUrl, getRelativeUrl, hSubpath, hParams]
  induction links with
  | nil => rfl
  | cons link rest ih => simp [validLinks, hLink, ih]

/-- `parser.all_links()` for an HTML text. -/
def linksOf (htmlText : Str) : Except PyError (List Str) := do
  let tags ← py.startTags htmlText
  return (LinkExtractor.feed tags).allLinks py.iterate

def getAllValidLinks (robots : Except PyError RobotFileParser) (htmlText : Str) : Generator Str :=
  match linksOf py htmlText, robots with
  | .error e, _ => { yielded := [], raised := some e }
  | .ok _, .error e => { yielded := [], raised := some e }
  | .ok links, .ok robots => page.validLinks py site robots links

/-- The links of a text depend on the path and the query of the page only. -/
theorem getAllValidLinks_congr {p q : Page} (hSubpath : p.subpath = q.subpath)
    (hParams : p.params = q.params) (robots : Except PyError RobotFileParser) (htmlText : Str) :
    p.getAllValidLinks py site robots htmlText = q.getAllValidLinks py site robots htmlText := by
  cases hLinks : linksOf py htmlText with
  | error e => simp [getAllValidLinks, hLinks]
  | ok links =>
      cases robots with
      | error e => simp [getAllValidLinks, hLinks]
      | ok robots =>
          simpa [getAllValidLinks, hLinks] using validLinks_congr py site hSubpath hParams robots links

def isOk : Bool := 200 ≤ page.status && page.status < 300

def unwrap (url : Str) : Str :=
  let url := strip url
  let url := if url.head? = some '<' ∧ url.getLast? = some '>' then
    strip ((url.drop 1).take (url.length - 2)) else url
  if url.take 4 = "URL:" then strip (url.drop 4) else url

/-- `urllib.parse._splittag`: the text before the last `#`. -/
def splitTag (url : Str) : Str :=
  if '#' ∈ url then ((url.reverse.dropWhile (· != '#')).drop 1).reverse else url

/-- `urllib.parse._splittype` finds a scheme in front of the text. -/
def hasType (url : Str) : Bool :=
  let before := url.takeWhile fun c => c != '/' && c != ':'
  before != [] && (url.drop before.length).head? == some ':'

/-- `Request(method=…, url=…)`: a URL without a type is refused, and its host
is looked up with `urlparse`. -/
def request (url : Str) : Except PyError Unit := do
  let fullUrl := splitTag (unwrap url)
  if !hasType fullUrl then
    throw (valueError ("unknown url type: '" ++ fullUrl ++ "'"))
  let _ ← orValueError (urlparse py.netlocCheck fullUrl [])

def isValid (head : HeadOutcome) : Except PyError (Result Payload) := do
  let url ← page.getFullUrl py site
  let statusCode : Int := -1
  request py url
  match head with
  | .response r =>
    if 200 ≤ r.statusCode ∧ r.statusCode < 300 then return .success .true
    else return .fail "El servidor devuelve un código de error {req.status}"
  | .raised e => return .failure e.text (some statusCode)

end Page

/-- `can_be_deleted()`: no link of any page targets it. -/
def Database.canBeDeleted (db : Database) (page : Page) : Bool :=
  db.links.countP (·.toPage == page.idPage) == 0

end Spidercheck
