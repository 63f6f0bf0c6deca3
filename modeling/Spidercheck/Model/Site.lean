import Spidercheck.Model.Outside
import Spidercheck.Model.Statements
import Mathlib.Algebra.Order.Ring.Unbundled.Rat
import Mathlib.Data.List.MinMax
import Mathlib.Data.Prod.Lex

/-! The `Site` model of `models.py`. -/
namespace Spidercheck

open Text Url Robots Execution Relational

def valueError (text : Str) : PyError := { kind := .valueError, text := text }

/-- A library call whose `none` is a `ValueError`. -/
def orValueError {α : Type} : Option α → Except PyError α
  | some a => .ok a
  | none => .error (valueError "Invalid IPv6 URL")

/-- `order_by(key).first()`. -/
def firstBy {α : Type} {Row : Type} [LinearOrder α] (key : Row → α) (rows : List Row) : Option Row :=
  rows.argmin key

namespace Database
variable (db : Database)

def siteByName (name : Str) : Option Site := db.sites.find? (·.name == name)

def siteById (pk : Nat) : Option Site := lookup Site.idSite pk db.sites

def pageById (pk : Nat) : Option Page := lookup Page.idPage pk db.pages

def pagesOf (site : Site) : List Page := db.pages.filter (·.site == site.idSite)

end Database

namespace Site
variable (site : Site)

def url (path : Str) : Str :=
  urlunparse { scheme := site.scheme, netloc := site.netloc,
               path := if path = [] then site.path else path,
               params := [], query := [], fragment := [] }

def isLocal (py : Platform) (url : Str) : Except PyError Bool := do
  let info ← orValueError (urlparse py.netlocCheck url [])
  if info.scheme ≠ [] ∧ info.scheme ≠ site.scheme then return false
  if info.netloc ≠ [] ∧ info.netloc ≠ site.netloc then return false
  return true

section Queries
variable (db : Database)

/-- `all_queued_pages()`: the unchecked pages, or the checked ones when all are. -/
def unchecked : List Page := (db.pagesOf site).filter (!·.isChecked)

def checked : List Page := (db.pagesOf site).filter (·.isChecked)

def allQueuedPages : List Page :=
  if 0 < (site.unchecked db).length then site.unchecked db else site.checked db

/-- `all_queued_pages().first()`, under the order of the query that was chosen. -/
def firstQueuedPage : Option Page :=
  if 0 < (site.unchecked db).length then firstBy Page.createdAt (site.unchecked db)
  else firstBy Page.checkedAt (site.checked db)

/-- `pages_with_errors()`: the database range 200..300 includes both ends. -/
def pagesWithErrors : List Page :=
  (db.pagesOf site).filter fun p => p.isChecked && !(200 ≤ p.status && p.status ≤ 300)

/-- `pages_with_errors().last()`, the last in descending order of `checked_at`. -/
def lastPageWithErrors : Option Page := firstBy Page.checkedAt (site.pagesWithErrors db)

/-- `all_scheduled_pages()`, each with the page that its query joins. -/
def allScheduledPages : List (ScheduledPage × Page) :=
  db.scheduled.filterMap fun s =>
    (db.pageById s.page).bind fun p => if p.site = site.idSite then some (s, p) else none

def watermark (row : ScheduledPage × Page) : Time := row.2.checkedAt + row.1.rotation

/-- The default order of scheduled pages. -/
def scheduledOrder (row : ScheduledPage × Page) : Time ×ₗ Time ×ₗ Time :=
  toLex (row.2.checkedAt, toLex (row.1.updatedAt, row.1.createdAt))

/-- The first scheduled page whose watermark has passed. -/
def firstDue (now : Time) : Option (ScheduledPage × Page) :=
  firstBy scheduledOrder ((site.allScheduledPages db).filter fun row => watermark row < now)

/-- `next_page_to_check()` at the database time `now`, with the random draw. -/
def nextPageToCheck (now : Time) (draw : ℚ) : Option Page :=
  match site.firstDue db now with
  | some scheduled => some scheduled.2
  | none =>
    if 0 < (site.pagesWithErrors db).length ∧ draw ≤ 1 / 2 then site.lastPageWithErrors db
    else if 0 < (site.allQueuedPages db).length then site.firstQueuedPage db
    else firstBy Page.checkedAt (db.pagesOf site)

end Queries

/-- `load_or_create`: the first page of the site with that path and query. -/
def loadOrCreate (stamp : Nat → Time) (subpath params : Str) : Session (Page × Bool) := do
  match ← Session.selectFrom .page fun db =>
      firstBy Page.createdAt
        ((db.pagesOf site).filter fun p => p.subpath == subpath && p.params == params) with
  | some found => return (found, false)
  | none =>
    let newPage ← Session.insertPage stamp (Page.new site.idSite subpath params)
    return (newPage, true)

def addPage (py : Platform) (stamp : Nat → Time) (url : Str) : Session (Page × Bool) := do
  let info ← Program.liftExcept (orValueError (urlparse py.netlocCheck url []))
  site.loadOrCreate stamp info.path info.query

end Site

end Spidercheck
