import Spidercheck.Model.Core
import Mathlib.Data.List.Sort

/-! The user operations of `views.py` on a page or a site. Each begins by
loading its row, as the URL converters do. -/
namespace Spidercheck

open Text Execution

def unknownPage : PyError :=
  valueError "El identificador de la página especificada es incorrecto"

/-- `PageConverter.to_python`. -/
def loadPage (pk : Nat) : Session Page := do
  match ← Session.selectFrom .page (·.pageById pk) with
  | some page => return page
  | none => Program.raise unknownPage

/-- `page_check`: the request that runs `check_page`. -/
def pageCheck (py : Platform) (input : Input) (pk : Nat) : Session (Result Str) := do
  let page ← loadPage pk
  checkPage py input page

def toogle (stamp : Nat → Time) (page : Page) : Session Unit := do
  let page := { page with isLinkable := !page.isLinkable }
  if !page.isLinkable then
    let _ ← Session.deleteLinks (·.toPage == page.idPage)
    Session.savePage stamp page
  else Session.savePage stamp page

def toogleIsLinkable (stamp : Nat → Time) (pk : Nat) : Session Unit := do
  let page ← loadPage pk
  toogle stamp page

def assertionError : PyError := { kind := .assertionError, text := [] }

/-- `page.delete()`, with the rows that cascade. -/
def deletePage (page : Page) : Session Unit := Session.deletePages (·.idPage == page.idPage)

def delete (page : Page) : Session Unit := do
  if ← Session.selectFrom .link (·.canBeDeleted page) then
    let _ ← siteOf page
    deletePage page
  else Program.raise assertionError

def pageDelete (pk : Nat) : Session Unit := do
  let page ← loadPage pk
  delete page

/-- The pages of the site with the given keys, in the default order of pages. -/
def Database.selected (db : Database) (site : Site) (idPages : List Nat) : List Page :=
  ((db.pagesOf site).filter fun p => idPages.contains p.idPage).insertionSort
    fun p q => p.createdAt ≤ q.createdAt

/-- What the user is told of a page that is not deleted: its text is its URL. -/
def expungeError (py : Platform) (site : Site) (page : Page) : Except PyError Str := do
  return "La página " ++ (← page.getFullUrl py site) ++ " no ha podido ser borrada"

/-- The body of the loop of `site_expunge`, with the site, the counter and the error messages. -/
def expungePage (py : Platform) (acc : Site × Nat × List Str) (page : Page) :
    Session (Site × Nat × List Str) := do
  let site ← siteOf page
  if ← Session.selectFrom .link (·.canBeDeleted page) then
    deletePage page
    return (site, acc.2.1 + 1, acc.2.2)
  else
    -- the message formats the page, which raises where its URL cannot be built
    let message ← Program.liftExcept (expungeError py site page)
    return (site, acc.2.1, acc.2.2 ++ [message])

def expunge (py : Platform) (site : Site) (pages : List Page) : Session (Site × Nat × List Str) :=
  pages.foldlM (expungePage py) (site, 0, [])

def expungeSuccess (site : Site) (counter : Nat) : Str :=
  "Borradas " ++ ofInt counter ++ " páginas de " ++ site.name

/-- `site_expunge`: delete the selected pages of the site that can be deleted when
their turn comes. What it returns are its messages. -/
def siteExpunge (py : Platform) (site : Site) (idPages : List Nat) : Session (Str × List Str) := do
  let pages ← Session.selectFrom .page (·.selected site idPages)
  let (site, counter, errors) ← expunge py site pages
  return (expungeSuccess site counter, errors)

end Spidercheck
