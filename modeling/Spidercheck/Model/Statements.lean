import Spidercheck.Execution.Program
import Spidercheck.Model.Schema

/-! The database statements that the program issues. Each one is atomic and
enforces the declared constraints: a rejected statement changes nothing. -/
namespace Spidercheck

open Text Execution Relational

inductive Verb where
  | select
  | insert
  | update
  | delete
  deriving DecidableEq, Repr

inductive Table where
  | site
  | page
  | link
  | value
  | scheduledPage
  deriving DecidableEq, Repr

structure Label where
  verb : Verb
  table : Table
  deriving DecidableEq, Repr

/-- A call of the program against the database: it returns or raises, and what
it wrote stays written in both cases. -/
abbrev Session (Returned : Type) := Program Label Database PyError Returned

def dataError : PyError :=
  { kind := .dataError, text := "value out of range for the column" }

def foreignKeyError : PyError :=
  { kind := .integrityError, text := "insert or update violates foreign key constraint" }

def uniqueError : PyError :=
  { kind := .integrityError, text := "duplicate key value violates unique constraint" }

def firstError (checks : List (Bool × PyError)) : Option PyError :=
  (checks.find? (·.1)).map (·.2)

/-- A statement whose checks have been made: it applies or leaves everything as it was. -/
def accept {Returned : Type} (violation : Option PyError) (db : Database) (returned : Returned)
    (db' : Database) : Except PyError Returned × Database :=
  match violation with
  | some e => (.error e, db)
  | none => (.ok returned, db')

namespace Database
variable (db : Database)

def hasSite (pk : Nat) : Bool := db.sites.any (·.idSite == pk)

def hasPage (pk : Nat) : Bool := db.pages.any (·.idPage == pk)

/-- The constraint that a new site would violate. -/
def siteViolation (row : Site) : Option PyError :=
  firstError [(!row.fits, dataError),
    (db.sites.any (·.name == row.name), uniqueError),
    (db.sites.any (·.uniqueUrl == row.uniqueUrl), uniqueError)]

/-- The constraint that a page row would violate, among the rows with other keys. -/
def pageViolation (row : Page) : Option PyError :=
  firstError [(!row.fits, dataError), (!db.hasSite row.site, foreignKeyError),
    (db.pages.any fun p => p.idPage != row.idPage && p.fullPath == row.fullPath, uniqueError)]

def linkViolation (row : Link) : Option PyError :=
  firstError [(!db.hasPage row.fromPage, foreignKeyError), (!db.hasPage row.toPage, foreignKeyError),
    (db.links.any (·.fromTo == row.fromTo), uniqueError)]

def valueViolation (row : Value) : Option PyError :=
  firstError [(!row.fits, dataError), (!db.hasPage row.page, foreignKeyError),
    (db.values.any fun v => v.idValue != row.idValue && v.naturalKey == row.naturalKey, uniqueError)]

/-- `INSERT INTO site`; the sequence gives the key. -/
def insertSite (createdAt : Time) (row : Site) : Except PyError Site × Database :=
  let row := { row with idSite := db.nextSite, createdAt := createdAt }
  accept (db.siteViolation row) db row
    { db with sites := db.sites ++ [row], nextSite := db.nextSite + 1 }

/-- `INSERT INTO page` under the key `pk`; `created_at` is read at that moment. -/
def insertPage (stamp : Nat → Time) (pk : Nat) (row : Page) : Except PyError Page × Database :=
  let row := { row with idPage := pk, createdAt := stamp pk }
  accept (if db.hasPage pk then some uniqueError else db.pageViolation row) db row
    { db with pages := db.pages ++ [row], nextPage := max db.nextPage (pk + 1) }

/-- `UPDATE page SET … WHERE id_page = …` with all columns of the row. It tells
whether a row matched. -/
def updatePage (row : Page) : Except PyError Bool × Database :=
  if db.hasPage row.idPage then
    accept (db.pageViolation row) db true { db with pages := replace Page.idPage row db.pages }
  else (.ok false, db)

def insertLink (fromPage toPage : Nat) : Except PyError Link × Database :=
  let row : Link := { idLink := db.nextLink, fromPage := fromPage, toPage := toPage }
  accept (db.linkViolation row) db row
    { db with links := db.links ++ [row], nextLink := db.nextLink + 1 }

def insertValue (row : Value) : Except PyError Value × Database :=
  let taken := db.values.any (·.idValue == row.idValue)
  accept (if taken then some uniqueError else db.valueViolation row) db row
    { db with values := db.values ++ [row], nextValue := max db.nextValue (row.idValue + 1) }

def updateValue (row : Value) : Except PyError Bool × Database :=
  if db.values.any (·.idValue == row.idValue) then
    accept (db.valueViolation row) db true
      { db with values := replace Value.idValue row db.values }
  else (.ok false, db)

/-- Delete pages with everything that cascades from them, in one transaction. -/
def deletePages (doomed : Page → Bool) : Database :=
  let gone (pk : Nat) : Bool := db.pages.any fun p => doomed p && p.idPage == pk
  { db with
    pages := db.pages.filter (!doomed ·)
    links := db.links.filter fun l => !gone l.fromPage && !gone l.toPage
    values := db.values.filter fun v => !gone v.page
    scheduled := db.scheduled.filter fun s => !gone s.page }

def deleteLinks (doomed : Link → Bool) : Database :=
  { db with links := db.links.filter (!doomed ·) }

def deleteValues (doomed : Value → Bool) : Database :=
  { db with values := db.values.filter (!doomed ·) }

end Database

namespace Session

def selectFrom {α : Type} (table : Table) (f : Database → α) : Session α :=
  Program.select { verb := .select, table := table } f

def insertSite (createdAt : Time) (row : Site) : Session Site :=
  Program.statement { verb := .insert, table := .site } fun db => db.insertSite createdAt row

def insertPage (stamp : Nat → Time) (row : Page) : Session Page :=
  Program.statement { verb := .insert, table := .page } fun db =>
    db.insertPage stamp db.nextPage row

def insertLink (fromPage toPage : Nat) : Session Link :=
  Program.statement { verb := .insert, table := .link } fun db => db.insertLink fromPage toPage

def insertValue (page : Nat) (name value : Str) : Session Value :=
  Program.statement { verb := .insert, table := .value } fun db =>
    db.insertValue { idValue := db.nextValue, page := page, name := name, value := value }

def deletePages (doomed : Page → Bool) : Session Unit :=
  Program.statement { verb := .delete, table := .page } fun db => (.ok (), db.deletePages doomed)

/-- The number of deleted rows is the first component of Django's answer. -/
def deleteLinks (doomed : Link → Bool) : Session Nat :=
  Program.statement { verb := .delete, table := .link } fun db =>
    (.ok (db.links.countP doomed), db.deleteLinks doomed)

def deleteValues (doomed : Value → Bool) : Session Unit :=
  Program.statement { verb := .delete, table := .value } fun db => (.ok (), db.deleteValues doomed)

/-- `Model.save` of a loaded page: an `UPDATE` by primary key, and an `INSERT`
under that key when no row matched. -/
def savePage (stamp : Nat → Time) (row : Page) : Session Unit := do
  let matched ← Program.statement { verb := .update, table := .page } fun db => db.updatePage row
  if !matched then
    let _ ← Program.statement { verb := .insert, table := .page } fun db =>
      db.insertPage stamp row.idPage row
    pure ()

def saveValue (row : Value) : Session Unit := do
  let matched ← Program.statement { verb := .update, table := .value } fun db => db.updateValue row
  if !matched then
    let _ ← Program.statement { verb := .insert, table := .value } fun db => db.insertValue row
    pure ()

/-- `Manager.get_or_create`: a second look when the `INSERT` lost a race. -/
def getOrCreate {α : Type} (table : Table) (find : Database → Option α) (create : Session α) :
    Session (α × Bool) := do
  match ← selectFrom table find with
  | some row => return (row, false)
  | none =>
    Program.attempt (do return (← create, true)) fun e =>
      if e.kind = .integrityError then do
        match ← selectFrom table find with
        | some row => return (row, false)
        | none => Program.raise e
      else Program.raise e

end Session

end Spidercheck
