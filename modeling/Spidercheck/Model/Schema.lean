import Spidercheck.Model.Results
import Spidercheck.Relational.Rows
import Mathlib.Algebra.Group.Int.Defs
import Mathlib.Algebra.Group.Nat.Defs

/-! The five tables of `models.py`. A row has the columns that the modelled
code reads or writes. Times count microseconds since `EPOCH`; both text columns
of a page are declared nullable, but no code path writes `NULL` into them. -/
namespace Spidercheck

open Text

abbrev Time := Int

def epoch : Time := 0

structure Site where
  idSite : Nat
  name : Str
  scheme : Str
  netloc : Str
  path : Str
  createdAt : Time
  deriving DecidableEq, Repr

structure Page where
  idPage : Nat
  site : Nat
  subpath : Str
  params : Str
  isChecked : Bool
  checkedAt : Time
  checkTime : Time
  status : Int
  createdAt : Time
  sizeBytes : Int
  contentType : Str
  errorMessage : Str
  isLinkable : Bool
  deriving DecidableEq, Repr

structure Link where
  idLink : Nat
  fromPage : Nat
  toPage : Nat
  deriving DecidableEq, Repr

structure Value where
  idValue : Nat
  page : Nat
  name : Str
  value : Str
  deriving DecidableEq, Repr

structure ScheduledPage where
  page : Nat
  rotation : Time
  updatedAt : Time
  createdAt : Time
  deriving DecidableEq, Repr

/-- `Page(site=…, subpath=…, params=…)` before it is saved: the other columns
have their defaults. The key and `created_at` are set by the `INSERT`. -/
def Page.new (site : Nat) (subpath params : Str) : Page where
  idPage := 0
  site := site
  subpath := subpath
  params := params
  isChecked := false
  checkedAt := epoch
  checkTime := 0
  status := 0
  createdAt := epoch
  sizeBytes := 0
  contentType := []
  errorMessage := []
  isLinkable := true

/-- The columns of `unique_full_path`. -/
def Page.fullPath (p : Page) : Nat × Str × Str := (p.site, p.subpath, p.params)

/-- The columns of `unique_url`. -/
def Site.uniqueUrl (s : Site) : Str × Str × Str := (s.scheme, s.netloc, s.path)

/-- The columns of `unique_from_to_page`. -/
def Link.fromTo (l : Link) : Nat × Nat := (l.fromPage, l.toPage)

/-- The columns of `unique_value_for_page`. -/
def Value.naturalKey (v : Value) : Nat × Str := (v.page, v.name)

def Page.fits (p : Page) : Bool :=
  storable 280 p.subpath && storable 1024 p.params && storable 32 p.contentType &&
  storable 512 p.errorMessage && (-2 ^ 31 ≤ p.status && p.status < 2 ^ 31) &&
  (-2 ^ 63 ≤ p.sizeBytes && p.sizeBytes < 2 ^ 63)

def Site.fits (s : Site) : Bool :=
  storable 32 s.name && storable 8 s.scheme && storable 128 s.netloc && storable 280 s.path

def Value.fits (v : Value) : Bool := storable 64 v.name && storable 2048 v.value

/-- The tables, and the next value of each key sequence. -/
structure Database where
  sites : List Site
  pages : List Page
  links : List Link
  values : List Value
  scheduled : List ScheduledPage
  nextSite : Nat
  nextPage : Nat
  nextLink : Nat
  nextValue : Nat
  deriving DecidableEq, Repr

def Database.empty : Database where
  sites := []
  pages := []
  links := []
  values := []
  scheduled := []
  nextSite := 1
  nextPage := 1
  nextLink := 1
  nextValue := 1

end Spidercheck
