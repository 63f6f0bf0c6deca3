import Spidercheck.Model.Consistency
import Spidercheck.Relational.Ordering
import Spidercheck.Text.Unicode
import Spidercheck.Url.Locator

/-! `Site.search`: pages by a part of their path, which the database looks for, or
by a regular expression on their relative URL. -/
namespace Spidercheck

open Text Url Relational

def beginsWith (same : Char → Char → Bool) : Str → Str → Bool
  | [], _ => true
  | _ :: _, [] => false
  | c :: query, d :: text => same c d && beginsWith same query text

def occursIn (same : Char → Char → Bool) (query text : Str) : Bool :=
  text.tails.any (beginsWith same query)

/-- The characters with a meaning of their own in a regular expression. -/
def isMeta (c : Char) : Bool := ".^$*+?{}[]\\|()".toList.contains c

/-- What a search gets from the database and from the module `re`. -/
structure Searching where
  /-- `UPPER` of the database. -/
  upper : Str → Str
  /-- The characters that `re.IGNORECASE` takes for the same. -/
  same : Char → Char → Bool
  /-- `re.compile(query, re.IGNORECASE)`: whether it is found in a text, or an error. -/
  compile : Str → Except PyError (Str → Bool)
  compile_plain : ∀ query, (∀ c ∈ query, isMeta c = false) → compile query = .ok (occursIn same query)
  upper_ascii : ∀ s : Str, (∀ c ∈ s, c.toNat < 128) → upper s = s.map Char.toUpper
  same_ascii : ∀ c d : Char, c.toNat < 128 → d.toNat < 128 → same c d = (c.toLower == d.toLower)

/-- The column `__icontains` the query: the driver refuses parameters with a NUL. -/
def Searching.icontains (s : Searching) (query : Str) : Except PyError (Str → Bool) :=
  if query.contains (Char.ofNat 0) then
    .error (valueError "A string literal cannot contain NUL (0x00) characters.")
  else .ok fun column => occursIn (· == ·) (s.upper query) (s.upper column)

namespace Site
variable (py : Platform) (s : Searching) (db : Database) (site : Site)

/-- `order_by('-status', 'pk')`. -/
def searchOrder (page : Page) : Intᵒᵈ ×ₗ Nat := toLex (OrderDual.toDual page.status, page.idPage)

/-- The loop over the relative URLs, up to the first that cannot be built. -/
def searchUrls (found : Str → Bool) : List Page → Generator Page
  | [] => { yielded := [], raised := none }
  | page :: rest =>
    match page.getRelativeUrl py site with
    | .error e => { yielded := [], raised := some e }
    | .ok url =>
      let others := searchUrls found rest
      if found url then { others with yielded := page :: others.yielded } else others

def search (query : Str) (useRegex : Bool) : Generator Page :=
  if useRegex then
    match s.compile query with
    | .error e => { yielded := [], raised := some e }
    | .ok found => site.searchUrls py found (orderBy searchOrder (db.pagesOf site))
  else
    match s.icontains query with
    | .error e => { yielded := [], raised := some e }
    | .ok found =>
      { yielded := orderBy searchOrder ((db.pagesOf site).filter fun page => found page.subpath),
        raised := none }

end Site

section Texts
variable {same : Char → Char → Bool} {query text : Str}

theorem beginsWith_append (h : beginsWith same query text = true) (more : Str) :
    beginsWith same query (text ++ more) = true := by
  fun_induction beginsWith same query text with
  | case1 => rfl
  | case2 => cases h
  | case3 c query d text ih =>
      simp only [Bool.and_eq_true] at h
      simp [beginsWith, h.1, ih h.2]

/-- A query that stands in a text also stands in a longer one. -/
theorem occursIn_append (h : occursIn same query text = true) (more : Str) :
    occursIn same query (text ++ more) = true := by
  obtain ⟨tail, hTail, hFound⟩ := List.any_eq_true.mp h
  obtain ⟨front, rfl⟩ := (List.mem_tails _ _).mp hTail
  refine List.any_eq_true.mpr ⟨tail ++ more, ?_, beginsWith_append hFound more⟩
  exact (List.mem_tails _ _).mpr ⟨front, by rw [List.append_assoc]⟩

theorem Searching.beginsWith_upper (s : Searching) (hQuery : ∀ c ∈ query, c.toNat < 128)
    (hText : ∀ c ∈ text, c.toNat < 128) :
    beginsWith (· == ·) (query.map Char.toUpper) (text.map Char.toUpper) = beginsWith s.same query text := by
  fun_induction beginsWith s.same query text with
  | case1 => rfl
  | case2 => rfl
  | case3 c query d text ih =>
      obtain ⟨hc, hQuery⟩ := List.forall_mem_cons.mp hQuery
      obtain ⟨hd, hText⟩ := List.forall_mem_cons.mp hText
      rw [List.map_cons, List.map_cons, beginsWith, ih hQuery hText, s.same_ascii c d hc hd]
      congr 1
      exact decide_eq_decide.mpr toUpper_inj

/-- On ASCII texts the database ignores case as the module `re` does. -/
theorem Searching.occursIn_upper (s : Searching) (hQuery : ∀ c ∈ query, c.toNat < 128)
    (hText : ∀ c ∈ text, c.toNat < 128) :
    occursIn (· == ·) (query.map Char.toUpper) (text.map Char.toUpper) = occursIn s.same query text := by
  rw [occursIn, occursIn, List.map_tails, List.any_map]
  rw [Bool.eq_iff_iff, List.any_eq_true, List.any_eq_true]
  refine exists_congr fun tail => and_congr_right fun hTail => Bool.eq_iff_iff.mp ?_
  exact s.beginsWith_upper hQuery fun c hc => hText c (((List.mem_tails _ _).mp hTail).subset hc)

end Texts

section Loop
variable {py : Platform} {site : Site} {found : Str → Bool} {pages : List Page}

def urlFound (py : Platform) (site : Site) (found : Str → Bool) (page : Page) : Bool :=
  match page.getRelativeUrl py site with
  | .ok url => found url
  | .error _ => false

/-- The loop goes to its end when each URL can be built, and yields the pages that are found. -/
theorem searchUrls_of_ok (h : ∀ page ∈ pages, ∃ url, page.getRelativeUrl py site = .ok url) :
    site.searchUrls py found pages = { yielded := pages.filter (urlFound py site found), raised := none } := by
  induction pages with
  | nil => rfl
  | cons page rest ih =>
      obtain ⟨url, hUrl⟩ := h page (List.mem_cons_self ..)
      have hRest := ih fun other hOther => h other (List.mem_cons_of_mem page hOther)
      have hFound : urlFound py site found page = found url := by
        rw [urlFound, hUrl]
      rw [Site.searchUrls, hUrl, List.filter_cons, hFound]
      simp only [hRest]
      split <;> rfl

theorem ok_of_searchUrls (h : (site.searchUrls py found pages).raised = none) :
    ∀ page ∈ pages, ∃ url, page.getRelativeUrl py site = .ok url := by
  induction pages with
  | nil => simp
  | cons page rest ih =>
      rw [Site.searchUrls] at h
      cases hUrl : page.getRelativeUrl py site with
      | error e =>
          rw [hUrl] at h
          cases h
      | ok url =>
          rw [hUrl] at h
          have hRest : (site.searchUrls py found rest).raised = none := by
            simp only at h
            split at h <;> exact h
          intro other hOther
          rcases List.mem_cons.mp hOther with rfl | hOther
          · exact ⟨url, hUrl⟩
          · exact ih hRest other hOther

end Loop

section Agreement
variable {py : Platform} {s : Searching} {db : Database} {site : Site} {query : Str} {pages : List Page}
  {page : Page}

/-- The relative URL of the page can be built, and contains the query exactly when the subpath does. -/
def SameHit (py : Platform) (s : Searching) (site : Site) (query : Str) (page : Page) : Prop :=
  ∃ url, page.getRelativeUrl py site = .ok url ∧
    occursIn s.same query url = occursIn (· == ·) (s.upper query) (s.upper page.subpath)

/-- In terms of the columns: the path that the subpath is rejoined to, with the
parameters behind it, contains the query exactly when the subpath does. -/
theorem sameHit_iff : SameHit py s site query page ↔
    ∃ path, urljoin py.netlocCheck site.path page.subpath = some path ∧
      occursIn s.same query (locator [] [] path ++ marked '?' page.params) =
        occursIn (· == ·) (s.upper query) (s.upper page.subpath) := by
  rw [SameHit]
  cases hPath : urljoin py.netlocCheck site.path page.subpath with
  | none => simp [Page.getRelativeUrl, hPath, orValueError]
  | some path => simp [Page.getRelativeUrl, hPath, orValueError, urlunparse, urlunsplit]

/-- Where the texts are ASCII and the path is rejoined to itself, the searches differ
in the pages that have the query in the parameters or across their border only. -/
theorem sameHit_iff_of_ascii (hPath : urljoin py.netlocCheck site.path page.subpath = some page.subpath)
    (hRoot : startsWith "//" page.subpath = false) (hQuery : ∀ c ∈ query, c.toNat < 128)
    (hText : ∀ c ∈ page.subpath, c.toNat < 128) :
    SameHit py s site query page ↔
      (occursIn s.same query (page.subpath ++ marked '?' page.params) = true →
        occursIn s.same query page.subpath = true) := by
  have hUrl : locator [] [] page.subpath = page.subpath := by
    rw [locator_of_not (by simp [Authoritative]), hRoot]
    rfl
  have hUpper : occursIn (· == ·) (s.upper query) (s.upper page.subpath) = occursIn s.same query page.subpath := by
    rw [s.upper_ascii query hQuery, s.upper_ascii page.subpath hText]
    exact s.occursIn_upper hQuery hText
  rw [sameHit_iff, hPath]
  simp only [Option.some.injEq, exists_eq_left', hUrl, hUpper]
  exact Bool.eq_iff_iff.trans ⟨Iff.mp, fun h => ⟨h, fun hFound => occursIn_append hFound _⟩⟩

theorem filter_eq_filter_iff {Row : Type} {p q : Row → Bool} {rows : List Row} :
    rows.filter p = rows.filter q ↔ ∀ row ∈ rows, p row = q row := by
  constructor
  · intro h row hRow
    have hSame : row ∈ rows.filter p ↔ row ∈ rows.filter q := by rw [h]
    rw [List.mem_filter, List.mem_filter, and_iff_right hRow, and_iff_right hRow] at hSame
    exact Bool.eq_iff_iff.mpr hSame
  · exact List.filter_congr

theorem searchUrls_eq_iff {hit : Page → Bool} {found : Str → Bool} :
    site.searchUrls py found pages = { yielded := pages.filter hit, raised := none } ↔
      ∀ page ∈ pages, ∃ url, page.getRelativeUrl py site = .ok url ∧ found url = hit page := by
  constructor
  · intro h
    have hOk := ok_of_searchUrls (congrArg Generator.raised h)
    rw [searchUrls_of_ok hOk] at h
    have hFilter := filter_eq_filter_iff.mp (congrArg Generator.yielded h)
    intro page hPage
    obtain ⟨url, hUrl⟩ := hOk page hPage
    have hSame := hFilter page hPage
    rw [urlFound, hUrl] at hSame
    exact ⟨url, hUrl, hSame⟩
  · intro h
    rw [searchUrls_of_ok fun page hPage => (h page hPage).imp fun _ hUrl => hUrl.1]
    congr 1
    rw [filter_eq_filter_iff]
    intro page hPage
    obtain ⟨url, hUrl, hSame⟩ := h page hPage
    rw [urlFound, hUrl, ← hSame]

end Agreement

/-- The two searches for a plain query give the same pages in the same order exactly when
the database takes the query and no page of the site differs in its two texts. -/
theorem searches_agree_iff (py : Platform) (s : Searching) (db : Database) (site : Site) (query : Str)
    (hPlain : ∀ c ∈ query, isMeta c = false) :
    (∃ pages, site.search py s db query false = { yielded := pages, raised := none } ∧
      site.search py s db query true = { yielded := pages, raised := none }) ↔
      Char.ofNat 0 ∉ query ∧ ∀ page ∈ db.pagesOf site, SameHit py s site query page := by
  have hUrls : site.search py s db query true =
      site.searchUrls py (occursIn s.same query) (orderBy Site.searchOrder (db.pagesOf site)) := by
    rw [Site.search, if_pos rfl, s.compile_plain query hPlain]
  by_cases hNul : Char.ofNat 0 ∈ query
  · have hRefused : (site.search py s db query false).raised ≠ none := by
      simp [Site.search, Searching.icontains, hNul]
    constructor
    · intro ⟨pages, hColumn, _⟩
      exact absurd (congrArg Generator.raised hColumn) hRefused
    · intro ⟨hNot, _⟩
      exact absurd hNul hNot
  · have hColumn : site.search py s db query false = {
        yielded := (orderBy Site.searchOrder (db.pagesOf site)).filter fun page =>
          occursIn (· == ·) (s.upper query) (s.upper page.subpath)
        raised := none } := by
      simp [Site.search, Searching.icontains, hNul, filter_orderBy]
    have hSame : (∀ page ∈ orderBy Site.searchOrder (db.pagesOf site), SameHit py s site query page) ↔
        ∀ page ∈ db.pagesOf site, SameHit py s site query page := by
      simp only [mem_orderBy]
    rw [and_iff_right hNul, ← hSame, hColumn, hUrls]
    refine .trans ?_ searchUrls_eq_iff
    constructor
    · intro ⟨pages, hThis, hOther⟩
      rw [hThis, hOther]
    · intro hEqual
      exact ⟨_, rfl, hEqual⟩

/-- ASCII letters of either case, and patterns without characters of a special meaning. -/
def Searching.ascii : Searching where
  upper := Unicode.ascii.upper
  same c d := c.toLower == d.toLower
  compile query :=
    if query.all fun c => !isMeta c then .ok (occursIn (fun c d => c.toLower == d.toLower) query)
    else .error { kind := .other, text := "unsupported pattern" }
  compile_plain query h := if_pos (List.all_eq_true.mpr fun c hc => by rw [h c hc, Bool.not_false])
  upper_ascii := Unicode.ascii.upper_ascii
  same_ascii _ _ _ _ := rfl

def Database.withTopic : Database :=
  { seeded with pages := [seedPage, { Page.new 1 "/news" "topic=Lean" with idPage := 2 }], nextPage := 3 }

/-- A match in the subpath is found by both. -/
theorem searches_agree_iff_news : ∃ pages,
    seedSite.search (.scripted []) .ascii .withTopic "NEWS" false = { yielded := pages, raised := none } ∧
    seedSite.search (.scripted []) .ascii .withTopic "NEWS" true = { yielded := pages, raised := none } := by
  refine (searches_agree_iff (.scripted []) .ascii .withTopic seedSite "NEWS" (by simp [isMeta])).mpr
    ⟨by decide, fun page hPage => ?_⟩
  have hPages : Database.withTopic.pagesOf seedSite = Database.withTopic.pages := by decide
  rw [hPages] at hPage
  rcases List.mem_cons.mp hPage with rfl | hPage
  · exact ⟨"/", by rfl, by decide⟩
  · obtain rfl := List.mem_singleton.mp hPage
    exact ⟨"/news?topic=Lean", by rfl, by decide⟩

/-- A match in the parameters is found by the regular expression only. -/
theorem searches_differ_topic :
    (seedSite.search (.scripted []) .ascii .withTopic "lean" false).yielded = [] ∧
      (seedSite.search (.scripted []) .ascii .withTopic "lean" true).yielded =
        [{ Page.new 1 "/news" "topic=Lean" with idPage := 2 }] := by
  decide

end Spidercheck
