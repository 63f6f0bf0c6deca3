import Spidercheck.Dates.Forms
import Spidercheck.Model.Consistency
import Spidercheck.Regex.Routes
import Spidercheck.Sites.Reset

/-! The paths of the views: `urls.py`, the converters of its parameters and the links to
the views. Paths are those behind the prefix of the application, before `quote`. -/
namespace Spidercheck

open Text Regex Relational

/-- The converters, by the names of the parameters that they are for. -/
inductive Converter where
  | site
  | page
  deriving DecidableEq, Repr

/-- What a converter makes of a text. -/
inductive Converted where
  | site (s : Site)
  | page (p : Page)
  deriving DecidableEq, Repr

/-- What may be given for a parameter. -/
inductive Given where
  | str (s : Str)
  | int (n : Int)
  | site (s : Site)
  | page (p : Page)
  deriving DecidableEq, Repr

namespace Converter

/-- The classes `[-\w]` and `\d`: both expressions take one or more of them. -/
def regex (u : Unicode) : Converter → Char → Bool
  | site => fun c => c == '-' || u.isWord c
  | page => u.isDecimal

def toPython (u : Unicode) (db : Database) : Converter → Str → Except PyError Converted
  | site, value =>
    match db.siteByName value with
    | some s => .ok (.site s)
    | none => .error (valueError "El identificador del site especificado es incorrecto")
  | page, value => do
    match db.pageById (← toInteger u value) with
    | some p => return .page p
    | none => throw unknownPage

/-- `to_url`, with `str` around it. -/
def toUrl : Converter → Given → Except PyError Str
  | site, .str value => .ok value
  | site, .site s => .ok s.name
  | site, _ => .error (valueError ("Se necesita una instancia de la clase Site, o" ++
      " una cadena de texto con el nobre del site."))
  | page, .int value => .ok (ofInt value)
  | page, .page p => .ok (ofInt p.idPage)
  | page, _ => .error (valueError ("Se necesita una instancia de la clase Page, o" ++
      " un número entero con la clave prinaria de la página."))

end Converter

inductive View where
  | homepage
  | siteDetail
  | siteErrors
  | siteQueue
  | siteScheduled
  | siteLast
  | siteNoLinks
  | siteSearch
  | siteOrphans
  | siteExpunge
  | siteExpungeAll
  | detailPage
  | pageCheck
  | pageDelete
  | toogleIsLinkable
  deriving DecidableEq, Repr

/-- The text in front of a parameter. -/
def Converter.lead : Converter → Str
  | site => "site/"
  | page => "page/"

/-- The shapes of the routes: `''`, `'site/<site:site>/…'` and `'page/<page:page>/…'`. -/
inductive Ruta where
  | home
  | param (c : Converter) (rest : String)
  deriving DecidableEq, Repr

def Ruta.parts (u : Unicode) : Ruta → List (Part Char Converter)
  | home => []
  | param c rest => [.text c.lead, .param c (c.regex u), .text ('/' :: rest.toList)]

namespace View

def ruta : View → Ruta
  | homepage => .home
  | siteDetail => .param .site ""
  | siteErrors => .param .site "errores/"
  | siteQueue => .param .site "queue/"
  | siteScheduled => .param .site "scheduled/"
  | siteLast => .param .site "last/"
  | siteNoLinks => .param .site "no_links/"
  | siteSearch => .param .site "search/"
  | siteOrphans => .param .site "orphans/"
  | siteExpunge => .param .site "expunge/"
  | siteExpungeAll => .param .site "expunge/all/"
  | detailPage => .param .page ""
  | pageCheck => .param .page "check/"
  | pageDelete => .param .page "delete/"
  | toogleIsLinkable => .param .page "toogle/is_linkable/"

def name : View → String
  | homepage => "homepage"
  | siteDetail => "site_detail"
  | siteErrors => "site_errors"
  | siteQueue => "site_queue"
  | siteScheduled => "site_scheduled"
  | siteLast => "site_last"
  | siteNoLinks => "site_no_links"
  | siteSearch => "site_search"
  | siteOrphans => "site_orphans"
  | siteExpunge => "site_expunge"
  | siteExpungeAll => "site_expunge_all"
  | detailPage => "detail_page"
  | pageCheck => "page_check"
  | pageDelete => "page_delete"
  | toogleIsLinkable => "toogle_is_linkable"

end View

def urlpatterns : List View := [
  .homepage,
  .siteDetail,
  .siteErrors,
  .siteQueue,
  .siteScheduled,
  .siteLast,
  .siteNoLinks,
  .siteSearch,
  .siteOrphans,
  .siteExpunge,
  .siteExpungeAll,
  .detailPage,
  .pageCheck,
  .pageDelete,
  .toogleIsLinkable]

/-- A path by one of the routes: a converter that raises `ValueError` does not match. -/
def View.answer (u : Unicode) (db : Database) (path : Str) (view : View) :
    Option (View × List Converted) :=
  match (routePattern (view.ruta.parts u)).match? path with
  | none => none
  | some captures =>
    match captures.mapM fun taken => taken.1.toPython u db taken.2 with
    | .ok values => some (view, values)
    | .error _ => none

/-- `resolve`: the first of the patterns that matches. -/
def resolve (u : Unicode) (db : Database) (patterns : List View) (path : Str) :
    Option (View × List Converted) :=
  patterns.findSome? (View.answer u db path)

def fill (texts : List (Converter × Str)) : List (Part Char Converter) → Str
  | [] => []
  | .text t :: rest => t ++ fill texts rest
  | .param name _ :: rest => (texts.lookup name).getD [] ++ fill texts rest

def params : List (Part Char Converter) → List Converter
  | [] => []
  | .text _ :: rest => params rest
  | .param name _ :: rest => name :: params rest

/-- A path for the route: all of its parameters are given and the path matches it. -/
def View.path (u : Unicode) (kwargs : List (Converter × Given)) (view : View) : Option Str :=
  if params (view.ruta.parts u) = kwargs.map (·.1) then
    match kwargs.mapM fun given => (given.1.toUrl given.2).map (given.1, ·) with
    | .error _ => none
    | .ok texts =>
      let path := fill texts (view.ruta.parts u)
      if ((routePattern (view.ruta.parts u)).match? path).isSome then some path else none
  else none

/-- `reverse`: none is `NoReverseMatch`. -/
def reverse (u : Unicode) (name : String) (kwargs : List (Converter × Given)) : Option Str :=
  (urlpatterns.filter (·.name = name)).findSome? (View.path u kwargs)

section Links
variable (u : Unicode)

def aHomepage : Option Str := reverse u "homepage" []

def aDetallePagina (pageOrPk : Given) : Option Str := reverse u "detail_page" [(.page, pageOrPk)]

def aDetalleSite (siteOrName : Given) : Option Str := reverse u "site_detail" [(.site, siteOrName)]

def aSiteErrors (siteOrName : Given) : Option Str := reverse u "site_errors" [(.site, siteOrName)]

def aSiteNoLinks (siteOrName : Given) : Option Str := reverse u "site_no_links" [(.site, siteOrName)]

def aSiteOrphans (siteOrName : Given) : Option Str := reverse u "site_orphans" [(.site, siteOrName)]

def aSiteLast (siteOrName : Given) : Option Str := reverse u "site_last" [(.site, siteOrName)]

def aSiteScheduled (siteOrName : Given) : Option Str := reverse u "site_scheduled" [(.site, siteOrName)]

def aSiteQueue (siteOrName : Given) : Option Str := reverse u "site_queue" [(.site, siteOrName)]

def aAddNoLink (siteOrName : Given) : Option Str := reverse u "add_no_link" [(.site, siteOrName)]

end Links

section Paths
variable {u : Unicode} {db : Database} {path : Str} {ruta ruta' : Ruta} {view : View}
  {captures captures' : Captures Char Converter}

/-- Neither of the parameters takes the slash that follows it. -/
theorem regex_slash (u : Unicode) (c : Converter) : c.regex u '/' = false := by
  cases c with
  | site =>
      have hWord : u.isWord '/' = false := u.isWord_ascii '/' (by decide)
      simp [Converter.regex, hWord]
  | page => exact Unicode.isDecimal_ascii (by decide)

theorem separated_parts (u : Unicode) (ruta : Ruta) : Separated (ruta.parts u) := by
  cases ruta with
  | home => trivial
  | param c rest => exact ⟨regex_slash u c, trivial⟩

theorem match?_ruta : (routePattern (ruta.parts u)).match? path = some captures ↔
    Routed (ruta.parts u) path captures :=
  match?_routePattern (separated_parts u ruta) path captures

theorem routed_home : Routed (Ruta.home.parts u) path captures ↔ path = [] ∧ captures = [] := by
  constructor
  · rintro ⟨⟩
    exact ⟨rfl, rfl⟩
  · rintro ⟨rfl, rfl⟩
    exact .nil

theorem routed_param_ruta {c : Converter} {rest : String} :
    Routed ((Ruta.param c rest).parts u) path captures ↔
      ∃ w, Word (c.regex u) w ∧ path = c.lead ++ (w ++ '/' :: rest.toList) ∧ captures = [(c, w)] :=
  routed_between

/-- A path belongs to one route. -/
theorem ruta_unique (h : Routed (ruta.parts u) path captures) (h' : Routed (ruta'.parts u) path captures') :
    ruta = ruta' := by
  cases ruta with
  | home =>
      obtain ⟨rfl, -⟩ := routed_home.mp h
      cases ruta' with
      | home => rfl
      | param c rest =>
          obtain ⟨w, -, hPath, -⟩ := routed_param_ruta.mp h'
          cases c <;> cases hPath
  | param c rest =>
      obtain ⟨w, hWord, rfl, -⟩ := routed_param_ruta.mp h
      cases ruta' with
      | home =>
          have hPath := (routed_home.mp h').1
          cases c <;> cases hPath
      | param c' rest' =>
          obtain ⟨w', hWord', hPath, -⟩ := routed_param_ruta.mp h'
          have hLead : c = c' := by
            have hFirst := congrArg List.head? hPath
            match c, c', hFirst with
            | .site, .site, _ => rfl
            | .page, .page, _ => rfl
            | .site, .page, hFirst => exact absurd (Option.some.inj hFirst) (by decide)
            | .page, .site, hFirst => exact absurd (Option.some.inj hFirst) (by decide)
          subst hLead
          -- the word ends at the slash, in either way of reading the path
          have hPath := List.append_cancel_left hPath
          have hSlash {w : Str} {rest : String} (hWord : Word (c.regex u) w) :
              (w ++ '/' :: rest.toList).takeWhile (c.regex u) = w :=
            takeWhile_word hWord (ends_cons.mpr (regex_slash u c))
          obtain rfl : w = w' := by rw [← hSlash hWord, hPath, hSlash hWord']
          have hRest := (List.cons.inj (List.append_cancel_left hPath)).2
          rw [String.toList_inj.mp hRest]

theorem nodup_rutas : (urlpatterns.map View.ruta).Nodup := by decide

theorem mem_urlpatterns (view : View) : view ∈ urlpatterns := by cases view <;> decide

theorem ruta_inj {view view' : View} (h : view.ruta = view'.ruta) : view = view' :=
  List.inj_on_of_nodup_map nodup_rutas (mem_urlpatterns view) (mem_urlpatterns view') h

theorem answer_eq_some {values : List Converted} {view' : View} :
    View.answer u db path view = some (view', values) ↔ view = view' ∧
      ∃ captures, Routed (view.ruta.parts u) path captures ∧
        (captures.mapM fun taken => taken.1.toPython u db taken.2) = .ok values := by
  simp only [View.answer, ← match?_ruta]
  cases (routePattern (view.ruta.parts u)).match? path with
  | none => simp
  | some captures =>
      simp only [Option.some.injEq, exists_eq_left']
      cases captures.mapM fun taken => taken.1.toPython u db taken.2 with
      | error e => simp
      | ok found => simp

/-- No path is answered by two views. -/
theorem exclusive_answer (u : Unicode) (db : Database) (path : Str) (patterns : List View) :
    Exclusive (View.answer u db path) patterns := by
  intro a _ b _ hA hB
  obtain ⟨⟨a', values⟩, hA⟩ := Option.isSome_iff_exists.mp hA
  obtain ⟨⟨b', values'⟩, hB⟩ := Option.isSome_iff_exists.mp hB
  obtain ⟨-, captures, hRouted, -⟩ := answer_eq_some.mp hA
  obtain ⟨-, captures', hRouted', -⟩ := answer_eq_some.mp hB
  exact ruta_inj (ruta_unique hRouted hRouted')

theorem resolve_eq_some {values : List Converted} :
    resolve u db urlpatterns path = some (view, values) ↔
      ∃ captures, Routed (view.ruta.parts u) path captures ∧
        (captures.mapM fun taken => taken.1.toPython u db taken.2) = .ok values := by
  rw [resolve, findSome?_iff (exclusive_answer u db path urlpatterns)]
  simp only [answer_eq_some]
  constructor
  · rintro ⟨_, -, rfl, h⟩
    exact h
  · intro h
    exact ⟨view, mem_urlpatterns view, rfl, h⟩

theorem filter_name (view : View) : (urlpatterns.filter (·.name = view.name)) = [view] := by
  cases view <;> decide

theorem reverse_name (kwargs : List (Converter × Given)) :
    reverse u view.name kwargs = view.path u kwargs := by
  rw [reverse, filter_name]
  cases hPath : view.path u kwargs <;> simp [hPath]

/-- There is a path where the text is one that the converter takes. -/
theorem path_eq_some {c : Converter} {value : Given} {text : Str} (hUrl : c.toUrl value = .ok text) :
    view.path u [(c, value)] = some path ↔
      ∃ rest, view.ruta = .param c rest ∧ Word (c.regex u) text ∧
        path = c.lead ++ (text ++ '/' :: rest.toList) := by
  have hTexts : ([(c, value)].mapM fun given => (given.1.toUrl given.2).map (given.1, ·)) =
      .ok [(c, text)] := by
    simp [hUrl, Except.map]
  cases hRuta : view.ruta with
  | home => simp [View.path, hRuta, Ruta.parts, params]
  | param c' rest =>
      have hParams : params ((Ruta.param c' rest).parts u) = [c'] := rfl
      rw [View.path, hRuta, hTexts, hParams]
      by_cases hSame : c' = c
      · subst hSame
        have hFill : fill [(c', text)] ((Ruta.param c' rest).parts u) =
            c'.lead ++ (text ++ '/' :: rest.toList) := by
          simp [fill, Ruta.parts]
        have hMatch : ((routePattern ((Ruta.param c' rest).parts u)).match?
            (fill [(c', text)] ((Ruta.param c' rest).parts u))).isSome ↔ Word (c'.regex u) text := by
          rw [Option.isSome_iff_exists, hFill]
          simp only [match?_ruta, routed_param_ruta]
          constructor
          · rintro ⟨_, w, hWord, hPath, -⟩
            exact List.append_cancel_right (List.append_cancel_left hPath) ▸ hWord
          · intro hWord
            exact ⟨_, text, hWord, rfl, rfl⟩
        have hKeys : [c'] = [(c', value)].map (·.1) := rfl
        rw [if_pos hKeys]
        dsimp only
        constructor
        · intro h
          split_ifs at h with hIs
          exact ⟨rest, rfl, hMatch.mp hIs, (Option.some.inj h).symm.trans hFill⟩
        · rintro ⟨_, hRest, hWord, rfl⟩
          cases hRest
          rw [if_pos (hMatch.mpr hWord), hFill]
      · have hOther : [c'] ≠ [(c, value)].map (·.1) := by simpa using hSame
        rw [if_neg hOther]
        constructor
        · intro h
          cases h
        · rintro ⟨_, hRest, -⟩
          cases hRest
          exact absurd rfl hSame

/-- What a path with a parameter is answered with. -/
theorem resolve_param {value : Converted} : resolve u db urlpatterns path = some (view, [value]) ↔
    ∃ c rest text, view.ruta = .param c rest ∧ Word (c.regex u) text ∧
      path = c.lead ++ (text ++ '/' :: rest.toList) ∧ c.toPython u db text = .ok value := by
  rw [resolve_eq_some]
  cases hRuta : view.ruta with
  | home =>
      simp only [routed_home]
      constructor
      · rintro ⟨_, ⟨-, rfl⟩, hValues⟩
        cases hValues
      · rintro ⟨c, rest, text, hOther, -⟩
        cases hOther
  | param c rest =>
      simp only [routed_param_ruta]
      constructor
      · rintro ⟨_, ⟨w, hWord, hPath, rfl⟩, hValues⟩
        refine ⟨c, rest, w, rfl, hWord, hPath, ?_⟩
        cases hValue : c.toPython u db w with
        | error e => simp [hValue] at hValues
        | ok found => simpa [hValue] using hValues
      · rintro ⟨c', rest', text, hSame, hWord, hPath, hValue⟩
        cases hSame
        exact ⟨_, ⟨text, hWord, hPath, rfl⟩, by simp [hValue]⟩

section Converters
variable {c : Converter} {text : Str} {s : Site} {p : Page}

theorem toPython_site (hDb : db.Consistent) :
    c.toPython u db text = .ok (.site s) ↔ c = .site ∧ s ∈ db.sites ∧ s.name = text := by
  cases c with
  | site =>
      rw [Converter.toPython]
      constructor
      · intro h
        cases hFound : db.siteByName text with
        | none => simp [hFound] at h
        | some found =>
            obtain rfl : found = s := by simpa [hFound] using h
            exact ⟨rfl, List.mem_of_find?_eq_some hFound, by simpa using List.find?_some hFound⟩
      · rintro ⟨-, hSite, rfl⟩
        rw [siteByName_of_mem hDb hSite]
  | page =>
      refine ⟨fun h => ?_, fun h => by simp at h⟩
      rw [Converter.toPython] at h
      obtain ⟨pk, -, h⟩ := (except_bind_eq_ok _).mp h
      cases hFound : db.pageById pk <;> simp [hFound] at h

theorem toPython_page (hDb : db.Consistent) : c.toPython u db text = .ok (.page p) ↔
    c = .page ∧ p ∈ db.pages ∧ toInteger u text = .ok p.idPage := by
  cases c with
  | site =>
      refine ⟨fun h => ?_, fun h => by simp at h⟩
      rw [Converter.toPython] at h
      cases hFound : db.siteByName text <;> simp [hFound] at h
  | page =>
      rw [Converter.toPython]
      constructor
      · intro h
        obtain ⟨pk, hPk, h⟩ := (except_bind_eq_ok _).mp h
        cases hFound : db.pageById pk with
        | none => simp [hFound] at h
        | some found =>
            obtain rfl : found = p := by simpa [hFound] using h
            obtain ⟨hPage, rfl⟩ := mem_of_lookup hFound
            exact ⟨rfl, hPage, hPk⟩
      · rintro ⟨-, hPage, hPk⟩
        have hFound : db.pageById p.idPage = some p := hDb.pages.lookup_eq hPage
        rw [hPk, ok_bind, hFound]
        rfl

end Converters

theorem ofInt_natCast (n : Nat) : ofInt n = Nat.toDigits 10 n := by
  show (toString (Int.ofNat n)).toList = _
  exact Nat.toList_repr

theorem toNat_toDigits (u : Unicode) (n : Nat) : u.toNat (Nat.toDigits 10 n) = some n := by
  induction n using Nat.strong_induction_on with
  | _ n ih =>
      rw [Nat.toDigits_eq_if (by decide)]
      split_ifs with hSmall
      · have hDigit := decimal_digit u n
        rw [digit, Nat.mod_eq_of_lt hSmall] at hDigit
        simp [Unicode.toNat, hDigit]
      · have hBefore := ih (n / 10) (by omega)
        have hDigit := decimal_digit u n
        rw [digit] at hDigit
        simp only [Unicode.toNat] at hBefore ⊢
        simp only [List.foldlM_append, hBefore, List.foldlM_cons, List.foldlM_nil, hDigit]
        simp
        omega

/-- The text of a key is read as that key again, whatever other digits there are. -/
theorem numeral_ofInt {n : Nat} (h : n < 2 ^ 63) : Numeral (ofInt n) n := by
  rw [ofInt_natCast]
  refine ⟨⟨Nat.toDigits_ne_nil, fun c hc => ?_⟩, ?_, fun u => toNat_toDigits u n⟩
  · exact Nat.isDigit_of_mem_toDigits (by decide) (by decide) hc
  · have hDigits : (Nat.toDigits 10 n).length ≤ 19 :=
      (Nat.length_toDigits_le_iff (by decide) (by decide)).mpr (h.trans (by decide))
    rw [maxStrDigits]
    omega

/-- A path is answered with a site just where it is the path of the view for that site. -/
theorem resolve_site (hDb : db.Consistent) (s : Site) : resolve u db urlpatterns path = some (view, [.site s]) ↔
      s ∈ db.sites ∧ reverse u view.name [(.site, .site s)] = some path := by
  have hUrl : Converter.site.toUrl (.site s) = .ok s.name := rfl
  rw [resolve_param, reverse_name, path_eq_some hUrl]
  simp only [toPython_site hDb]
  constructor
  · rintro ⟨_, rest, _, hRuta, hWord, hPath, rfl, hSite, rfl⟩
    exact ⟨hSite, rest, hRuta, hWord, hPath⟩
  · rintro ⟨hSite, rest, hRuta, hWord, hPath⟩
    exact ⟨.site, rest, s.name, hRuta, hWord, hPath, rfl, hSite, rfl⟩

/-- A path is answered with a page where it is one for that view, but the key may be written
in other digits, and with zeros in front. -/
theorem resolve_page (hDb : db.Consistent) (p : Page) :
    resolve u db urlpatterns path = some (view, [.page p]) ↔
      p ∈ db.pages ∧ ∃ text, Word u.isDecimal text ∧ toInteger u text = .ok p.idPage ∧
        ∃ rest, view.ruta = .param .page rest ∧ path = "page/" ++ (text ++ '/' :: rest.toList) := by
  rw [resolve_param]
  simp only [toPython_page hDb]
  constructor
  · rintro ⟨_, rest, text, hRuta, hWord, hPath, rfl, hPage, hPk⟩
    exact ⟨hPage, text, hWord, hPk, rest, hRuta, hPath⟩
  · rintro ⟨hPage, text, hWord, hPk, rest, hRuta, hPath⟩
    exact ⟨.page, rest, text, hRuta, hWord, hPath, rfl, hPage, hPk⟩

theorem reverse_page (view : View) {value : Given} {p : Page} (hKey : p.idPage < 2 ^ 63)
    (hUrl : Converter.page.toUrl value = .ok (ofInt p.idPage)) :
    reverse u view.name [(.page, value)] = some path ↔
      ∃ rest, view.ruta = .param .page rest ∧ path = "page/" ++ (ofInt p.idPage ++ '/' :: rest.toList) := by
  rw [reverse_name, path_eq_some hUrl]
  constructor
  · rintro ⟨rest, hRuta, -, hPath⟩
    exact ⟨rest, hRuta, hPath⟩
  · rintro ⟨rest, hRuta, hPath⟩
    exact ⟨rest, hRuta, (numeral_ofInt hKey).decimals u, hPath⟩

/-- The path of a view for a page is answered with that page. -/
theorem resolve_reverse_page (hDb : db.Consistent) {p : Page} (hPage : p ∈ db.pages)
    (hKey : p.idPage < 2 ^ 63) (h : reverse u view.name [(.page, .page p)] = some path) :
    resolve u db urlpatterns path = some (view, [.page p]) := by
  obtain ⟨rest, hRuta, hPath⟩ := (reverse_page view hKey rfl).mp h
  have hNumeral := numeral_ofInt hKey
  exact (resolve_page hDb p).mpr
    ⟨hPage, _, hNumeral.decimals u, hNumeral.toInteger u, rest, hRuta, hPath⟩

/-- With the patterns in any order: a path is answered with a view and a site just where it is
the path of that view for that site. The path of a view for a page is answered with that page,
and so are only the paths that write its key in other digits, or with zeros in front. -/
theorem resolve_exact (u : Unicode) (db : Database) (hDb : db.Consistent)
    (hKeys : ∀ p ∈ db.pages, p.idPage < 2 ^ 63) (patterns : List View) (hPerm : urlpatterns.Perm patterns)
    (path : Str) (view : View) :
    (∀ s, resolve u db patterns path = some (view, [.site s]) ↔
        s ∈ db.sites ∧ reverse u view.name [(.site, .site s)] = some path) ∧
      (∀ p ∈ db.pages, reverse u view.name [(.page, .page p)] = some path →
        resolve u db patterns path = some (view, [.page p])) ∧
      ∀ p, resolve u db patterns path = some (view, [.page p]) ↔
        p ∈ db.pages ∧ ∃ text, Word u.isDecimal text ∧ toInteger u text = .ok p.idPage ∧
          ∃ rest, view.ruta = .param .page rest ∧ path = "page/" ++ (text ++ '/' :: rest.toList) := by
  have hOrder : resolve u db patterns path = resolve u db urlpatterns path :=
    findSome?_perm (exclusive_answer u db path urlpatterns) hPerm
  rw [hOrder]
  exact ⟨resolve_site hDb, fun p hPage h => resolve_reverse_page hDb hPage (hKeys p hPage) h,
    resolve_page hDb⟩

theorem keys_seeded : ∀ p ∈ Database.seeded.pages, p.idPage < 2 ^ 63 := by
  intro p hp
  obtain rfl := List.mem_singleton.mp hp
  decide

/-- The first page is also found by a key with a zero in front. -/
theorem resolve_exact_seeded :
    resolve .ascii .seeded urlpatterns.reverse "page/01/check/" = some (.pageCheck, [.page seedPage]) :=
  ((resolve_exact .ascii .seeded Database.consistent_seeded keys_seeded urlpatterns.reverse
    (List.reverse_perm urlpatterns).symm "page/01/check/" .pageCheck).2.2 seedPage).mpr
      ⟨by decide, twoDigits 1, (numeral_two (by decide)).decimals .ascii,
        (numeral_two (by decide)).toInteger .ascii, "check/", rfl, rfl⟩

def siteLinks : List ((Unicode → Given → Option Str) × View) := [
  (aDetalleSite, .siteDetail),
  (aSiteErrors, .siteErrors),
  (aSiteNoLinks, .siteNoLinks),
  (aSiteOrphans, .siteOrphans),
  (aSiteLast, .siteLast),
  (aSiteScheduled, .siteScheduled),
  (aSiteQueue, .siteQueue)]

theorem siteLinks_reverse {link : (Unicode → Given → Option Str) × View} (h : link ∈ siteLinks) :
    (∀ u value, link.1 u value = reverse u link.2.name [(.site, value)]) ∧
      ∃ rest, link.2.ruta = .param .site rest := by
  simp only [siteLinks, List.mem_cons, List.not_mem_nil, or_false] at h
  rcases h with rfl | rfl | rfl | rfl | rfl | rfl | rfl
  all_goals exact ⟨fun _ _ => rfl, _, rfl⟩

/-- A link to a view of a site, by the site or by its name, leads to that view and that site,
where the name is one that the converter takes. -/
theorem siteLinks_lead (hDb : db.Consistent) {s : Site} (hSite : s ∈ db.sites)
    {link : (Unicode → Given → Option Str) × View} (hLink : link ∈ siteLinks) :
    link.1 u (.str s.name) = link.1 u (.site s) ∧
      ((link.1 u (.site s)).isSome ↔ Word (Converter.site.regex u) s.name) ∧
      ∀ path, link.1 u (.site s) = some path →
        resolve u db urlpatterns path = some (link.2, [.site s]) := by
  obtain ⟨hReverse, rest, hRuta⟩ := siteLinks_reverse hLink
  have hName : Converter.site.toUrl (.str s.name) = .ok s.name := rfl
  have hUrl : Converter.site.toUrl (.site s) = .ok s.name := rfl
  have hPath (path : Str) : link.1 u (.site s) = some path ↔
      Word (Converter.site.regex u) s.name ∧ path = "site/" ++ (s.name ++ '/' :: rest.toList) := by
    rw [hReverse, reverse_name, path_eq_some hUrl]
    constructor
    · rintro ⟨rest', hSame, hWord, hPath⟩
      cases hRuta.symm.trans hSame
      exact ⟨hWord, hPath⟩
    · rintro ⟨hWord, hPath⟩
      exact ⟨rest, hRuta, hWord, hPath⟩
  refine ⟨Option.ext fun path => ?_, ?_, fun path h => ?_⟩
  · rw [hReverse, hReverse, reverse_name, path_eq_some hName, reverse_name, path_eq_some hUrl]
  · rw [Option.isSome_iff_exists]
    simp only [hPath, exists_and_left, exists_eq, and_true]
  · exact (resolve_site hDb s).mpr ⟨hSite, hReverse u _ ▸ h⟩

/-- A link to a page, by the page or by its key, leads to that page. -/
theorem aDetallePagina_leads (hDb : db.Consistent) {p : Page} (hPage : p ∈ db.pages)
    (hKey : p.idPage < 2 ^ 63) :
    ∃ path, aDetallePagina u (.page p) = some path ∧ aDetallePagina u (.int p.idPage) = some path ∧
      resolve u db urlpatterns path = some (.detailPage, [.page p]) := by
  have hPath : aDetallePagina u (.page p) = some ("page/" ++ (ofInt p.idPage ++ '/' :: "".toList)) :=
    (reverse_page .detailPage hKey rfl).mpr ⟨"", rfl, rfl⟩
  exact ⟨_, hPath, (reverse_page .detailPage hKey rfl).mpr ⟨"", rfl, rfl⟩,
    resolve_reverse_page hDb hPage hKey hPath⟩

/-- Each of the links leads to the view that it names, and to the site or page that it is
made for. Only a site whose name the converter does not take has no links, and the link to
`add_no_link`, a view that has no path, leads nowhere. -/
theorem links_lead (u : Unicode) (db : Database) (hDb : db.Consistent)
    (hKeys : ∀ p ∈ db.pages, p.idPage < 2 ^ 63) :
    (∃ path, aHomepage u = some path ∧ resolve u db urlpatterns path = some (.homepage, [])) ∧
      (∀ s ∈ db.sites, ∀ link ∈ siteLinks, link.1 u (.str s.name) = link.1 u (.site s) ∧
        ((link.1 u (.site s)).isSome ↔ Word (Converter.site.regex u) s.name) ∧
        ∀ path, link.1 u (.site s) = some path →
          resolve u db urlpatterns path = some (link.2, [.site s])) ∧
      (∀ p ∈ db.pages, ∃ path, aDetallePagina u (.page p) = some path ∧
        aDetallePagina u (.int p.idPage) = some path ∧
        resolve u db urlpatterns path = some (.detailPage, [.page p])) ∧
      ∀ value, aAddNoLink u value = none := by
  refine ⟨⟨[], rfl, ?_⟩, fun s hSite link hLink => siteLinks_lead hDb hSite hLink,
    fun p hPage => aDetallePagina_leads hDb hPage (hKeys p hPage), fun value => rfl⟩
  exact resolve_eq_some.mpr ⟨[], .nil, rfl⟩

theorem links_lead_seeded : aSiteQueue .ascii (.site seedSite) = some "site/s/queue/".toList ∧
    resolve .ascii .seeded urlpatterns "site/s/queue/" = some (.siteQueue, [.site seedSite]) := by
  have hLead := (links_lead .ascii .seeded Database.consistent_seeded keys_seeded).2.1 seedSite (by decide)
    (aSiteQueue, .siteQueue) (by simp [siteLinks])
  have hPath : aSiteQueue .ascii (.site seedSite) = some "site/s/queue/".toList := by decide
  exact ⟨hPath, hLead.2.2 _ hPath⟩

end Paths

end Spidercheck
