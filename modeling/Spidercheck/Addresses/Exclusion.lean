import Spidercheck.Model.Consistency

/-! Robots exclusion. The rules are asked about a link as it is written in the
page, and not about the URL that it resolves to. -/
namespace Spidercheck

open Text Url Robots

variable {py : Platform} {site : Site} {page : Page} {robots : RobotFileParser} {link url found : Str}

namespace Page
variable (py : Platform) (site : Site) (page : Page)

def resolve (link : Str) : Except PyError Str := do
  orValueError (urljoin py.netlocCheck (← page.getFullUrl py site) link)

/-- The link resolves to a local URL other than that of the page. -/
def Leads (link url : Str) : Prop :=
  page.resolve py site link = .ok url ∧ page.getFullUrl py site ≠ .ok url ∧
    site.isLocal py url = .ok true

def foundFor (robots : RobotFileParser) (link : Str) : Option Str :=
  match page.validLink py site robots link with
  | .ok found => found
  | .error _ => none

/-- The links that the loop gets to: it ends with the first one that raises. -/
def reached (robots : RobotFileParser) (links : List Str) : List Str :=
  links.takeWhile fun link => (page.validLink py site robots link).toBool

/-- The loop yields what is found for the links that it gets to. -/
theorem yielded_validLinks (robots : RobotFileParser) (links : List Str) :
    (page.validLinks py site robots links).yielded =
      (page.reached py site robots links).filterMap (page.foundFor py site robots) := by
  induction links with
  | nil => rfl
  | cons link rest ih =>
      cases hLink : page.validLink py site robots link with
      | error e => simp [validLinks, reached, hLink, Except.toBool]
      | ok found =>
          cases found with
          | none => simpa [validLinks, reached, foundFor, hLink, Except.toBool] using ih
          | some found => simpa [validLinks, reached, foundFor, hLink, Except.toBool] using ih

/-- The links of an HTML text that `get_all_valid_links` gets to. -/
def visited (robots : RobotFileParser) (htmlText : Str) : List Str :=
  match linksOf py htmlText with
  | .ok links => page.reached py site robots links
  | .error _ => []

/-- The generator yields what is found for the links it gets to, in their order. -/
theorem yielded_getAllValidLinks (robots : RobotFileParser) (htmlText : Str) :
    (page.getAllValidLinks py site (.ok robots) htmlText).yielded =
      (page.visited py site robots htmlText).filterMap (page.foundFor py site robots) := by
  cases hLinks : linksOf py htmlText with
  | error e => simp [getAllValidLinks, visited, hLinks]
  | ok links => simp [getAllValidLinks, visited, hLinks, yielded_validLinks]

end Page

def Disallows (py : Platform) (robots : RobotFileParser) (url : Str) : Prop :=
  robots.canFetch py.netlocCheck py.quoting "*" url = some false

@[simp] theorem orValueError_some {α : Type} (a : α) : orValueError (some a) = .ok a := rfl

theorem orValueError_eq_ok {α : Type} {o : Option α} {a : α} : orValueError o = .ok a ↔ o = some a := by
  cases o <;> simp [orValueError]

/-- A link is resolved against the full URL of its page. -/
theorem full_of_resolve (h : page.resolve py site link = .ok url) :
    ∃ full, page.getFullUrl py site = .ok full ∧ urljoin py.netlocCheck full link = some url := by
  cases hFull : page.getFullUrl py site with
  | error e => simp [Page.resolve, hFull] at h
  | ok full => exact ⟨full, rfl, by simpa [Page.resolve, hFull, orValueError_eq_ok] using h⟩

/-- A link that leads somewhere leads away from the URL of its page. -/
theorem Page.Leads.ne_full {full : Str} (h : page.Leads py site link url)
    (hFull : page.getFullUrl py site = .ok full) : url ≠ full := by
  rintro rfl
  exact h.2.1 hFull

/-- The loop body for a link that resolves to a URL. -/
theorem validLink_of_resolve {full : Str} (hFull : page.getFullUrl py site = .ok full)
    (hResolve : page.resolve py site link = .ok url) :
    page.validLink py site robots link =
      if url = full then .ok none
      else do
        if !(← site.isLocal py url) then return none
        if !(← orValueError (robots.canFetch py.netlocCheck py.quoting "*" link)) then return none
        return some (← orValueError (urljoin py.netlocCheck (← page.getRelativeUrl py site) link)) := by
  have hJoin : orValueError (urljoin py.netlocCheck full link) = .ok url := by
    simpa [Page.resolve, hFull] using hResolve
  simp only [Page.validLink, hFull, hJoin, ok_bind]
  split <;> rfl

/-- The tests that a link passes on its way to being yielded. -/
theorem validLink_eq_some : page.validLink py site robots link = .ok (some found) ↔
    ∃ url, page.Leads py site link url ∧
      robots.canFetch py.netlocCheck py.quoting "*" link = some true ∧
      ∃ relative, page.getRelativeUrl py site = .ok relative ∧
        urljoin py.netlocCheck relative link = some found := by
  cases hFull : page.getFullUrl py site with
  | error e => simp [Page.validLink, Page.Leads, Page.resolve, hFull]
  | ok full =>
      cases hResolve : page.resolve py site link with
      | error e =>
          have hJoin : orValueError (urljoin py.netlocCheck full link) = .error e := by
            simpa [Page.resolve, hFull] using hResolve
          simp [Page.validLink, Page.Leads, hFull, hResolve, hJoin]
      | ok url =>
          rw [validLink_of_resolve hFull hResolve]
          by_cases hSame : url = full
          · simp [Page.Leads, hFull, hResolve, hSame]
          · cases hLocal : site.isLocal py url with
            | error e => simp [Page.Leads, hResolve, hSame, hLocal]
            | ok isLocal =>
                cases isLocal with
                | false => simp [Page.Leads, hResolve, hSame, hLocal]
                | true =>
                    have hNe : full ≠ url := fun hEq => hSame hEq.symm
                    cases hFetch : robots.canFetch py.netlocCheck py.quoting "*" link with
                    | none => simp [orValueError, hSame]
                    | some allowed =>
                        cases allowed with
                        | false => simp [hSame]
                        | true =>
                            simp [Page.Leads, hFull, hResolve, hSame, hLocal, hNe, orValueError_eq_ok,
                              except_bind_eq_ok]

theorem validLink_of_foundFor (h : page.foundFor py site robots link = some found) :
    page.validLink py site robots link = .ok (some found) := by
  unfold Page.foundFor at h
  split at h
  · next hLink => rw [hLink, h]
  · cases h

/-- No link that the loop gets to raises. -/
theorem validLink_of_visited {htmlText : Str} (h : link ∈ page.visited py site robots htmlText) :
    ∃ found, page.validLink py site robots link = .ok found := by
  unfold Page.visited at h
  split at h
  case h_2 => cases h
  have hReached := List.mem_takeWhile_imp h
  cases hLink : page.validLink py site robots link with
  | ok found => exact ⟨found, rfl⟩
  | error e => simp [hLink, Except.toBool] at hReached

/-- Without rules nothing is yielded. -/
theorem robots_of_yielded {input : Input} {body : Str}
    (hUrl : found ∈ (page.getAllValidLinks py site input.robots body).yielded) :
    ∃ robots, input.robots = .ok robots := by
  cases hRobots : input.robots with
  | ok robots => exact ⟨robots, rfl⟩
  | error e =>
      rw [hRobots] at hUrl
      cases hLinks : Page.linksOf py body <;> simp [Page.getAllValidLinks, hLinks] at hUrl

/-- A URL is yielded for a link that the rules allow and that leads to a local URL. -/
theorem leads_of_yielded {input : Input} {body : Str}
    (hUrl : found ∈ (page.getAllValidLinks py site input.robots body).yielded) :
    ∃ robots link, input.robots = .ok robots ∧ link ∈ page.visited py site robots body ∧
      page.validLink py site robots link = .ok (some found) := by
  obtain ⟨robots, hRobots⟩ := robots_of_yielded hUrl
  rw [hRobots, Page.yielded_getAllValidLinks] at hUrl
  obtain ⟨link, hLink, hFound⟩ := List.mem_filterMap.mp hUrl
  exact ⟨robots, link, hRobots, hLink, validLink_of_foundFor hFound⟩

/-- A link that was not yielded although it leads to a local URL was refused by the rules. -/
theorem disallows_of_refused (hLeads : page.Leads py site link url)
    (h : page.validLink py site robots link = .ok none) : Disallows py robots link := by
  obtain ⟨full, hFull, -⟩ := full_of_resolve hLeads.1
  rw [validLink_of_resolve hFull hLeads.1, if_neg (hLeads.ne_full hFull), hLeads.2.2] at h
  cases hFetch : robots.canFetch py.netlocCheck py.quoting "*" link with
  | none =>
      rw [hFetch] at h
      simp [orValueError] at h
  | some allowed =>
      cases allowed with
      | false => exact hFetch
      | true =>
          rw [hFetch] at h
          simp [except_bind_eq_ok] at h

namespace Page
variable (py : Platform) (site : Site) (page : Page)

/-- No link that resolves to a disallowed URL is yielded. -/
def ObeysRobots (robots : RobotFileParser) (htmlText : Str) : Prop :=
  ∀ link ∈ page.visited py site robots htmlText, ∀ url, page.resolve py site link = .ok url →
    Disallows py robots url → page.foundFor py site robots link = none

end Page

/-- The exclusion is obeyed exactly when every link that leads to a disallowed
local URL is disallowed in the form in which it is written. -/
theorem obeysRobots_iff (py : Platform) (site : Site) (page : Page) (robots : RobotFileParser)
    (htmlText : Str) : page.ObeysRobots py site robots htmlText ↔
      ∀ link ∈ page.visited py site robots htmlText, ∀ url, page.Leads py site link url →
        Disallows py robots url → Disallows py robots link := by
  constructor
  · intro hObeys link hLink url hLeads hUrl
    have hNone := hObeys link hLink url hLeads.1 hUrl
    obtain ⟨found, hFound⟩ := validLink_of_visited hLink
    have hRefused : found = none := by simpa [Page.foundFor, hFound] using hNone
    exact disallows_of_refused hLeads (hRefused ▸ hFound)
  · intro hWritten link hLink url hResolve hUrl
    cases hFound : page.foundFor py site robots link with
    | none => rfl
    | some found =>
        obtain ⟨url', hLeads, hFetch, -⟩ := validLink_eq_some.mp (validLink_of_foundFor hFound)
        obtain rfl : url = url' := Except.ok.inj (hResolve.symm.trans hLeads.1)
        cases hFetch.symm.trans (hWritten link hLink url hLeads hUrl)

def privateRobots : RobotFileParser where
  disallowAll := false
  allowAll := false
  lastChecked := true
  entries := []
  defaultEntry := some
    { useragents := ["*".toList], rulelines := [{ path := "/private/", allowance := false }] }

/-- A relative link to a disallowed page is yielded. -/
theorem not_obeysRobots_relative :
    ¬ seedPage.ObeysRobots (.scripted [{ tag := "a", attrs := [("href", some "private/x.html".toList)] }])
      seedSite privateRobots "<html></html>" := by
  intro hObeys
  have hNone := hObeys "private/x.html" (by decide) "http://h/private/x.html" (by rfl) (by rfl)
  cases hNone

end Spidercheck
