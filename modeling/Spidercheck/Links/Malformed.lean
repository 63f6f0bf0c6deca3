import Spidercheck.Addresses.Exclusion
import Spidercheck.Checks.Rejections
import Spidercheck.Url.Joining

/-! Links that cannot be followed. An exception for one link ends the generator,
and `_update_links` with it, so a page is only as good as the worst of its links. -/
namespace Spidercheck

open Text Url Robots

variable {py : Platform} {site : Site} {page : Page} {robots : RobotFileParser} {link url : Str}
  {links : List Str}

def WellFormed (py : Platform) (link : Str) : Bool := (urlparse py.netlocCheck link []).isSome

namespace Page
variable (py : Platform) (site : Site) (page : Page)

/-- Nothing that is done with the link raises. -/
structure Digestible (robots : RobotFileParser) (link : Str) : Prop where
  resolves : ∃ url, page.resolve py site link = .ok url ∧
    (page.getFullUrl py site = .ok url ∨ WellFormed py url = true)
  judged : ∀ url, page.Leads py site link url →
    robots.canFetch py.netlocCheck py.quoting "*" link ≠ none
  stored : ∀ url, page.Leads py site link url →
    robots.canFetch py.netlocCheck py.quoting "*" link = some true →
      ∃ relative found, page.getRelativeUrl py site = .ok relative ∧
        urljoin py.netlocCheck relative link = some found ∧ Storable py found

/-- The malformed links of the body make no difference to the others. -/
structure Unspoiled (input : Input) (db : Database) (body : Str) : Prop where
  reads : (page.getAllValidLinks py site input.robots body).raised = none
  yields : ∀ links other others, linksOf py body = .ok links → linksOf py other = .ok others →
    others.Perm (links.filter (WellFormed py)) →
      (page.getAllValidLinks py site input.robots other).yielded.Perm
        (page.getAllValidLinks py site input.robots body).yielded
  updates : ∃ changes db', (updateLinks py input site page body).run db = (.ok changes, db')

end Page

/-- `is_local` raises exactly when the URL cannot be parsed. -/
theorem isLocal_isOk : (∃ answer, site.isLocal py url = .ok answer) ↔ WellFormed py url = true := by
  unfold Site.isLocal WellFormed
  cases urlparse py.netlocCheck url [] with
  | none => simp [orValueError]
  | some info =>
      simp only [orValueError_some, ok_bind, Option.isSome_some, iff_true]
      split
      · exact ⟨false, rfl⟩
      · split
        · exact ⟨false, rfl⟩
        · exact ⟨true, rfl⟩

/-- What the loop body does for a link that resolves to another URL. -/
theorem validLink_of_other {full : Str} (hFull : page.getFullUrl py site = .ok full)
    (hResolve : page.resolve py site link = .ok url) (hOther : url ≠ full) {answer : Bool}
    (hLocal : site.isLocal py url = .ok answer) :
    page.validLink py site robots link =
      if answer then do
        if !(← orValueError (robots.canFetch py.netlocCheck py.quoting "*" link)) then return none
        return some (← orValueError (urljoin py.netlocCheck (← page.getRelativeUrl py site) link))
      else .ok none := by
  rw [validLink_of_resolve hFull hResolve, if_neg hOther, hLocal]
  cases answer <;> rfl

/-- A digestible link raises nothing. -/
theorem validLink_of_digestible (h : page.Digestible py site robots link) :
    ∃ answer, page.validLink py site robots link = .ok answer ∧ ∀ found ∈ answer, Storable py found := by
  obtain ⟨url, hResolve, hCases⟩ := h.resolves
  obtain ⟨full, hFull, -⟩ := full_of_resolve hResolve
  by_cases hSame : url = full
  · refine ⟨none, ?_, by simp⟩
    rw [validLink_of_resolve hFull hResolve, if_pos hSame]
  · have hOther : page.getFullUrl py site ≠ .ok url := by
      intro hEq
      exact hSame (Except.ok.inj (hEq.symm.trans hFull))
    obtain ⟨answer, hLocal⟩ := isLocal_isOk.mpr (hCases.resolve_left hOther)
    rw [validLink_of_other hFull hResolve hSame hLocal]
    cases answer with
    | false => exact ⟨none, rfl, by simp⟩
    | true =>
        have hLeads : page.Leads py site link url := ⟨hResolve, hOther, hLocal⟩
        cases hFetch : robots.canFetch py.netlocCheck py.quoting "*" link with
        | none => exact absurd hFetch (h.judged url hLeads)
        | some allowed =>
            cases allowed with
            | false => exact ⟨none, rfl, by simp⟩
            | true =>
                obtain ⟨relative, found, hRelative, hFound, hStored⟩ := h.stored url hLeads hFetch
                refine ⟨some found, ?_, by simpa using hStored⟩
                simp [hRelative, hFound]

/-- A link that raises nothing is digestible, if it can be stored. -/
theorem digestible_of_validLink {answer : Option Str}
    (hLink : page.validLink py site robots link = .ok answer) (hStored : ∀ found ∈ answer, Storable py found) :
    page.Digestible py site robots link where
  resolves := by
    cases hFull : page.getFullUrl py site with
    | error e => simp [Page.validLink, hFull] at hLink
    | ok full =>
        cases hResolve : page.resolve py site link with
        | error e =>
            have hJoin : orValueError (urljoin py.netlocCheck full link) = .error e := by
              simpa [Page.resolve, hFull] using hResolve
            simp [Page.validLink, hFull, hJoin] at hLink
        | ok url =>
            refine ⟨url, rfl, ?_⟩
            by_cases hSame : url = full
            · exact .inl (by rw [hSame])
            · rw [validLink_of_resolve hFull hResolve, if_neg hSame] at hLink
              obtain ⟨answer, hLocal, -⟩ := (except_bind_eq_ok _).mp hLink
              exact .inr (isLocal_isOk.mp ⟨answer, hLocal⟩)
  judged := by
    intro url hLeads hNone
    obtain ⟨full, hFull, -⟩ := full_of_resolve hLeads.1
    rw [validLink_of_other hFull hLeads.1 (hLeads.ne_full hFull) hLeads.2.2, hNone] at hLink
    cases hLink
  stored := by
    intro url hLeads hFetch
    cases answer with
    | none =>
        cases hFetch.symm.trans (disallows_of_refused hLeads hLink)
    | some found =>
        obtain ⟨-, -, -, relative, hRelative, hFound⟩ := validLink_eq_some.mp hLink
        exact ⟨relative, found, hRelative, hFound, hStored found rfl⟩

/-- The loop raises nothing exactly when no link does. -/
theorem raised_validLinks : (page.validLinks py site robots links).raised = none ↔
    ∀ link ∈ links, ∃ answer, page.validLink py site robots link = .ok answer := by
  induction links with
  | nil => simp [Page.validLinks]
  | cons link rest ih =>
      rw [List.forall_mem_cons]
      cases hLink : page.validLink py site robots link with
      | error e => simp [Page.validLinks, hLink]
      | ok answer =>
          cases answer with
          | none => simpa [Page.validLinks, hLink] using ih
          | some found => simpa [Page.validLinks, hLink] using ih

/-- When no link raises, all of them are reached. -/
theorem yielded_of_reached
    (h : ∀ link ∈ links, ∃ answer, page.validLink py site robots link = .ok answer) :
    (page.validLinks py site robots links).yielded = links.filterMap (page.foundFor py site robots) := by
  have hAll : page.reached py site robots links = links := by
    apply List.takeWhile_eq_self_iff.mpr
    intro link hLink
    obtain ⟨answer, hAnswer⟩ := h link hLink
    rw [hAnswer]
    rfl
  rw [Page.yielded_validLinks, hAll]

/-- A malformed link does not lead anywhere. -/
theorem wellFormed_of_leads (h : page.Leads py site link url) : WellFormed py link = true := by
  obtain ⟨full, -, hJoin⟩ := full_of_resolve h.1
  by_cases hBase : full = []
  · -- resolved against nothing, the link is the URL
    rw [urljoin, if_pos hBase, Option.some.injEq] at hJoin
    exact hJoin ▸ isLocal_isOk.mp ⟨true, h.2.2⟩
  · by_cases hLink : link = []
    · rw [hLink]
      rfl
    · cases hb : urlparse py.netlocCheck full [] with
      | none => simp [urljoin, hBase, hLink, hb] at hJoin
      | some b =>
          cases hr : urlparse py.netlocCheck link b.scheme with
          | none =>
              rw [urljoin_of_none hBase hLink hb hr] at hJoin
              cases hJoin
          | some r =>
              rw [WellFormed, ← urlparse_isSome b.scheme, hr]
              rfl

theorem foundFor_of_malformed (h : WellFormed py link ≠ true) : page.foundFor py site robots link = none := by
  cases hFound : page.foundFor py site robots link with
  | none => rfl
  | some found =>
      obtain ⟨url, hLeads, -⟩ := validLink_eq_some.mp (validLink_of_foundFor hFound)
      exact absurd (wellFormed_of_leads hLeads) h

/-- Leaving the malformed links out leaves the rest as it is. -/
theorem filterMap_wellFormed (links : List Str) :
    (links.filter (WellFormed py)).filterMap (page.foundFor py site robots) =
      links.filterMap (page.foundFor py site robots) := by
  rw [List.filterMap_filter]
  apply List.filterMap_congr
  intro link _
  split
  · rfl
  · next hNot => exact (foundFor_of_malformed hNot).symm

/-- A bad link does not spoil the page exactly when there is none: every link
resolves to a URL that can be parsed, `robots.txt` can be asked about the local
ones, and those that it allows resolve to something that can be stored. -/
theorem unspoiled_iff (py : Platform) (input : Input) (robots : RobotFileParser) (db : Database)
    (site : Site) (page : Page) (body : Str) (hRobots : input.robots = .ok robots) (hDb : db.Consistent)
    (hPage : page ∈ db.pages) (hSite : db.siteById page.site = some site) :
    page.Unspoiled py site input db body ↔
      ∃ links, Page.linksOf py body = .ok links ∧ ∀ link ∈ links, page.Digestible py site robots link := by
  have hSites := mem_sites_of_siteById hSite
  have hGenerator {other : Str} {links : List Str} (hLinks : Page.linksOf py other = .ok links) :
      page.getAllValidLinks py site input.robots other = page.validLinks py site robots links := by
    simp [Page.getAllValidLinks, hLinks, hRobots]
  constructor
  · intro h
    cases hLinks : Page.linksOf py body with
    | error e => simpa [Page.getAllValidLinks, hLinks] using h.reads
    | ok links =>
        refine ⟨links, rfl, ?_⟩
        obtain ⟨changes, db', hRun⟩ := h.updates
        obtain ⟨hRaised, hStorable⟩ := storable_of_returns py input.stamp hDb hSites hPage hRun
        rw [hGenerator hLinks] at hRaised hStorable
        have hOk := raised_validLinks.mp hRaised
        intro link hLink
        obtain ⟨answer, hAnswer⟩ := hOk link hLink
        apply digestible_of_validLink hAnswer
        intro found hFound
        apply hStorable
        rw [yielded_of_reached hOk]
        refine List.mem_filterMap.mpr ⟨link, hLink, ?_⟩
        simp [Page.foundFor, hAnswer, Option.mem_def.mp hFound]
  · rintro ⟨links, hLinks, hDigestible⟩
    have hOk : ∀ link ∈ links, ∃ answer, page.validLink py site robots link = .ok answer := by
      intro link hLink
      obtain ⟨answer, hAnswer, -⟩ := validLink_of_digestible (hDigestible link hLink)
      exact ⟨answer, hAnswer⟩
    have hReads : (page.getAllValidLinks py site input.robots body).raised = none := by
      rw [hGenerator hLinks]
      exact raised_validLinks.mpr hOk
    refine ⟨hReads, ?_, ?_⟩
    · intro links' other others hLinks' hOther hPerm
      obtain rfl := Except.ok.inj (hLinks.symm.trans hLinks')
      have hOthers : ∀ link ∈ others, ∃ answer, page.validLink py site robots link = .ok answer :=
        fun link hLink => hOk link (List.mem_filter.mp (hPerm.subset hLink)).1
      rw [hGenerator hOther, hGenerator hLinks, yielded_of_reached hOthers, yielded_of_reached hOk,
        ← filterMap_wellFormed links]
      exact hPerm.filterMap _
    · apply returns_of_storable py input.stamp hDb hSites hPage hReads
      rw [hGenerator hLinks, yielded_of_reached hOk]
      intro found hFound
      obtain ⟨link, hLink, hFor⟩ := List.mem_filterMap.mp hFound
      obtain ⟨answer, hAnswer, hStored⟩ := validLink_of_digestible (hDigestible link hLink)
      apply hStored
      have hSome := validLink_of_foundFor hFor
      exact Option.mem_def.mpr (Except.ok.inj (hAnswer.symm.trans hSome))

def goodTags : List StartTag := [{ tag := "a", attrs := [("href", some "/a.html".toList)] }]

/-- Nothing spoils the page. -/
theorem unspoiled_iff_good :
    seedPage.Unspoiled (.scripted goodTags) seedSite (.scripted (.raised dataError)) .seeded [] := by
  refine (unspoiled_iff (.scripted goodTags) (.scripted (.raised dataError)) .missing .seeded seedSite
    seedPage [] rfl Database.consistent_seeded (by decide) (by decide)).mpr
      ⟨["/a.html".toList], by rfl, fun link hLink => ?_⟩
  obtain rfl := List.mem_singleton.mp hLink
  have hValid : seedPage.validLink (.scripted goodTags) seedSite .missing "/a.html" =
      .ok (some "/a.html".toList) := by rfl
  refine digestible_of_validLink hValid fun found hFound => ?_
  obtain rfl : "/a.html".toList = found := Option.some.inj hFound
  exact ⟨_, by rfl, by decide, by decide⟩

/-- An unclosed bracket beside it, which is walked first. -/
def bracketTags : List StartTag :=
  [{ tag := "a", attrs := [("href", some "/a.html".toList)] },
   { tag := "a", attrs := [("href", some "http://[".toList)] }]

def bracketBody : Str := "<html><a href='/a.html'>a</a><a href='http://['>x</a></html>"

/-- Behind the unclosed bracket the good link is lost. -/
theorem not_unspoiled_bracket :
    (seedPage.getAllValidLinks (.scripted bracketTags) seedSite (.ok .missing) bracketBody).yielded = [] ∧
      seedPage.validLink (.scripted bracketTags) seedSite .missing "/a.html" = .ok (some "/a.html".toList) ∧
      ¬ seedPage.Unspoiled (.scripted bracketTags) seedSite (.scripted (.raised dataError)) .seeded
        bracketBody := by
  refine ⟨by rfl, by rfl, ?_⟩
  intro h
  cases h.reads

end Spidercheck
