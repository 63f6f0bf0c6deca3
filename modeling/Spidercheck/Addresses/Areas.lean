import Spidercheck.Addresses.Exclusion

/-! Excluded areas. The extractor compares the text of an `href` with the excluded
paths, and not the path of the URL that it resolves to. -/
namespace Spidercheck

open Text Url Robots

variable {py : Platform} {site : Site} {page : Page} {robots : RobotFileParser} {tags : List StartTag}
  {t : StartTag} {e : LinkExtractor} {link href url found htmlText : Str}

/-- A tag whose URL the extractor may collect. -/
def StartTag.LinkBearing (t : StartTag) : Prop :=
  ((t.tag = "a".toList ∨ t.tag = "link".toList) ∧ LinkExtractor.nonEmpty t "href" ≠ none) ∨
    ((t.tag = "img".toList ∨ t.tag = "script".toList) ∧ LinkExtractor.nonEmpty t "src" ≠ none)

def OnlyAnchors (tags : List StartTag) : Prop := ∀ t ∈ tags, t.LinkBearing → t.tag = "a".toList

def anchors (tags : List StartTag) : List Str :=
  tags.filterMap fun t => if t.tag = "a".toList then t.get "href" else none

/-- The URL has the path of an excluded area, in any ASCII case. -/
def InExcludedArea (py : Platform) (url : Str) : Prop :=
  ∃ info, urlparse py.netlocCheck url [] = some info ∧
    ∃ area ∈ excludePaths, startsWith area (info.path.map Char.toLower) = true

namespace LinkExtractor

def linkOf (t : StartTag) : Option Str :=
  (if t.tag = "a".toList then nonEmpty t "href" else none).filter isValidUrl

/-- A tag adds the link that it has, and nothing else. -/
theorem mem_links_handleStarttag :
    link ∈ (e.handleStarttag t).links ↔ link ∈ e.links ∨ linkOf t = some link := by
  unfold handleStarttag linkOf
  by_cases hAnchor : t.tag = "a".toList
  · simp only [if_pos hAnchor]
    cases hUrl : nonEmpty t "href" with
    | none => simp
    | some url =>
        by_cases hValid : isValidUrl url = true
        · simp [hValid, List.mem_insert_iff, Option.filter_some, or_comm, eq_comm]
        · simp [hValid, Option.filter_some]
  · simp only [if_neg hAnchor]
    split
    · split <;> simp
    · split
      · split <;> simp
      · split
        · split <;> simp
        · simp

/-- The links of an extractor are those that its tags have added. -/
theorem mem_links_foldl :
    link ∈ (tags.foldl handleStarttag e).links ↔ link ∈ e.links ∨ ∃ t ∈ tags, linkOf t = some link := by
  induction tags generalizing e with
  | nil => simp
  | cons t rest ih => simp [ih, mem_links_handleStarttag, or_assoc]

/-- A tag that bears no link adds nothing. -/
theorem handleStarttag_of_not_bearing (h : ¬ t.LinkBearing) : e.handleStarttag t = e := by
  unfold StartTag.LinkBearing at h
  unfold handleStarttag
  split
  case isTrue hTag =>
    have hNone : nonEmpty t "href" = none := by
      by_contra hSome
      exact h (.inl ⟨.inl hTag, hSome⟩)
    rw [hNone]
  case isFalse =>
    split
    case isTrue hTag =>
      have hNone : nonEmpty t "href" = none := by
        by_contra hSome
        exact h (.inl ⟨.inr hTag, hSome⟩)
      rw [hNone]
    case isFalse =>
      by_cases hSource : t.tag = "img".toList ∨ t.tag = "script".toList
      · have hNone : nonEmpty t "src" = none := by
          by_contra hSome
          exact h (.inr ⟨hSource, hSome⟩)
        rw [hNone]
        split
        · rfl
        · split <;> rfl
      · rw [if_neg (hSource ∘ .inl), if_neg (hSource ∘ .inr)]

def others (e : LinkExtractor) : List Str × List Str × List Str := (e.styles, e.scripts, e.images)

/-- An `a` tag adds to the links only. -/
theorem others_of_anchor (hTag : t.tag = "a".toList) : (e.handleStarttag t).others = e.others := by
  unfold handleStarttag
  rw [if_pos hTag]
  split
  · split <;> rfl
  · rfl

/-- Without other link-bearing tags the other sets stay as they are. -/
theorem others_foldl (hTags : OnlyAnchors tags) : (tags.foldl handleStarttag e).others = e.others := by
  induction tags generalizing e with
  | nil => rfl
  | cons t rest ih =>
      obtain ⟨hTag, hRest⟩ := List.forall_mem_cons.mp hTags
      rw [List.foldl_cons, ih hRest]
      by_cases hBearing : t.LinkBearing
      · exact others_of_anchor (hTag hBearing)
      · rw [handleStarttag_of_not_bearing hBearing]

/-- The links of an HTML text with nothing but anchors. -/
theorem mem_allLinks_feed (hTags : OnlyAnchors tags) :
    link ∈ (feed tags).allLinks py.iterate ↔ link ∈ anchors tags ∧ link ≠ [] ∧ isValidUrl link = true := by
  have hOthers : (feed tags).others = ([], [], []) := others_foldl hTags
  obtain ⟨hStyles, hSources⟩ := Prod.mk.inj hOthers
  obtain ⟨hScripts, hImages⟩ := Prod.mk.inj hSources
  have hNil : py.iterate [] = [] := (py.iterate_perm []).eq_nil
  rw [allLinks, hStyles, hScripts, hImages, hNil]
  simp only [List.nil_append, (py.iterate_perm _).mem_iff, feed, mem_links_foldl]
  have hOf : (∃ t ∈ tags, linkOf t = some link) ↔ link ∈ anchors tags ∧ link ≠ [] ∧ isValidUrl link = true := by
    simp only [anchors, List.mem_filterMap, linkOf, nonEmpty, Option.filter_eq_some_iff]
    constructor
    · rintro ⟨t, ht, hGet, hValid⟩
      split at hGet
      case isFalse => cases hGet
      case isTrue hAnchor =>
        simp only [Option.filter_eq_some_iff, decide_eq_true_eq] at hGet
        exact ⟨⟨t, ht, by rw [if_pos hAnchor, hGet.1]⟩, hGet.2, hValid⟩
    · rintro ⟨⟨t, ht, hGet⟩, hSome, hValid⟩
      refine ⟨t, ht, ?_, hValid⟩
      split at hGet
      case isFalse => cases hGet
      case isTrue hAnchor =>
        rw [if_pos hAnchor]
        exact Option.filter_eq_some_iff.mpr ⟨hGet, by simpa using hSome⟩
  rw [hOf]
  simp [empty]

end LinkExtractor

namespace Page
variable (py : Platform) (site : Site) (page : Page)

/-- `get_all_valid_links` gets to the link, and yields that text for it. -/
def YieldsFor (robots : Except PyError RobotFileParser) (htmlText link found : Str) : Prop :=
  ∃ rules, robots = .ok rules ∧ link ∈ page.visited py site rules htmlText ∧
    page.foundFor py site rules link = some found

/-- Nothing is yielded for an `href` that resolves to an excluded area of the site. -/
def KeepsOut (robots : Except PyError RobotFileParser) (tags : List StartTag) (htmlText : Str) : Prop :=
  ∀ href ∈ anchors tags, ∀ url, page.resolve py site href = .ok url → site.isLocal py url = .ok true →
    InExcludedArea py url → ∀ found, ¬ page.YieldsFor py site robots htmlText href found

end Page

theorem mem_links_of_visited (h : link ∈ page.visited py site robots htmlText) :
    ∃ links, Page.linksOf py htmlText = .ok links ∧ link ∈ links := by
  unfold Page.visited at h
  split at h
  · next links hLinks => exact ⟨links, hLinks, (List.takeWhile_sublist _).subset h⟩
  · cases h

/-- Excluded areas stay out exactly when every `href` that leads into one of them
without saying so, and that the loop gets to, is disallowed as it is written. -/
theorem keepsOut_iff (py : Platform) (site : Site) (page : Page) (robots : Except PyError RobotFileParser)
    (tags : List StartTag) (htmlText : Str) (hTags : py.startTags htmlText = .ok tags)
    (hAnchors : OnlyAnchors tags) : page.KeepsOut py site robots tags htmlText ↔
      ∀ rules, robots = .ok rules → ∀ href ∈ anchors tags, isValidUrl href = true →
        ∀ url, page.Leads py site href url → InExcludedArea py url →
          href ∉ page.visited py site rules htmlText ∨ Disallows py rules href := by
  constructor
  · rintro hKeeps rules rfl href hHref - url hLeads hArea
    by_cases hVisited : href ∈ page.visited py site rules htmlText
    · obtain ⟨answer, hAnswer⟩ := validLink_of_visited hVisited
      cases answer with
      | none => exact .inr (disallows_of_refused hLeads hAnswer)
      | some found =>
          have hFound : page.foundFor py site rules href = some found := by simp [Page.foundFor, hAnswer]
          exact absurd ⟨rules, rfl, hVisited, hFound⟩ (hKeeps href hHref url hLeads.1 hLeads.2.2 hArea found)
    · exact .inl hVisited
  · rintro hWritten href hHref url hResolve hLocal hArea found ⟨rules, rfl, hVisited, hFound⟩
    obtain ⟨links, hLinks, hMem⟩ := mem_links_of_visited hVisited
    obtain rfl : (LinkExtractor.feed tags).allLinks py.iterate = links := by
      simpa [Page.linksOf, hTags] using hLinks
    obtain ⟨-, -, hValid⟩ := (LinkExtractor.mem_allLinks_feed hAnchors).mp hMem
    obtain ⟨url', hLeads, hFetch, -⟩ := validLink_eq_some.mp (validLink_of_foundFor hFound)
    obtain rfl : url = url' := Except.ok.inj (hResolve.symm.trans hLeads.1)
    rcases hWritten rules rfl href hHref hValid url hLeads hArea with hMissed | hDisallows
    · exact hMissed hVisited
    · cases hFetch.symm.trans hDisallows

def relativeAnchor : StartTag where
  tag := "a"
  attrs := [("href", some "api/x".toList)]

def relativeBody : Str := "<html><a href='api/x'>x</a></html>"

theorem onlyAnchors_relativeAnchor : OnlyAnchors [relativeAnchor] := by
  intro t ht _
  rw [List.mem_singleton.mp ht]
  rfl

def absoluteAnchor : StartTag := { relativeAnchor with attrs := [("href", some "/api/x".toList)] }

/-- The area is recognised in a path from the root. -/
theorem keepsOut_iff_absolute :
    seedPage.KeepsOut (.scripted [absoluteAnchor]) seedSite (.ok .missing) [absoluteAnchor] [] := by
  have hOnly : OnlyAnchors [absoluteAnchor] := fun t ht _ => by rw [List.mem_singleton.mp ht]; rfl
  refine (keepsOut_iff (.scripted [absoluteAnchor]) seedSite seedPage (.ok .missing) [absoluteAnchor] []
    rfl hOnly).mpr ?_
  intro rules _ href hHref hValid
  obtain rfl : href = "/api/x".toList := List.mem_singleton.mp hHref
  exact absurd hValid (by decide)

/-- A relative link into an excluded area is yielded. -/
theorem not_keepsOut_relative :
    (Platform.scripted [relativeAnchor]).startTags relativeBody = .ok [relativeAnchor] ∧
      OnlyAnchors [relativeAnchor] ∧
      ¬ seedPage.KeepsOut (.scripted [relativeAnchor]) seedSite (.ok .missing) [relativeAnchor]
        relativeBody := by
  refine ⟨rfl, onlyAnchors_relativeAnchor, ?_⟩
  intro hKeeps
  have hArea : InExcludedArea (.scripted [relativeAnchor]) "http://h/api/x" :=
    ⟨_, rfl, "/api/", by decide, by decide⟩
  exact hKeeps "api/x" (by decide) "http://h/api/x" (by rfl) (by rfl) hArea "/api/x"
    ⟨.missing, rfl, by decide, by rfl⟩

end Spidercheck
