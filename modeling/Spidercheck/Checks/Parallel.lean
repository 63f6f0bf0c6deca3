import Spidercheck.Checks.Effects

/-! Checks of different pages at the same time. Each check that returns has taken
its effect, and nothing that is not theirs has changed; so the order of their
statements does not matter, but for the keys and the creation times of new pages. -/
namespace Spidercheck

open Text Url Execution Relational

/-- A call of `check_page`, with what it is answered. -/
structure Check where
  page : Page
  isValid : Site → Page → Except PyError (Result Payload)
  input : Input

def Page.Fresh (p : Page) : Prop :=
  p = { Page.new p.site p.subpath p.params with idPage := p.idPage, createdAt := p.createdAt }

namespace Check
variable (py : Platform) (c : Check)

def session : Session (Result Str) := checkPageWith c.isValid py c.input c.page

def effect (site : Site) : Except PyError Effect := c.page.effect py c.input site c.isValid

def Leads (db : Database) (a : Address) : Prop :=
  ∃ site e links, db.siteById c.page.site = some site ∧ c.effect py site = .ok e ∧
    e.links = some links ∧ ∃ url ∈ links.yielded, site.address py url = some a

def Adds (db : Database) (p : Page) : Prop := p.Fresh ∧ c.Leads py db p.fullPath

/-- The effect of the check is there. -/
def TookEffect (db db' : Database) : Prop :=
  ∃ site, db.siteById c.page.site = some site ∧ Effecting py site db.sites (db.Linked c.page.idPage)
    (db.HasValue c.page.idPage) (c.effect py site) db'

end Check

section Effecting
variable {py : Platform} {site : Site} {sites : List Site} {targets : Nat → Prop}
  {values : Str → Str → Prop} {s t : Database} {page : Page} {e : Effect}

/-- Others do not undo an effect. -/
theorem Effect.Leaves.later (h : e.Leaves py site sites targets values s)
    (hOthers : Sparing e.row.idPage s t) : e.Leaves py site sites targets values t := by
  have hArea := h.area.later hOthers
  obtain ⟨-, -, hPersists⟩ := hOthers.persisting h.area.consistent h.area.hasPage
  refine ⟨hArea.now, ?_, ?_⟩
  · cases hLinks : e.links with
    | none =>
        have hSame := h.links
        rw [hLinks] at hSame
        exact fun q => (hArea.linked q).trans (hSame q)
    | some links =>
        have hFollows := h.links
        rw [hLinks] at hFollows
        exact ⟨hFollows.1, (hFollows.2.later hArea.consistent hPersists).congr hArea.linked⟩
  · cases hValues : e.values with
    | none =>
        have hSame := h.values
        rw [hValues] at hSame
        exact fun n x => (hArea.valued n x).trans (hSame n x)
    | some items =>
        have hItems := h.values
        rw [hValues] at hItems
        exact fun n x => (hArea.valued n x).trans (hItems n x)

end Effecting

section Together
variable {ι : Type} {py : Platform} {checks : ι → Check} {db db' d d' : Database}
  {rest rest' : ι → Session (Result Str)}

/-- The checks are of different pages that are stored. -/
structure Apart (checks : ι → Check) (db : Database) : Prop where
  consistent : db.Consistent
  stored : ∀ i, (checks i).page ∈ db.pages
  apart : ∀ i j, i ≠ j → (checks i).page.idPage ≠ (checks j).page.idPage

def checkedKeys (checks : ι → Check) : Set Nat := {pk | ∃ i, (checks i).page.idPage = pk}

/-- What one check guarantees among the others. -/
theorem Apart.alone (py : Platform) (h : Apart checks db) (i : ι) :
    Alone ((checks i).Adds py db) (checks i).page ((checks i).session py)
      (fun _ t => (checks i).TookEffect py db t) db := by
  obtain ⟨site, -, hSite⟩ := h.consistent.siteById (h.stored i)
  have hBrings : MayBring ((checks i).Adds py db) py (checks i).input.stamp site
      ((checks i).effect py site) := by
    intro e links hEffect hLinks url hUrl info hInfo pk
    refine ⟨rfl, site, e, links, hSite, hEffect, hLinks, url, hUrl, ?_⟩
    rw [Site.address, hInfo]
    rfl
  refine ((h.consistent.area (h.stored i)).checkPageWith hSite (checks i).isValid hBrings).weaken ?_
  intro r t ht
  cases r with
  | error e => exact trivial
  | ok result => exact ⟨site, hSite, ht⟩

theorem steady_tookEffect (py : Platform) (db : Database) (c : Check) : Steady (Sparing c.page.idPage)
    (Ends (fun (_ : Result Str) t => c.TookEffect py db t) fun (_ : PyError) _ => True) := by
  intro r s t hs hOthers
  cases r with
  | error e => exact trivial
  | ok result =>
      obtain ⟨site, hSite, e, hEffect, hLeaves⟩ := hs
      have hKey : e.row.idPage = c.page.idPage := congrArg Prod.fst (Page.effect_identity hEffect)
      exact ⟨site, hSite, e, hEffect, hLeaves.later (hKey ▸ hOthers)⟩

variable [DecidableEq ι]

/-- In every interleaving, each check that has returned has taken its effect; and
all that has changed are the checked pages, with their links and values, and new
pages at the addresses of the links that were followed. -/
theorem checks_take_effect (h : Apart checks db)
    (hTogether : Together (fun i => (checks i).session py) db rest db') :
    Confined (checkedKeys checks) (fun p => ∃ i, (checks i).Adds py db p) db db' ∧
      ∀ i r, rest i = .done (.ok r) → (checks i).TookEffect py db db' := by
  have hReliance (i : ι) := sparing_reliance (checks i).page.idPage
  have hSteady (i : ι) := steady_tookEffect py db (checks i)
  have hOthers (i j : ι) (hNe : i ≠ j) (s t : Database)
      (hOwn : Confined {(checks i).page.idPage} ((checks i).Adds py db) s t) :
      Sparing (checks j).page.idPage s t := hOwn.sparing (h.apart j i hNe.symm)
  refine ⟨?_, fun i r hDone => ?_⟩
  · have hTotal : Reliance fun s t : Database => s.Consistent →
        Confined (checkedKeys checks) (fun p => ∃ i, (checks i).Adds py db p) s t :=
      ⟨fun _ hDb => Confined.refl hDb, fun _ _ _ hFirst hSecond hDb =>
        (hFirst hDb).trans (hSecond (hFirst hDb).consistent)⟩
    refine hTogether.relates hReliance hSteady hOthers (h.alone py) hTotal
      (fun i s t hOwn _ => hOwn.mono ?_ fun p hp => ⟨i, hp⟩) h.consistent
    rintro pk rfl
    exact ⟨i, rfl⟩
  · have hEnd := hTogether.guarantees hReliance hSteady hOthers (h.alone py) i
    rwa [hDone] at hEnd

end Together

def Database.Joined (db : Database) (a b : Address) : Prop :=
  ∃ p ∈ db.pages, ∃ q ∈ db.pages, p.fullPath = a ∧ q.fullPath = b ∧ db.Linked p.idPage q.idPage

def Database.ValueAt (db : Database) (a : Address) (name value : Str) : Prop :=
  ∃ p ∈ db.pages, p.fullPath = a ∧ db.HasValue p.idPage name value

/-- The same pages, links and values, but for keys and creation times. -/
structure Alike (d d' : Database) : Prop where
  sites : d.sites = d'.sites
  pages : ∀ p ∈ d.pages, ∃ p' ∈ d'.pages, p' = { p with idPage := p'.idPage, createdAt := p'.createdAt }
  joined : ∀ a b, d.Joined a b ↔ d'.Joined a b
  values : ∀ a n x, d.ValueAt a n x ↔ d'.ValueAt a n x

/-- All checks have taken their effect, and nothing else has changed. -/
structure Checked {ι : Type} (py : Platform) (checks : ι → Check) (db d : Database) : Prop where
  confined : Confined (checkedKeys checks) (fun p => ∃ i, (checks i).Adds py db p) db d
  effects : ∀ i, (checks i).TookEffect py db d

section Checked
variable {ι : Type} {py : Platform} {checks : ι → Check} {db d d' : Database} {p q : Page}

/-- The effect of one of the checks, with its site. -/
theorem Checked.leaves (h : Checked py checks db d) (i : ι) : ∃ site e,
    db.siteById (checks i).page.site = some site ∧ (checks i).effect py site = .ok e ∧
      e.row.identity = (checks i).page.identity ∧ e.Leaves py site db.sites
        (db.Linked (checks i).page.idPage) (db.HasValue (checks i).page.idPage) d := by
  obtain ⟨site, hSite, e, hEffect, hLeaves⟩ := h.effects i
  exact ⟨site, e, hSite, hEffect, Page.effect_identity hEffect, hLeaves⟩

/-- A page is one that is checked, one that was there and has not changed, or a new one. -/
theorem Checked.page_cases (h : Checked py checks db d) (hp : p ∈ d.pages) :
    (∃ i, p.idPage = (checks i).page.idPage) ∨ (p.idPage ∉ checkedKeys checks ∧ p ∈ db.pages) ∨
      (p.idPage ∉ checkedKeys checks ∧ db.nextPage ≤ p.idPage ∧ ∃ i, (checks i).Adds py db p) := by
  by_cases hKey : p.idPage ∈ checkedKeys checks
  · obtain ⟨i, hi⟩ := hKey
    exact .inl ⟨i, hi.symm⟩
  · exact .inr ((h.confined.fresh p hp hKey).imp (⟨hKey, ·⟩) (⟨hKey, ·⟩))

/-- A page that was there keeps its key. -/
theorem Checked.old (h : Checked py checks db d) {p₀ : Page} (hp₀ : p₀ ∈ db.pages) (hp : p ∈ d.pages)
    (hPath : p.fullPath = p₀.fullPath) : p.identity = p₀.identity := by
  obtain ⟨p', hp', hSame⟩ := h.confined.persists p₀ hp₀
  have hEq : p' = p :=
    h.confined.consistent.fullPaths.eq hp' hp ((congrArg (·.2.1) hSame).trans hPath.symm)
  exact hEq ▸ hSame

/-- Both databases have the same page under a key that was there before. -/
theorem Checked.same_page (hApart : Apart checks db) (h : Checked py checks db d)
    (h' : Checked py checks db d') (hp : p ∈ d.pages) (hOld : ∃ p₀ ∈ db.pages, p₀.idPage = p.idPage) :
    p ∈ d'.pages := by
  rcases h.page_cases hp with ⟨i, hi⟩ | ⟨hKey, hp₀⟩ | ⟨-, hNew, -⟩
  · obtain ⟨site, e, hSite, hEffect, hIdentity, hLeaves⟩ := h.leaves i
    obtain ⟨site', e', hSite', hEffect', -, hLeaves'⟩ := h'.leaves i
    obtain rfl := Option.some.inj (hSite.symm.trans hSite')
    obtain rfl := Except.ok.inj (hEffect.symm.trans hEffect')
    have hRow : e.row.idPage = p.idPage := (congrArg Prod.fst hIdentity).trans hi.symm
    rw [← h.confined.consistent.pages.eq hLeaves.area.stored hp hRow]
    exact hLeaves'.area.stored
  · exact h'.confined.kept p hp₀ hKey
  · obtain ⟨p₀, hp₀, hId⟩ := hOld
    have := hApart.consistent.pagesFresh p₀ hp₀
    omega

/-- The page at an address, in the other database. -/
theorem Checked.page_at (hApart : Apart checks db) (h : Checked py checks db d)
    (h' : Checked py checks db d') (hp : p ∈ d.pages) : ∃ p' ∈ d'.pages,
      p' = { p with idPage := p'.idPage, createdAt := p'.createdAt } ∧
      ((∃ p₀ ∈ db.pages, p₀.idPage = p.idPage) → p' = p) := by
  by_cases hOld : ∃ p₀ ∈ db.pages, p₀.idPage = p.idPage
  · exact ⟨p, h.same_page hApart h' hp hOld, rfl, fun _ => rfl⟩
  · rcases h.page_cases hp with ⟨i, hi⟩ | ⟨-, hp₀⟩ | ⟨-, hNew, i, hFresh, hLeads⟩
    · exact absurd ⟨_, hApart.stored i, hi.symm⟩ hOld
    · exact absurd ⟨p, hp₀, rfl⟩ hOld
    · obtain ⟨site, e, links, hSite, hEffect, hLinks, url, hUrl, hAddress⟩ := hLeads
      obtain ⟨site', e', hSite', hEffect', -, hLeaves'⟩ := h'.leaves i
      obtain rfl := Option.some.inj (hSite.symm.trans hSite')
      obtain rfl := Except.ok.inj (hEffect.symm.trans hEffect')
      have hFollows := hLeaves'.links
      rw [hLinks] at hFollows
      obtain ⟨p', hp', hAddress'⟩ := hFollows.2.reached url hUrl
      have hPath : p'.fullPath = p.fullPath := Option.some.inj (hAddress'.symm.trans hAddress)
      -- an old page at the address would have been found there by the first round too
      have hNone {p₀ : Page} (hp₀ : p₀ ∈ db.pages) : p.fullPath ≠ p₀.fullPath := fun hSame =>
        hOld ⟨p₀, hp₀, (congrArg Prod.fst (h.old hp₀ hp hSame)).symm⟩
      have hFresh' : p'.Fresh := by
        rcases h'.page_cases hp' with ⟨j, hj⟩ | ⟨-, hp₀⟩ | ⟨-, -, j, hFresh', -⟩
        · obtain ⟨p₁, hp₁, hSame⟩ := h'.confined.persists _ (hApart.stored j)
          have hEq : p₁ = p' :=
            h'.confined.consistent.pages.eq hp₁ hp' ((congrArg Prod.fst hSame).trans hj.symm)
          exact absurd (hPath.symm.trans (hEq ▸ congrArg (·.2.1) hSame)) (hNone (hApart.stored j))
        · exact absurd hPath.symm (hNone hp₀)
        · exact hFresh'
      obtain ⟨hSite', hRest⟩ := Prod.mk.inj hPath
      obtain ⟨hSubpath, hParams⟩ := Prod.mk.inj hRest
      refine ⟨p', hp', ?_, fun h => absurd h hOld⟩
      rw [hFresh', hFresh, hSite', hSubpath, hParams]

/-- Links of a page that is not checked, or not followed, are those that were there. -/
theorem Confined.linked {keys : Set Nat} {Adds : Page → Prop} (h : Confined keys Adds db d) {u v : Nat}
    (hOut : u ∉ keys) : d.Linked u v ↔ db.Linked u v := by
  constructor
  · rintro ⟨l, hl, hEnds⟩
    obtain ⟨rfl, -⟩ := Prod.mk.inj hEnds
    exact ⟨l, (h.links l hOut).mp hl, hEnds⟩
  · rintro ⟨l, hl, hEnds⟩
    obtain ⟨rfl, -⟩ := Prod.mk.inj hEnds
    exact ⟨l, (h.links l hOut).mpr hl, hEnds⟩

theorem Confined.hasValue {keys : Set Nat} {Adds : Page → Prop} (h : Confined keys Adds db d) {pk : Nat}
    {n x : Str} (hOut : pk ∉ keys) : d.HasValue pk n x ↔ db.HasValue pk n x := by
  constructor
  · rintro ⟨v, hv, rfl, hRest⟩
    exact ⟨v, (h.values v hOut).mp hv, rfl, hRest⟩
  · rintro ⟨v, hv, rfl, hRest⟩
    exact ⟨v, (h.values v hOut).mpr hv, rfl, hRest⟩

/-- The ends of a link are stored. -/
theorem Database.Consistent.ends_of_linked (hDb : db.Consistent) {u v : Nat} (h : db.Linked u v) :
    (∃ p ∈ db.pages, p.idPage = u) ∧ ∃ q ∈ db.pages, q.idPage = v := by
  obtain ⟨l, hl, hEnds⟩ := h
  obtain ⟨rfl, rfl⟩ := Prod.mk.inj hEnds
  exact ⟨hDb.linkFrom l hl, hDb.linkTo l hl⟩

/-- A link after one interleaving is there after the other. -/
theorem Checked.joined_of (hApart : Apart checks db) (h : Checked py checks db d)
    (h' : Checked py checks db d') {a b : Address} (hJoined : d.Joined a b) : d'.Joined a b := by
  obtain ⟨p, hp, q, hq, rfl, rfl, hLinked⟩ := hJoined
  -- a link that was there before
  have hStays (hBefore : db.Linked p.idPage q.idPage) (hAfter : d'.Linked p.idPage q.idPage) :
      d'.Joined p.fullPath q.fullPath := by
    obtain ⟨hFrom, hTo⟩ := hApart.consistent.ends_of_linked hBefore
    exact ⟨p, h.same_page hApart h' hp hFrom, q, h.same_page hApart h' hq hTo, rfl, rfl, hAfter⟩
  by_cases hKey : p.idPage ∈ checkedKeys checks
  · obtain ⟨i, hi⟩ := hKey
    obtain ⟨site, e, hSite, hEffect, hIdentity, hLeaves⟩ := h.leaves i
    obtain ⟨site', e', hSite', hEffect', -, hLeaves'⟩ := h'.leaves i
    obtain rfl := Option.some.inj (hSite.symm.trans hSite')
    obtain rfl := Except.ok.inj (hEffect.symm.trans hEffect')
    have hRow : e.row.idPage = p.idPage := (congrArg Prod.fst hIdentity).trans hi
    have hLinks := hLeaves.links
    have hLinks' := hLeaves'.links
    cases hCase : e.links with
    | none =>
        rw [hCase, hRow, hi] at hLinks hLinks'
        have hBefore := (hLinks q.idPage).mp hLinked
        exact hStays hBefore ((hLinks' q.idPage).mpr hBefore)
    | some links =>
        rw [hCase, hRow] at hLinks hLinks'
        obtain ⟨q₁, hq₁, hId, hLinkable, url, hUrl, hAddress⟩ := (hLinks.2.targets q.idPage).mp hLinked
        obtain rfl : q₁ = q := h.confined.consistent.pages.eq hq₁ hq hId
        obtain ⟨q', hq', hSame, -⟩ := h.page_at hApart h' hq
        have hOld : ∃ p₀ ∈ db.pages, p₀.idPage = p.idPage := ⟨_, hApart.stored i, hi⟩
        refine ⟨p, h.same_page hApart h' hp hOld, q', hq', rfl, by rw [hSame]; rfl, ?_⟩
        refine (hLinks'.2.targets q'.idPage).mpr ⟨q', hq', rfl, by rw [hSame]; exact hLinkable, url, hUrl, ?_⟩
        rw [hSame]
        exact hAddress
  · have hBefore := (h.confined.linked hKey).mp hLinked
    exact hStays hBefore ((h'.confined.linked hKey).mpr hBefore)

/-- A value after one interleaving is there after the other. -/
theorem Checked.valueAt_of (hApart : Apart checks db) (h : Checked py checks db d)
    (h' : Checked py checks db d') {a : Address} {n x : Str} (hValue : d.ValueAt a n x) :
    d'.ValueAt a n x := by
  obtain ⟨p, hp, rfl, hHas⟩ := hValue
  have hStays (hOld : ∃ p₀ ∈ db.pages, p₀.idPage = p.idPage) (hAfter : d'.HasValue p.idPage n x) :
      d'.ValueAt p.fullPath n x :=
    ⟨p, h.same_page hApart h' hp hOld, rfl, hAfter⟩
  by_cases hKey : p.idPage ∈ checkedKeys checks
  · obtain ⟨i, hi⟩ := hKey
    obtain ⟨site, e, hSite, hEffect, hIdentity, hLeaves⟩ := h.leaves i
    obtain ⟨site', e', hSite', hEffect', -, hLeaves'⟩ := h'.leaves i
    obtain rfl := Option.some.inj (hSite.symm.trans hSite')
    obtain rfl := Except.ok.inj (hEffect.symm.trans hEffect')
    have hRow : e.row.idPage = p.idPage := (congrArg Prod.fst hIdentity).trans hi
    have hValues := hLeaves.values
    have hValues' := hLeaves'.values
    refine hStays ⟨_, hApart.stored i, hi⟩ ?_
    cases hCase : e.values with
    | none =>
        rw [hCase, hRow, hi] at hValues hValues'
        exact (hValues' n x).mpr ((hValues n x).mp hHas)
    | some items =>
        rw [hCase, hRow] at hValues hValues'
        exact (hValues' n x).mpr ((hValues n x).mp hHas)
  · have hBefore := (h.confined.hasValue hKey).mp hHas
    refine hStays ?_ ((h'.confined.hasValue hKey).mpr hBefore)
    obtain ⟨v, hv, hOf, -⟩ := hBefore
    obtain ⟨p₀, hp₀, hId⟩ := hApart.consistent.valuePages v hv
    exact ⟨p₀, hp₀, hId.trans hOf⟩

/-- Databases after the same checks are alike. -/
theorem Checked.alike (hApart : Apart checks db) (h : Checked py checks db d)
    (h' : Checked py checks db d') : Alike d d' where
  sites := h.confined.sites.trans h'.confined.sites.symm
  pages _ hp := by
    obtain ⟨p', hp', hSame, -⟩ := h.page_at hApart h' hp
    exact ⟨p', hp', hSame⟩
  joined _ _ := ⟨h.joined_of hApart h', h'.joined_of hApart h⟩
  values _ _ _ := ⟨h.valueAt_of hApart h', h'.valueAt_of hApart h⟩

end Checked

/-- Two interleavings of the same checks of different pages, in which all of them
return, end alike: with the same pages, links and values, but for the keys and the
creation times of new pages. Running them one after the other, in any order, is
one such interleaving. -/
theorem checks_agree {ι : Type} [DecidableEq ι] {py : Platform} {checks : ι → Check}
    {db d d' : Database} {rest rest' : ι → Session (Result Str)} (hApart : Apart checks db)
    (h : Together (fun i => (checks i).session py) db rest d)
    (h' : Together (fun i => (checks i).session py) db rest' d')
    (hDone : ∀ i, ∃ r, rest i = .done (.ok r)) (hDone' : ∀ i, ∃ r, rest' i = .done (.ok r)) :
    Alike d d' ∧ Alike d' d := by
  obtain ⟨hConfined, hEffects⟩ := checks_take_effect hApart h
  obtain ⟨hConfined', hEffects'⟩ := checks_take_effect hApart h'
  have hFirst : Checked py checks db d := ⟨hConfined, fun i => (hDone i).elim fun r => hEffects i r⟩
  have hSecond : Checked py checks db d' := ⟨hConfined', fun i => (hDone' i).elim fun r => hEffects' i r⟩
  exact ⟨hFirst.alike hApart hSecond, hSecond.alike hApart hFirst⟩

def twins : Bool → Check
  | false =>
    { page := seedPage
      isValid := fun _ _ => .ok (.success (.response ⟨200, [("content-type", "text/html")], "http://h/"⟩))
      input := { Input.scripted (.raised dataError) with get := .response [] (.ok "<html><body></body></html>") } }
  | true =>
    { page := { Page.new 1 "/b" [] with idPage := 2, createdAt := 2 }
      isValid := fun _ _ => .ok (.failure "gone" (some 404))
      input := { Input.scripted (.raised dataError) with justNow := 20 } }

def oneLink : Platform := .scripted [{ tag := "a", attrs := [("href".toList, some "/x".toList)] }]

theorem apart_twins : Apart twins .chained where
  consistent := Database.consistent_chained
  stored i := by
    cases i
    · decide
    · decide
  apart i j := by
    cases i <;> cases j <;> decide

/-- Both orders, one after the other. -/
theorem together_twins (first : Bool) : ∃ rest d,
    Together (fun i => (twins i).session oneLink) .chained rest d ∧ ∀ i, ∃ r, rest i = .done (.ok r) := by
  have hStart : Together (fun i => (twins i).session oneLink) Database.chained
      (fun i => (twins i).session oneLink) .chained := .start
  refine ⟨_, _, (hStart.runs first).runs (!first), fun i => ?_⟩
  cases first <;> cases i <;> exact ⟨_, rfl⟩

theorem checks_take_effect_twins : ∃ rest d,
    Together (fun i => (twins i).session oneLink) .chained rest d ∧
      Confined (checkedKeys twins) (fun p => ∃ i, (twins i).Adds oneLink .chained p) .chained d ∧
      ∀ i r, rest i = .done (.ok r) → (twins i).TookEffect oneLink .chained d := by
  obtain ⟨rest, d, hTogether, -⟩ := together_twins false
  exact ⟨rest, d, hTogether, checks_take_effect apart_twins hTogether⟩

theorem checks_agree_twins : ∃ d d' rest rest',
    Together (fun i => (twins i).session oneLink) .chained rest d ∧
      Together (fun i => (twins i).session oneLink) .chained rest' d' ∧ Alike d d' ∧ Alike d' d := by
  obtain ⟨rest, d, hTogether, hDone⟩ := together_twins false
  obtain ⟨rest', d', hTogether', hDone'⟩ := together_twins true
  exact ⟨d, d', rest, rest', hTogether, hTogether',
    checks_agree apart_twins hTogether hTogether' hDone hDone'⟩

end Spidercheck
