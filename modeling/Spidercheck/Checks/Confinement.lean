import Spidercheck.Checks.Upserts
import Spidercheck.Links.SelfLinks
import Spidercheck.Sites.Expunge

/-! What a check may change: the row of its page, the links that leave it, its
values, and pages that are new. Whoever is confined to other pages leaves all of
this alone, so that a check can rely on it while others are under way. -/
namespace Spidercheck

open Text Execution Relational

def Database.Keeps (db : Database) (i : Nat × Address × Bool) : Prop :=
  ∃ p ∈ db.pages, p.identity = i

/-- Only pages of the given keys are changed, with their links and values, and
new pages are as `Adds` tells. -/
structure Confined (keys : Set Nat) (Adds : Page → Prop) (db db' : Database) : Prop where
  consistent : db'.Consistent
  sites : db'.sites = db.sites
  persists : ∀ p ∈ db.pages, db'.Keeps p.identity
  kept : ∀ p ∈ db.pages, p.idPage ∉ keys → p ∈ db'.pages
  fresh : ∀ p ∈ db'.pages, p.idPage ∉ keys → p ∈ db.pages ∨ db.nextPage ≤ p.idPage ∧ Adds p
  nextPage : db.nextPage ≤ db'.nextPage
  links : ∀ l, l.fromPage ∉ keys → (l ∈ db'.links ↔ l ∈ db.links)
  values : ∀ v, v.page ∉ keys → (v ∈ db'.values ↔ v ∈ db.values)

/-- The page with its links and values is as it was, and no page has gone. -/
structure Spared (pk : Nat) (db db' : Database) : Prop where
  consistent : db'.Consistent
  sites : db'.sites = db.sites
  persists : ∀ p ∈ db.pages, db'.Keeps p.identity
  row : ∀ p ∈ db.pages, p.idPage = pk → p ∈ db'.pages
  links : ∀ l, l.fromPage = pk → (l ∈ db'.links ↔ l ∈ db.links)
  values : ∀ v, v.page = pk → (v ∈ db'.values ↔ v ∈ db.values)

/-- The others spare the page, if it is stored in a consistent database. -/
def Sparing (pk : Nat) (db db' : Database) : Prop :=
  db.Consistent → (∃ p ∈ db.pages, p.idPage = pk) → Spared pk db db'

/-- A link leads to exactly the targets of its page. -/
theorem linked_iff_mem_targetsOf {db : Database} {u v : Nat} : db.Linked u v ↔ v ∈ db.targetsOf u := by
  simp [Database.Linked, mem_targetsOf, Link.fromTo]

section Relations
variable {keys keys' : Set Nat} {Adds Adds' : Page → Prop} {pk : Nat} {s t u : Database}
  {i : Nat × Address × Bool}

theorem Database.Keeps.of_persists (h : s.Keeps i) (hPersists : ∀ p ∈ s.pages, t.Keeps p.identity) :
    t.Keeps i := by
  obtain ⟨p, hp, rfl⟩ := h
  exact hPersists p hp

theorem persists_trans (h : ∀ p ∈ s.pages, t.Keeps p.identity) (h' : ∀ p ∈ t.pages, u.Keeps p.identity) :
    ∀ p ∈ s.pages, u.Keeps p.identity :=
  fun p hp => (h p hp).of_persists h'

theorem Confined.refl (hDb : s.Consistent) : Confined keys Adds s s where
  consistent := hDb
  sites := rfl
  persists := fun p hp => ⟨p, hp, rfl⟩
  kept := fun _ hp _ => hp
  fresh := fun _ hp _ => .inl hp
  nextPage := le_rfl
  links := fun _ _ => Iff.rfl
  values := fun _ _ => Iff.rfl

/-- What is confined step by step is confined as a whole. -/
theorem Confined.trans (h : Confined keys Adds s t) (h' : Confined keys Adds t u) :
    Confined keys Adds s u where
  consistent := h'.consistent
  sites := h'.sites.trans h.sites
  persists := persists_trans h.persists h'.persists
  kept := fun p hp hOut => h'.kept p (h.kept p hp hOut) hOut
  fresh := fun p hp hOut => by
    rcases h'.fresh p hp hOut with hp | ⟨hNew, hAdds⟩
    · exact h.fresh p hp hOut
    · exact .inr ⟨h.nextPage.trans hNew, hAdds⟩
  nextPage := h.nextPage.trans h'.nextPage
  links := fun l hOut => (h'.links l hOut).trans (h.links l hOut)
  values := fun v hOut => (h'.values v hOut).trans (h.values v hOut)

/-- A change of few pages is a change of more. -/
theorem Confined.mono (h : Confined keys Adds s t) (hKeys : keys ⊆ keys') (hAdds : ∀ p, Adds p → Adds' p) :
    Confined keys' Adds' s t where
  consistent := h.consistent
  sites := h.sites
  persists := h.persists
  kept := fun p hp hOut => h.kept p hp fun hIn => hOut (hKeys hIn)
  fresh := fun p hp hOut => (h.fresh p hp fun hIn => hOut (hKeys hIn)).imp id (And.imp_right (hAdds p))
  nextPage := h.nextPage
  links := fun l hOut => h.links l fun hIn => hOut (hKeys hIn)
  values := fun v hOut => h.values v fun hIn => hOut (hKeys hIn)

theorem Spared.refl (hDb : s.Consistent) : Spared pk s s where
  consistent := hDb
  sites := rfl
  persists := fun p hp => ⟨p, hp, rfl⟩
  row := fun _ hp _ => hp
  links := fun _ _ => Iff.rfl
  values := fun _ _ => Iff.rfl

theorem sparing_reliance (pk : Nat) : Reliance (Sparing pk) where
  refl _ := fun hDb _ => Spared.refl hDb
  trans s t u h h' := fun hDb hStored => by
    have hFirst := h hDb hStored
    obtain ⟨p, hp, hKey⟩ := hStored
    have hSecond := h' hFirst.consistent ⟨p, hFirst.row p hp hKey, hKey⟩
    exact {
      consistent := hSecond.consistent
      sites := hSecond.sites.trans hFirst.sites
      persists := persists_trans hFirst.persists hSecond.persists
      row := fun p hp hKey => hSecond.row p (hFirst.row p hp hKey) hKey
      links := fun l hFrom => (hSecond.links l hFrom).trans (hFirst.links l hFrom)
      values := fun v hOf => (hSecond.values v hOf).trans (hFirst.values v hOf) }

/-- Whoever is confined to other pages spares this one. -/
theorem Confined.sparing (h : Confined keys Adds s t) (hOut : pk ∉ keys) : Sparing pk s t :=
  fun _ _ => {
    consistent := h.consistent
    sites := h.sites
    persists := h.persists
    row := fun p hp hKey => h.kept p hp (hKey ▸ hOut)
    links := fun l hFrom => h.links l (hFrom ▸ hOut)
    values := fun v hOf => h.values v (hOf ▸ hOut) }

end Relations

structure Area (sites : List Site) (row : Page) (targets : Nat → Prop) (values : Str → Str → Prop)
    (db : Database) : Prop where
  consistent : db.Consistent
  siteTable : db.sites = sites
  stored : row ∈ db.pages
  linked : ∀ q, db.Linked row.idPage q ↔ targets q
  valued : ∀ n x, db.HasValue row.idPage n x ↔ values n x

section Area
variable {sites : List Site} {row row' : Page} {targets : Nat → Prop} {values : Str → Str → Prop}
  {Adds : Page → Prop} {db db' s t : Database} {keys : Set Nat}

/-- The area of the page in a consistent database. -/
theorem Database.Consistent.area (hDb : db.Consistent) (hRow : row ∈ db.pages) :
    Area db.sites row (db.Linked row.idPage) (db.HasValue row.idPage) db :=
  ⟨hDb, rfl, hRow, fun _ => Iff.rfl, fun _ _ => Iff.rfl⟩

theorem Area.hasPage (h : Area sites row targets values db) : ∃ p ∈ db.pages, p.idPage = row.idPage :=
  ⟨row, h.stored, rfl⟩

/-- The others leave the area alone. -/
theorem Area.later (h : Area sites row targets values s) (hOthers : Sparing row.idPage s t) :
    Area sites row targets values t := by
  have hSpared := hOthers h.consistent h.hasPage
  refine ⟨hSpared.consistent, hSpared.sites.trans h.siteTable, hSpared.row row h.stored rfl,
    fun q => ?_, fun n x => ?_⟩
  · rw [← h.linked]
    constructor
    · rintro ⟨l, hl, hEnds⟩
      exact ⟨l, (hSpared.links l (congrArg Prod.fst hEnds)).mp hl, hEnds⟩
    · rintro ⟨l, hl, hEnds⟩
      exact ⟨l, (hSpared.links l (congrArg Prod.fst hEnds)).mpr hl, hEnds⟩
  · rw [← h.valued]
    constructor
    · rintro ⟨v, hv, hOf, hRest⟩
      exact ⟨v, (hSpared.values v hOf).mp hv, hOf, hRest⟩
    · rintro ⟨v, hv, hOf, hRest⟩
      exact ⟨v, (hSpared.values v hOf).mpr hv, hOf, hRest⟩

/-- Pages that were stored remain stored, whoever writes. -/
def Persisting (pk : Nat) (db db' : Database) : Prop :=
  db.Consistent → (∃ p ∈ db.pages, p.idPage = pk) →
    db'.Consistent ∧ (∃ p ∈ db'.pages, p.idPage = pk) ∧ ∀ p ∈ db.pages, db'.Keeps p.identity

theorem stored_of_keeps {pk : Nat} (h : ∃ p ∈ s.pages, p.idPage = pk)
    (hPersists : ∀ p ∈ s.pages, t.Keeps p.identity) : ∃ p ∈ t.pages, p.idPage = pk := by
  obtain ⟨p, hp, rfl⟩ := h
  obtain ⟨p', hp', hSame⟩ := hPersists p hp
  exact ⟨p', hp', congrArg Prod.fst hSame⟩

theorem persisting_reliance (pk : Nat) : Reliance (Persisting pk) where
  refl _ := fun hDb hStored => ⟨hDb, hStored, fun p hp => ⟨p, hp, rfl⟩⟩
  trans s t u h h' := fun hDb hStored => by
    obtain ⟨ht, hStored', hPersists⟩ := h hDb hStored
    obtain ⟨hu, hStored'', hPersists'⟩ := h' ht hStored'
    exact ⟨hu, hStored'', persists_trans hPersists hPersists'⟩

/-- A confined change loses no stored page. -/
theorem Confined.persisting (h : Confined keys Adds s t) (pk : Nat) : Persisting pk s t :=
  fun _ hStored => ⟨h.consistent, stored_of_keeps hStored h.persists, h.persists⟩

/-- Others that spare the page do not lose it. -/
theorem Sparing.persisting {pk : Nat} (h : Sparing pk s t) : Persisting pk s t := fun hDb hStored => by
  have hSpared := h hDb hStored
  exact ⟨hSpared.consistent, stored_of_keeps hStored hSpared.persists, hSpared.persists⟩

end Area

section Statements
variable {sites : List Site} {row row' : Page} {targets : Nat → Prop} {values : Str → Str → Prop}
  {Adds : Page → Prop} {db db' s t : Database} {stamp : Nat → Time}

/-- What a session of the page guarantees. -/
abbrev Alone (Adds : Page → Prop) (row : Page) {Returned : Type} (p : Session Returned)
    (returned : Returned → Database → Prop) (s : Database) : Prop :=
  p.Guarantees (Sparing row.idPage) (Confined {row.idPage} Adds) (Ends returned fun _ _ => True) s

/-- A new row of the page changes its area by that row only. -/
theorem Area.rewrite (h : Area sites row targets values db) (hSame : row'.identity = row.identity)
    (hEnd : (db.rewrite row').Consistent) :
    Confined {row.idPage} Adds db (db.rewrite row') ∧ Area sites row' targets values (db.rewrite row') := by
  have hKey : row'.idPage = row.idPage := congrArg Prod.fst hSame
  have hMem : row' ∈ (db.rewrite row').pages := Database.mem_rewrite h.stored hKey.symm
  have hOther {p : Page} (hp : p ∈ db.pages) (hNe : p.idPage ≠ row.idPage) : p ∈ (db.rewrite row').pages :=
    mem_replace.mpr (.inr ⟨hp, hKey ▸ hNe⟩)
  refine ⟨{
    consistent := hEnd
    sites := rfl
    persists := fun p hp => ?_
    kept := fun p hp hNe => hOther hp hNe
    fresh := fun p hp hNe => ?_
    nextPage := le_rfl
    links := fun _ _ => Iff.rfl
    values := fun _ _ => Iff.rfl }, hEnd, h.siteTable, hMem, hKey ▸ h.linked, hKey ▸ h.valued⟩
  · by_cases hMine : p.idPage = row.idPage
    · rw [h.consistent.pages.eq hp h.stored hMine]
      exact ⟨row', hMem, hSame⟩
    · exact ⟨p, hOther hp hMine, rfl⟩
  · rcases mem_replace.mp hp with ⟨rfl, -⟩ | ⟨hp, -⟩
    · exact absurd hKey hNe
    · exact .inl hp

theorem Area.savePage (h : Area sites row targets values s) (hSame : row'.identity = row.identity) :
    Alone Adds row (Session.savePage stamp row') (fun _ t => Area sites row' targets values t) s := by
  have hUpdate : Alone Adds row (Program.statement { verb := .update, table := .page } fun db =>
      db.updatePage row' : Session Bool) (fun matched t => matched = true ∧ Area sites row' targets values t) s := by
    refine Program.guarantees_statement fun t ht => ?_
    have hArea : Area sites row targets values t := h.later ht
    have hStored : ∃ p ∈ t.pages, p.idPage = row'.idPage ∧ p.fullPath = row'.fullPath :=
      ⟨row, hArea.stored, (congrArg Prod.fst hSame).symm, (congrArg (fun i => i.2.1) hSame).symm⟩
    have hEnd : (t.updatePage row').2.Consistent := hArea.consistent.updatePage row'
    rw [hArea.consistent.updatePage_of_stored hStored] at hEnd ⊢
    by_cases hFits : row'.fits = true
    · rw [if_pos hFits] at hEnd ⊢
      obtain ⟨hOwn, hAfter⟩ := hArea.rewrite hSame hEnd
      exact ⟨hOwn, rfl, hAfter⟩
    · rw [if_neg hFits]
      exact ⟨Confined.refl hArea.consistent, trivial⟩
  refine hUpdate.bind ?_ fun _ _ _ => trivial
  rintro matched t ⟨rfl, hArea⟩
  exact Program.guarantees_pure hArea

/-- A new page elsewhere leaves the area as it is. -/
theorem Area.addRow {new : Page} (h : Area sites row targets values db) (hKey : new.idPage = db.nextPage)
    (hAdds : Adds new) (hEnd : (db.addRow new).Consistent) :
    Confined {row.idPage} Adds db (db.addRow new) ∧ Area sites row targets values (db.addRow new) := by
  refine ⟨{
    consistent := hEnd
    sites := rfl
    persists := fun p hp => ⟨p, List.mem_append_left _ hp, rfl⟩
    kept := fun p hp _ => List.mem_append_left _ hp
    fresh := fun p hp _ => (List.mem_append.mp hp).imp id fun hp => ?_
    nextPage := ?_
    links := fun _ _ => Iff.rfl
    values := fun _ _ => Iff.rfl }, hEnd, h.siteTable, List.mem_append_left _ h.stored, h.linked, h.valued⟩
  · obtain rfl := List.mem_singleton.mp hp
    exact ⟨hKey.ge, hAdds⟩
  · show db.nextPage ≤ new.idPage + 1
    omega

/-- The page that `add_page` finds or creates for an address. -/
theorem Area.loadOrCreate (h : Area sites row targets values s) {site : Site} (hSite : site ∈ sites)
    {subpath params : Str} (hAdds : ∀ pk, Adds (site.newRow stamp subpath params pk)) :
    Alone Adds row (site.loadOrCreate stamp subpath params) (fun found t =>
      Area sites row targets values t ∧ found.1 ∈ t.pages ∧
        found.1.fullPath = (site.idSite, subpath, params)) s := by
  let first (db : Database) : Option Page := firstBy Page.createdAt
    ((db.pagesOf site).filter fun p => p.subpath == subpath && p.params == params)
  have hLook : Alone Adds row (Session.selectFrom .page first) (fun found t =>
      Area sites row targets values t ∧ found = t.pageAt site subpath params) s := by
    refine Program.guarantees_select fun t ht => ?_
    have hArea : Area sites row targets values t := h.later ht
    exact ⟨Confined.refl hArea.consistent, hArea, hArea.consistent.first_eq_pageAt⟩
  refine hLook.bind ?_ fun _ _ _ => trivial
  rintro found t ⟨hArea, rfl⟩
  cases hFound : t.pageAt site subpath params with
  | some page => exact Program.guarantees_pure ⟨hArea, Database.mem_of_pageAt hFound⟩
  | none =>
      have hInsert : Alone Adds row (Session.insertPage stamp (Page.new site.idSite subpath params))
          (fun page u => Area sites row targets values u ∧ page ∈ u.pages ∧
            page.fullPath = (site.idSite, subpath, params)) t := by
        refine Program.guarantees_statement fun u hu => ?_
        have hNow : Area sites row targets values u := hArea.later hu
        cases hAgain : u.pageAt site subpath params with
        | some other =>
            -- somebody else was faster: the row violates the unique path
            obtain ⟨hMem, hPath⟩ := Database.mem_of_pageAt hAgain
            obtain ⟨e, hReject⟩ | hAccept := u.insertPage_cases stamp u.nextPage
              (Page.new site.idSite subpath params)
            · rw [hReject]
              exact ⟨Confined.refl hNow.consistent, trivial⟩
            · have hEnd := hNow.consistent.insertPage stamp u.nextPage (Page.new site.idSite subpath params)
              rw [hAccept] at hEnd
              have hSame := hEnd.fullPaths.eq (List.mem_append_left _ hMem)
                (List.mem_append_right _ (List.mem_singleton_self _)) hPath
              have hFresh : other.idPage < u.nextPage := hNow.consistent.pagesFresh other hMem
              have hKey : other.idPage = u.nextPage := congrArg Page.idPage hSame
              omega
        | none =>
            have hStored : site ∈ u.sites := hNow.siteTable ▸ hSite
            have hEnd := hNow.consistent.insertPage stamp u.nextPage (Page.new site.idSite subpath params)
            rw [hNow.consistent.insertPage_new hStored hAgain] at hEnd ⊢
            by_cases hFits : (u.newPage stamp site subpath params).fits = true
            · rw [if_pos hFits] at hEnd ⊢
              obtain ⟨hOwn, hAfter⟩ := hNow.addRow (by rfl) (hAdds u.nextPage) hEnd
              exact ⟨hOwn, hAfter, List.mem_append_right _ (List.mem_singleton_self _), rfl⟩
            · rw [if_neg hFits]
              exact ⟨Confined.refl hNow.consistent, trivial⟩
      refine hInsert.bind (fun page u hEnd => ?_) fun _ _ _ => trivial
      exact Program.guarantees_pure hEnd

/-- A new link of the page adds one target. -/
theorem Area.addLink (h : Area sites row targets values db) {l : Link} (hFrom : l.fromPage = row.idPage)
    {nextLink : Nat} (hEnd : (db.withLinks (db.links ++ [l]) nextLink).Consistent) :
    Confined {row.idPage} Adds db (db.withLinks (db.links ++ [l]) nextLink) ∧
      Area sites row (fun q => targets q ∨ q = l.toPage) values (db.withLinks (db.links ++ [l]) nextLink) := by
  refine ⟨{
    consistent := hEnd
    sites := rfl
    persists := fun p hp => ⟨p, hp, rfl⟩
    kept := fun _ hp _ => hp
    fresh := fun _ hp _ => .inl hp
    nextPage := le_rfl
    links := fun other hOut => ?_
    values := fun _ _ => Iff.rfl }, hEnd, h.siteTable, h.stored, fun q => ?_, h.valued⟩
  · show other ∈ db.links ++ [l] ↔ other ∈ db.links
    rw [List.mem_append, List.mem_singleton]
    refine or_iff_left ?_
    rintro rfl
    exact hOut hFrom
  · rw [← h.linked]
    show (∃ other ∈ db.links ++ [l], other.fromTo = (row.idPage, q)) ↔ _
    constructor
    · rintro ⟨other, hOther, hEnds⟩
      rcases List.mem_append.mp hOther with hOther | hOther
      · exact .inl ⟨other, hOther, hEnds⟩
      · obtain rfl := List.mem_singleton.mp hOther
        exact .inr (Prod.mk.inj hEnds).2.symm
    · rintro (⟨other, hOther, hEnds⟩ | rfl)
      · exact ⟨other, List.mem_append_left _ hOther, hEnds⟩
      · exact ⟨l, List.mem_append_right _ (List.mem_singleton_self _), Prod.ext hFrom rfl⟩

/-- `get_or_create` of a link from the page. -/
theorem Area.linkTo (h : Area sites row targets values s) (to' : Nat) :
    Alone Adds row (Session.getOrCreate .link
      (fun db => db.links.find? fun l => l.fromPage == row.idPage && l.toPage == to')
      (Session.insertLink row.idPage to'))
      (fun _ t => Area sites row (fun q => targets q ∨ q = to') values t) s := by
  let Good (_ : Link) (t : Database) : Prop := Area sites row (fun q => targets q ∨ q = to') values t
  let Failed (_ : PyError) (t : Database) : Prop := Area sites row targets values t
  have hSound (t : Database) (hArea : Area sites row targets values t) (l : Link)
      (hFind : (t.links.find? fun l => l.fromPage == row.idPage && l.toPage == to') = some l) : Good l t := by
    have hEnds : l.fromPage = row.idPage ∧ l.toPage = to' := by simpa using List.find?_some hFind
    have hThere : targets to' :=
      (hArea.linked to').mp ⟨l, List.mem_of_find?_eq_some hFind, Prod.ext hEnds.1 hEnds.2⟩
    refine ⟨hArea.consistent, hArea.siteTable, hArea.stored, fun q => ?_, hArea.valued⟩
    rw [hArea.linked]
    exact (or_iff_left_of_imp fun hq => hq ▸ hThere).symm
  refine guarantees_getOrCreate Good Failed (fun t ht => ?_) (fun t ht _ => ?_) (fun _ _ _ _ => trivial)
    fun e t u ht _ hu => ?_
  · exact ⟨Confined.refl (h.later ht).consistent, hSound t (h.later ht)⟩
  · refine Program.guarantees_statement fun u hu => ?_
    have hArea : Area sites row targets values u := (h.later ht).later hu
    let l : Link := { idLink := u.nextLink, fromPage := row.idPage, toPage := to' }
    have hEnd : (u.insertLink row.idPage to').2.Consistent := hArea.consistent.insertLink row.idPage to'
    obtain ⟨e, hReject⟩ | hAccept : (∃ e, u.insertLink row.idPage to' = (.error e, u)) ∨
        u.insertLink row.idPage to' = (.ok l, u.withLinks (u.links ++ [l]) (u.nextLink + 1)) :=
      Database.accept_cases ..
    · rw [hReject]
      exact ⟨Confined.refl hArea.consistent, hArea⟩
    · rw [hAccept] at hEnd ⊢
      exact hArea.addLink (by rfl) hEnd
  · have hArea : Area sites row targets values u := Area.later ht hu
    exact ⟨Confined.refl hArea.consistent, hSound u hArea, fun _ => trivial⟩

/-- Links that leave the page are deleted. -/
theorem Area.deleteLinks (h : Area sites row targets values s) (doomed : Link → Bool) (gone : Nat → Bool)
    (hDoomed : ∀ l, doomed l = (l.fromPage == row.idPage && gone l.toPage)) :
    Alone Adds row (Session.deleteLinks doomed)
      (fun _ t => Area sites row (fun q => targets q ∧ gone q = false) values t) s := by
  refine Program.guarantees_statement fun t ht => ?_
  have hArea : Area sites row targets values t := h.later ht
  have hEnd : (t.deleteLinks doomed).Consistent := hArea.consistent.deleteLinks doomed
  have hMem (l : Link) : l ∈ (t.deleteLinks doomed).links ↔
      l ∈ t.links ∧ (l.fromPage = row.idPage → gone l.toPage = false) := by
    simp [Database.deleteLinks, hDoomed, imp_iff_not_or]
  refine ⟨{
    consistent := hEnd
    sites := rfl
    persists := fun p hp => ⟨p, hp, rfl⟩
    kept := fun _ hp _ => hp
    fresh := fun _ hp _ => .inl hp
    nextPage := le_rfl
    links := fun l hOut => (hMem l).trans (and_iff_left fun hFrom => absurd hFrom hOut)
    values := fun _ _ => Iff.rfl }, hEnd, hArea.siteTable, hArea.stored, fun q => ?_, hArea.valued⟩
  rw [← hArea.linked]
  constructor
  · rintro ⟨l, hl, hEnds⟩
    obtain ⟨hl, hKept⟩ := (hMem l).mp hl
    obtain ⟨hFrom, rfl⟩ := Prod.mk.inj hEnds
    exact ⟨⟨l, hl, hEnds⟩, hKept hFrom⟩
  · rintro ⟨⟨l, hl, hEnds⟩, hKept⟩
    obtain ⟨-, rfl⟩ := Prod.mk.inj hEnds
    exact ⟨l, (hMem l).mpr ⟨hl, fun _ => hKept⟩, hEnds⟩

/-- A deletion among the values of the page takes the names that it says. -/
theorem Area.deleteValues (h : Area sites row targets values s) (doomed : Value → Bool) (gone : Str → Bool)
    (hDoomed : ∀ v, doomed v = (v.page == row.idPage && gone v.name)) :
    Alone Adds row (Session.deleteValues doomed)
      (fun _ t => Area sites row targets (fun n x => values n x ∧ gone n = false) t) s := by
  refine Program.guarantees_statement fun t ht => ?_
  have hArea : Area sites row targets values t := h.later ht
  have hEnd : (t.deleteValues doomed).Consistent := hArea.consistent.deleteValues doomed
  have hMem (v : Value) : v ∈ (t.deleteValues doomed).values ↔
      v ∈ t.values ∧ (v.page = row.idPage → gone v.name = false) := by
    simp [Database.deleteValues, hDoomed, imp_iff_not_or]
  refine ⟨{
    consistent := hEnd
    sites := rfl
    persists := fun p hp => ⟨p, hp, rfl⟩
    kept := fun _ hp _ => hp
    fresh := fun _ hp _ => .inl hp
    nextPage := le_rfl
    links := fun _ _ => Iff.rfl
    values := fun v hOut => (hMem v).trans (and_iff_left fun hOf => absurd hOf hOut) },
    hEnd, hArea.siteTable, hArea.stored, hArea.linked, fun n x => ?_⟩
  rw [← hArea.valued]
  constructor
  · rintro ⟨v, hv, hOf, rfl, rfl⟩
    obtain ⟨hv, hKept⟩ := (hMem v).mp hv
    exact ⟨⟨v, hv, hOf, rfl, rfl⟩, hKept hOf⟩
  · rintro ⟨⟨v, hv, hOf, rfl, rfl⟩, hKept⟩
    exact ⟨v, (hMem v).mpr ⟨hv, fun _ => hKept⟩, hOf, rfl, rfl⟩

def Beside (name : Str) (values values' : Str → Str → Prop) : Prop :=
  ∀ n x, n ≠ name → (values' n x ↔ values n x)

/-- A new value of the page sets its name. -/
theorem Area.addValue (h : Area sites row targets values db) {v : Value} (hOf : v.page = row.idPage)
    {nextValue : Nat} (hEnd : Database.Consistent { db with values := db.values ++ [v], nextValue := nextValue }) :
    Confined {row.idPage} Adds db { db with values := db.values ++ [v], nextValue := nextValue } ∧
      ∃ values', Beside v.name values values' ∧
        Area sites row targets values' { db with values := db.values ++ [v], nextValue := nextValue } := by
  refine ⟨{
    consistent := hEnd
    sites := rfl
    persists := fun p hp => ⟨p, hp, rfl⟩
    kept := fun _ hp _ => hp
    fresh := fun _ hp _ => .inl hp
    nextPage := le_rfl
    links := fun _ _ => Iff.rfl
    values := fun other hOut => ?_ },
    Database.HasValue { db with values := db.values ++ [v], nextValue := nextValue } row.idPage,
    fun n x hNe => ?_, hEnd, h.siteTable, h.stored, h.linked, fun _ _ => Iff.rfl⟩
  · show other ∈ db.values ++ [v] ↔ other ∈ db.values
    rw [List.mem_append, List.mem_singleton]
    refine or_iff_left ?_
    rintro rfl
    exact hOut hOf
  · rw [← h.valued]
    constructor
    · rintro ⟨other, hOther, hRest⟩
      rcases List.mem_append.mp hOther with hOther | hOther
      · exact ⟨other, hOther, hRest⟩
      · obtain rfl := List.mem_singleton.mp hOther
        exact absurd hRest.2.1.symm hNe
    · rintro ⟨other, hOther, hRest⟩
      exact ⟨other, List.mem_append_left _ hOther, hRest⟩

/-- The row of a value of the page, found or created. -/
theorem Area.named (h : Area sites row targets values s) (name : Str) :
    Alone Adds row (Session.getOrCreate .value (Value.named row name) (Session.insertValue row.idPage name []))
      (fun found t => found.1 ∈ t.values ∧ found.1.naturalKey = (row.idPage, name) ∧
        ∃ values', Beside name values values' ∧ Area sites row targets values' t) s := by
  let Good (v : Value) (t : Database) : Prop := v ∈ t.values ∧ v.naturalKey = (row.idPage, name) ∧
    ∃ values', Beside name values values' ∧ Area sites row targets values' t
  let Failed (_ : PyError) (t : Database) : Prop := Area sites row targets values t
  have hSound (t : Database) (hArea : Area sites row targets values t) (v : Value)
      (hFind : Value.named row name t = some v) : Good v t :=
    ⟨(Value.named_eq_some hFind).1, (Value.named_eq_some hFind).2, values, fun _ _ _ => Iff.rfl, hArea⟩
  refine guarantees_getOrCreate Good Failed (fun t ht => ?_) (fun t ht _ => ?_) (fun _ _ _ _ => trivial)
    fun e t u ht _ hu => ?_
  · exact ⟨Confined.refl (h.later ht).consistent, hSound t (h.later ht)⟩
  · refine Program.guarantees_statement fun u hu => ?_
    have hArea : Area sites row targets values u := (h.later ht).later hu
    let v : Value := { idValue := u.nextValue, page := row.idPage, name := name, value := [] }
    have hEnd : (u.insertValue v).2.Consistent := hArea.consistent.insertValue v
    obtain ⟨e, hReject⟩ | hAccept : (∃ e, u.insertValue v = (.error e, u)) ∨ u.insertValue v =
        (.ok v, { u with values := u.values ++ [v], nextValue := max u.nextValue (u.nextValue + 1) }) :=
      Database.accept_cases ..
    · rw [hReject]
      exact ⟨Confined.refl hArea.consistent, hArea⟩
    · rw [hAccept] at hEnd ⊢
      obtain ⟨hOwn, hAfter⟩ := hArea.addValue (by rfl) hEnd
      exact ⟨hOwn, List.mem_append_right _ (List.mem_singleton_self _), rfl, hAfter⟩
  · have hArea : Area sites row targets values u := Area.later ht hu
    exact ⟨Confined.refl hArea.consistent, hSound u hArea, fun _ => trivial⟩

def setValue (name value : Str) (values : Str → Str → Prop) : Str → Str → Prop :=
  fun n x => if n = name then x = value else values n x

/-- A saved value of the page sets its name. -/
theorem Area.replaceValue (h : Area sites row targets values db) {v : Value} (hv : v ∈ db.values)
    (hOf : v.page = row.idPage) (value : Str)
    (hEnd : Database.Consistent { db with values := replace Value.idValue { v with value := value } db.values }) :
    Confined {row.idPage} Adds db { db with values := replace Value.idValue { v with value := value } db.values } ∧
      Area sites row targets (setValue v.name value values)
        { db with values := replace Value.idValue { v with value := value } db.values } := by
  refine ⟨{
    consistent := hEnd
    sites := rfl
    persists := fun p hp => ⟨p, hp, rfl⟩
    kept := fun _ hp _ => hp
    fresh := fun _ hp _ => .inl hp
    nextPage := le_rfl
    links := fun _ _ => Iff.rfl
    values := fun other hOut => ?_ }, hEnd, h.siteTable, h.stored, h.linked, fun n x => ?_⟩
  · rw [mem_replace]
    constructor
    · rintro (⟨rfl, -⟩ | ⟨hOther, -⟩)
      · exact absurd hOf hOut
      · exact hOther
    · refine fun hOther => .inr ⟨hOther, fun hKey => hOut ?_⟩
      rw [h.consistent.values.eq hOther hv hKey]
      exact hOf
  · rw [← hOf, hasValue_replace h.consistent hv, setValue, hOf, h.valued]

/-- An `upsert` of a value of the page. -/
theorem Area.upsert (h : Area sites row targets values s) (name value : Str) :
    Alone Adds row (Value.upsert row name value)
      (fun _ t => Area sites row targets (setValue name value values) t) s := by
  refine (h.named name).bind ?_ fun _ _ _ => trivial
  rintro ⟨v, created⟩ t ⟨hv, hKey, values', hBeside, hArea⟩
  obtain ⟨hOf, hName⟩ : v.page = row.idPage ∧ v.name = name := Prod.mk.inj hKey
  have hUpdate : Alone Adds row (Program.statement { verb := .update, table := .value } fun db =>
      db.updateValue { v with value := value } : Session Bool)
      (fun matched u => matched = true ∧ Area sites row targets (setValue name value values) u) t := by
    refine Program.guarantees_statement fun u hu => ?_
    have hNow : Area sites row targets values' u := hArea.later hu
    have hIn : v ∈ u.values := ((hu hArea.consistent hArea.hasPage).values v hOf).mpr hv
    have hTaken : u.values.any (·.idValue == v.idValue) = true := List.any_eq_true.mpr ⟨v, hIn, by simp⟩
    have hEnd := hNow.consistent.updateValue { v with value := value }
    rw [Database.updateValue, if_pos hTaken] at hEnd ⊢
    cases hViolation : u.valueViolation { v with value := value } with
    | some e => exact ⟨Confined.refl hNow.consistent, trivial⟩
    | none =>
        rw [hViolation] at hEnd
        obtain ⟨hOwn, hAfter⟩ := hNow.replaceValue hIn hOf value hEnd
        refine ⟨hOwn, rfl, hAfter.consistent, hAfter.siteTable, hAfter.stored, hAfter.linked, fun n x => ?_⟩
        refine (hAfter.valued n x).trans ?_
        rw [setValue, setValue, hName]
        by_cases hSame : n = name
        · rw [if_pos hSame, if_pos hSame]
        · rw [if_neg hSame, if_neg hSame, hBeside n x hSame]
  refine hUpdate.bind ?_ fun _ _ _ => trivial
  rintro matched u ⟨rfl, hEnd⟩
  exact Program.guarantees_pure hEnd

end Statements

end Spidercheck
