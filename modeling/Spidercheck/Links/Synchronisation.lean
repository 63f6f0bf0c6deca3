import Spidercheck.Model.Operations
import Mathlib.Data.Finset.Image

/-! Link synchronisation. The loop of `_update_links` creates pages and links
one after another, but on the pages it does just what `add_page` does, and on
the links it only appends. After the deletion at the end the targets of the
page are those of its links, and a second round changes nothing. -/
namespace Spidercheck

open Text Url Execution Relational

variable {py : Platform} {stamp : Nat → Time} {db : Database} {site : Site} {page : Page}

def Site.addPages (py : Platform) (stamp : Nat → Time) (site : Site) (links : List Str) :
    Session (List Page) :=
  links.mapM fun url => do
    let added ← site.addPage py stamp url
    return added.1

def linkable (targets : List Page) : Finset Nat :=
  ((targets.filter (·.isLinkable)).map (·.idPage)).toFinset

@[simp] theorem linkable_nil : linkable [] = ∅ := rfl

theorem linkable_singleton (target : Page) :
    linkable [target] = if target.isLinkable then {target.idPage} else ∅ := by
  cases hLinkable : target.isLinkable <;> simp [linkable, hLinkable]

/-- The keys of the linkable targets, one target after another. -/
theorem linkable_cons (target : Page) (rest : List Page) :
    linkable (target :: rest) = linkable [target] ∪ linkable rest := by
  cases hLinkable : target.isLinkable <;> simp [linkable, hLinkable]

def Database.withLinks (db : Database) (links : List Link) (nextLink : Nat) : Database :=
  { db with links := links, nextLink := nextLink }

@[simp] theorem withLinks_nextPage (links : List Link) (nextLink : Nat) :
    (db.withLinks links nextLink).nextPage = db.nextPage := rfl

/-- Inserting a page does not look at the links. -/
theorem insertPage_withLinks (pk : Nat) (row : Page) (links : List Link) (nextLink : Nat) :
    (db.withLinks links nextLink).insertPage stamp pk row =
      ((db.insertPage stamp pk row).1, (db.insertPage stamp pk row).2.withLinks links nextLink) := by
  have hAccept (v : Option PyError) (new : Page) (db' : Database) :
      accept v (db.withLinks links nextLink) new (db'.withLinks links nextLink) =
        ((accept v db new db').1, (accept v db new db').2.withLinks links nextLink) := by
    cases v with
    | none => rfl
    | some e => rfl
  let new : Page := { row with idPage := pk, createdAt := stamp pk }
  exact hAccept (if db.hasPage pk then some uniqueError else db.pageViolation new) new
    { db with pages := db.pages ++ [new], nextPage := max db.nextPage (pk + 1) }

theorem run_loadOrCreate_withLinks (subpath params : Str) (links : List Link) (nextLink : Nat) :
    (site.loadOrCreate stamp subpath params).run (db.withLinks links nextLink) =
      (((site.loadOrCreate stamp subpath params).run db).1,
        ((site.loadOrCreate stamp subpath params).run db).2.withLinks links nextLink) := by
  have hPages : (db.withLinks links nextLink).pagesOf site = db.pagesOf site := rfl
  simp only [Site.loadOrCreate, Session.selectFrom, Program.run_select_bind, hPages]
  cases firstBy Page.createdAt
      ((db.pagesOf site).filter fun p => p.subpath == subpath && p.params == params) with
  | some found => rfl
  | none =>
      simp only [Program.run_bind, Session.insertPage, Program.run_statement]
      rw [insertPage_withLinks, withLinks_nextPage]
      rcases db.insertPage stamp db.nextPage (Page.new site.idSite subpath params) with ⟨_ | row, db'⟩
      · rfl
      · rfl

/-- `add_page` does not look at the links. -/
theorem run_addPage_withLinks (url : Str) (links : List Link) (nextLink : Nat) :
    (site.addPage py stamp url).run (db.withLinks links nextLink) =
      (((site.addPage py stamp url).run db).1,
        ((site.addPage py stamp url).run db).2.withLinks links nextLink) := by
  unfold Site.addPage
  cases urlparse py.netlocCheck url [] with
  | none => rfl
  | some info => exact run_loadOrCreate_withLinks info.path info.query links nextLink

theorem run_addPages_cons (url : Str) (links : List Str) :
    (site.addPages py stamp (url :: links)).run db =
      match (site.addPage py stamp url).run db with
      | (.error e, t) => (.error e, t)
      | (.ok (target, _), t) =>
        match (site.addPages py stamp links).run t with
        | (.error e, u) => (.error e, u)
        | (.ok targets, u) => (.ok (target :: targets), u) := by
  rw [Site.addPages, List.mapM_cons, Program.run_bind, Program.run_bind]
  rcases (site.addPage py stamp url).run db with ⟨_ | ⟨target, created⟩, t⟩
  · rfl
  · simp only [Program.run_pure, Program.run_bind, Site.addPages]
    rcases Program.run (List.mapM _ links) t with ⟨_ | targets, u⟩
    · rfl
    · rfl

/-- Links from a page were appended, and now there is one to each of the targets. -/
def Grown (from' : Nat) (targets : Finset Nat) (before after : List Link) : Prop :=
  (∃ new, after = before ++ new ∧ ∀ l ∈ new, l.fromPage = from' ∧ l.toPage ∈ targets) ∧
    ∀ t ∈ targets, ∃ l ∈ after, l.fromTo = (from', t)

theorem Grown.refl (from' : Nat) (links : List Link) : Grown from' ∅ links links :=
  ⟨⟨[], by simp⟩, by simp⟩

/-- Links that have grown twice have grown. -/
theorem Grown.trans {from' : Nat} {first second : Finset Nat} {before middle after : List Link}
    (h : Grown from' first before middle) (h' : Grown from' second middle after) :
    Grown from' (first ∪ second) before after := by
  obtain ⟨⟨new, rfl, hNew⟩, hHas⟩ := h
  obtain ⟨⟨new', rfl, hNew'⟩, hHas'⟩ := h'
  refine ⟨⟨new ++ new', by simp, ?_⟩, ?_⟩
  · intro l hl
    rcases List.mem_append.mp hl with hl | hl
    · exact ⟨(hNew l hl).1, Finset.mem_union_left _ (hNew l hl).2⟩
    · exact ⟨(hNew' l hl).1, Finset.mem_union_right _ (hNew' l hl).2⟩
  · intro t ht
    rcases Finset.mem_union.mp ht with ht | ht
    · obtain ⟨l, hl, hEq⟩ := hHas t ht
      exact ⟨l, List.mem_append_left _ hl, hEq⟩
    · exact hHas' t ht

/-- `get_or_create` of a link between two stored pages. -/
theorem run_linkTo {from' to' : Nat} (hFrom : db.hasPage from' = true) (hTo : db.hasPage to' = true) :
    ∃ row created links nextLink, (Session.getOrCreate .link
      (fun db => db.links.find? fun l => l.fromPage == from' && l.toPage == to')
      (Session.insertLink from' to')).run db =
        (.ok (row, created), db.withLinks links nextLink) ∧ Grown from' {to'} db.links links := by
  rw [Session.getOrCreate, Session.selectFrom, Program.run_select_bind]
  cases hFind : db.links.find? fun l => l.fromPage == from' && l.toPage == to' with
  | some row =>
      have hRow : row.fromTo = (from', to') := by
        simpa [Link.fromTo] using List.find?_some hFind
      refine ⟨row, false, db.links, db.nextLink, rfl, ⟨[], by simp⟩, ?_⟩
      intro t ht
      rw [Finset.mem_singleton.mp ht]
      exact ⟨row, List.mem_of_find?_eq_some hFind, hRow⟩
  | none =>
      let row : Link := { idLink := db.nextLink, fromPage := from', toPage := to' }
      have hNew : ∀ l ∈ db.links, l.fromTo ≠ row.fromTo := by
        intro l hl hEq
        obtain ⟨hEqFrom, hEqTo⟩ : l.fromPage = from' ∧ l.toPage = to' := by
          simpa [Link.fromTo, row] using hEq
        simpa [hEqFrom, hEqTo] using List.find?_eq_none.mp hFind l hl
      have hViolation : db.linkViolation row = none :=
        Database.linkViolation_eq_none.mpr
          ⟨Database.hasPage_iff.mp hFrom, Database.hasPage_iff.mp hTo, hNew⟩
      have hInsert : db.insertLink from' to' =
          (.ok row, db.withLinks (db.links ++ [row]) (db.nextLink + 1)) := by
        change accept (db.linkViolation row) db row _ = _
        rw [hViolation]
        rfl
      refine ⟨row, true, db.links ++ [row], db.nextLink + 1, ?_, ⟨[row], rfl, ?_⟩, ?_⟩
      · rw [Program.run_attempt, Program.run_bind, Session.insertLink, Program.run_statement, hInsert]
        rfl
      · intro l hl
        rw [List.mem_singleton.mp hl]
        exact ⟨rfl, Finset.mem_singleton_self _⟩
      · intro t ht
        rw [Finset.mem_singleton.mp ht]
        exact ⟨row, List.mem_append_right _ (List.mem_singleton_self _), rfl⟩

variable (page) in
/-- One turn of the loop, on a database whose links are already others. -/
theorem run_addLink {url : Str} {target : Page} {created : Bool} {db' : Database}
    (hAdd : (site.addPage py stamp url).run db = (.ok (target, created), db'))
    (hFrom : db'.hasPage page.idPage = true) (hTo : db'.hasPage target.idPage = true)
    (acc : Finset Nat) (links : List Link) (nextLink : Nat) :
    ∃ links' nextLink', (addLink py stamp site page acc url).run (db.withLinks links nextLink) =
        (.ok (acc ∪ linkable [target]), db'.withLinks links' nextLink') ∧
      Grown page.idPage (linkable [target]) links links' := by
  have hAdd' : (site.addPage py stamp url).run (db.withLinks links nextLink) =
      (.ok (target, created), db'.withLinks links nextLink) := by
    rw [run_addPage_withLinks, hAdd]
  rw [addLink, Program.run_bind_ok _ _ _ hAdd']
  by_cases hLinkable : target.isLinkable = true
  · obtain ⟨row, isNew, links', nextLink', hRun, hGrown⟩ :
        ∃ row created links' nextLink', (Session.getOrCreate .link
          (fun db => db.links.find? fun l => l.fromPage == page.idPage && l.toPage == target.idPage)
          (Session.insertLink page.idPage target.idPage)).run (db'.withLinks links nextLink) =
            (.ok (row, created), (db'.withLinks links nextLink).withLinks links' nextLink') ∧
          Grown page.idPage {target.idPage} (db'.withLinks links nextLink).links links' :=
      run_linkTo hFrom hTo
    have hOne : linkable [target] = {target.idPage} := by simp [linkable_singleton, hLinkable]
    refine ⟨links', nextLink', ?_, hOne ▸ hGrown⟩
    simp only [hLinkable, if_true]
    rw [Program.run_bind_ok _ _ _ hRun, hOne, Finset.union_comm, ← Finset.insert_eq]
    rfl
  · have hNone : linkable [target] = ∅ := by simp [linkable_singleton, hLinkable]
    refine ⟨links, nextLink, ?_, hNone ▸ Grown.refl _ _⟩
    simp [hLinkable, hNone]

variable (py stamp) in
/-- The whole loop: it returns the linkable pages among those that `add_page`
returns, and it fails only where `add_page` does. -/
theorem run_addLinks (links : List Str) (h : db.Consistent) (hSite : site ∈ db.sites)
    (hPage : db.hasPage page.idPage = true) (acc : Finset Nat) (rows : List Link) (nextLink : Nat) :
    match (site.addPages py stamp links).run db with
    | (.ok targets, db') => ∃ rows' nextLink',
        (links.foldlM (addLink py stamp site page) acc).run (db.withLinks rows nextLink) =
          (.ok (acc ∪ linkable targets), db'.withLinks rows' nextLink') ∧
        Grown page.idPage (linkable targets) rows rows'
    | (.error e, _) => ∃ db',
        (links.foldlM (addLink py stamp site page) acc).run (db.withLinks rows nextLink) =
          (.error e, db') := by
  induction links generalizing db acc rows nextLink with
  | nil => exact ⟨rows, nextLink, by simp, Grown.refl _ _⟩
  | cons url rest ih =>
      rw [run_addPages_cons, List.foldlM_cons]
      cases hAdd : (site.addPage py stamp url).run db with
      | mk answer db' =>
          cases answer with
          | error e =>
              have hTurn : (addLink py stamp site page acc url).run (db.withLinks rows nextLink) =
                  (.error e, db'.withLinks rows nextLink) := by
                apply Program.run_bind_error
                rw [run_addPage_withLinks, hAdd]
              exact ⟨_, Program.run_bind_error _ _ _ hTurn⟩
          | ok added =>
              obtain ⟨target, created⟩ := added
              obtain ⟨hDb', hSites⟩ : db'.Consistent ∧ db'.sites = db.sites := by
                have hKeeps := addPage_keeps py stamp site url h
                rwa [hAdd] at hKeeps
              obtain ⟨⟨new, hPages⟩, info, -, hTarget⟩ := addPage_ok h hSite hAdd
              have hFrom : db'.hasPage page.idPage = true := by
                obtain ⟨p, hp, hEq⟩ := Database.hasPage_iff.mp hPage
                exact Database.hasPage_iff.mpr ⟨p, hPages ▸ List.mem_append_left _ hp, hEq⟩
              have hTo : db'.hasPage target.idPage = true :=
                Database.hasPage_iff.mpr ⟨target, (Database.mem_of_pageAt hTarget).1, rfl⟩
              obtain ⟨rows₁, next₁, hTurn, hGrown⟩ :=
                run_addLink page hAdd hFrom hTo acc rows nextLink
              have hRest := ih hDb' (hSites ▸ hSite) hFrom (acc ∪ linkable [target]) rows₁ next₁
              rw [Program.run_bind_ok _ _ _ hTurn]
              simp only
              cases hTargets : (site.addPages py stamp rest).run db' with
              | mk answer db'' =>
                  rw [hTargets] at hRest
                  cases answer with
                  | error e => exact hRest
                  | ok targets =>
                      obtain ⟨rows₂, next₂, hRun, hGrown'⟩ := hRest
                      refine ⟨rows₂, next₂, ?_, ?_⟩
                      · rw [hRun, linkable_cons target targets, Finset.union_assoc]
                      · rw [linkable_cons]
                        exact hGrown.trans hGrown'

theorem mem_targetsOf {from' to' : Nat} :
    to' ∈ db.targetsOf from' ↔ ∃ l ∈ db.links, l.fromPage = from' ∧ l.toPage = to' := by
  simp [Database.targetsOf, and_assoc]

/-- What `_update_links` deletes. -/
def Database.prune (db : Database) (from' : Nat) (removed : Finset Nat) : Database :=
  db.deleteLinks fun l => l.fromPage == from' && decide (l.toPage ∈ removed)

theorem prune_empty (from' : Nat) : db.prune from' ∅ = db := by
  simp [Database.prune, Database.deleteLinks]

theorem mem_links_prune {from' : Nat} {removed : Finset Nat} {l : Link} :
    l ∈ (db.prune from' removed).links ↔
      l ∈ db.links ∧ (l.fromPage = from' → l.toPage ∉ removed) := by
  simp [Database.prune, Database.deleteLinks, imp_iff_not_or]

/-- The database after the loop, and after the deletion. -/
structure Synchronised (from' : Nat) (after : Finset Nat) (db db' : Database)
    (removed added : Finset Nat) : Prop where
  targets : db'.targetsOf from' = after
  once : ((db'.links.filter (·.fromPage == from')).map (·.toPage)).Nodup
  others : db'.links.filter (·.fromPage != from') = db.links.filter (·.fromPage != from')
  removed : removed = db.targetsOf from' \ db'.targetsOf from'
  added : added = db'.targetsOf from' \ db.targetsOf from'

/-- After the deletion the targets are those of the loop. -/
theorem targetsOf_prune {from' nextLink : Nat} {after : Finset Nat} {rows : List Link}
    {db' : Database} (h : Grown from' after db.links rows) :
    ((db'.withLinks rows nextLink).prune from' (db.targetsOf from' \ after)).targetsOf from' =
      after := by
  obtain ⟨⟨new, rfl, hNew⟩, hHas⟩ := h
  ext t
  simp only [mem_targetsOf, mem_links_prune, Finset.mem_sdiff]
  constructor
  · rintro ⟨l, ⟨hl, hKept⟩, hFrom, rfl⟩
    rcases List.mem_append.mp hl with hl | hl
    · by_contra hOut
      exact hKept hFrom ⟨⟨l, hl, hFrom, rfl⟩, hOut⟩
    · exact (hNew l hl).2
  · intro ht
    obtain ⟨l, hl, hEq⟩ := hHas t ht
    obtain ⟨hFrom, hTo⟩ : l.fromPage = from' ∧ l.toPage = t := by simpa [Link.fromTo] using hEq
    exact ⟨l, ⟨hl, fun _ hOut => hOut.2 (hTo ▸ ht)⟩, hFrom, hTo⟩

/-- The deletion leaves the links of other pages as they are. -/
theorem others_prune {from' nextLink : Nat} {after removed : Finset Nat} {rows : List Link}
    {db' : Database} (h : Grown from' after db.links rows) :
    ((db'.withLinks rows nextLink).prune from' removed).links.filter (·.fromPage != from') =
      db.links.filter (·.fromPage != from') := by
  obtain ⟨⟨new, rfl, hNew⟩, -⟩ := h
  have hNone : new.filter (·.fromPage != from') = [] := by
    rw [List.filter_eq_nil_iff]
    intro l hl
    simp [(hNew l hl).1]
  have hKeep : ((db'.withLinks (db.links ++ new) nextLink).prune from' removed).links.filter
      (·.fromPage != from') = (db.links ++ new).filter (·.fromPage != from') := by
    simp only [Database.prune, Database.deleteLinks, Database.withLinks, List.filter_filter]
    refine List.filter_congr fun l _ => ?_
    by_cases hFrom : l.fromPage = from' <;> simp [hFrom]
  rw [hKeep, List.filter_append, hNone, List.append_nil]

/-- Links from one page to one page are unique, so the targets of a page are too. -/
theorem Database.Consistent.once (h : db.Consistent) (from' : Nat) :
    ((db.links.filter (·.fromPage == from')).map (·.toPage)).Nodup := by
  have hRows : Keyed Link.fromTo (db.links.filter (·.fromPage == from')) := h.fromTo.filter _
  refine List.Nodup.map_on ?_ hRows.of_map
  intro l hl m hm hEq
  have hl' : l.fromPage = from' := by simpa using (List.mem_filter.mp hl).2
  have hm' : m.fromPage = from' := by simpa using (List.mem_filter.mp hm).2
  exact hRows.eq hl hm (Prod.ext (hl'.trans hm'.symm) hEq)

/-- `_update_links` once its loop is done. -/
theorem run_syncLinks {links : Generator Str} (hRaised : links.raised = none) {after : Finset Nat}
    {db' : Database}
    (hLoop : (links.yielded.foldlM (addLink py stamp site page) ∅).run db = (.ok after, db')) :
    (syncLinks py stamp site page links).run db =
      (.ok (db.targetsOf page.idPage \ after, after \ db.targetsOf page.idPage),
        db'.prune page.idPage (db.targetsOf page.idPage \ after)) := by
  rw [syncLinks, Session.selectFrom, Program.run_select_bind, Program.run_bind_ok _ _ _ hLoop,
    hRaised]
  simp only
  by_cases hRemoved : (db.targetsOf page.idPage \ after).Nonempty
  · rw [if_pos hRemoved]
    rfl
  · rw [if_neg hRemoved, Finset.not_nonempty_iff_eq_empty.mp hRemoved, prune_empty]
    rfl

def Stored (py : Platform) (site : Site) (db : Database) (url : Str) (target : Page) : Prop :=
  ∃ info, urlparse py.netlocCheck url [] = some info ∧
    db.pageAt site info.path info.query = some target

/-- A link that is there is found, and nothing is written. -/
theorem run_addLink_stored (h : db.Consistent) (hSite : site ∈ db.sites) {url : Str} {target : Page}
    (hStored : Stored py site db url target)
    (hLink : ∀ t ∈ linkable [target], ∃ l ∈ db.links, l.fromTo = (page.idPage, t))
    (acc : Finset Nat) :
    (addLink py stamp site page acc url).run db = (.ok (acc ∪ linkable [target]), db) := by
  obtain ⟨info, hInfo, hFound⟩ := hStored
  have hAdd : (site.addPage py stamp url).run db = (.ok (target, false), db) := by
    have hRun : (site.addPage py stamp url).run db =
        (site.loadOrCreate stamp info.path info.query).run db := by
      simp [Site.addPage, hInfo, orValueError]
    rw [hRun, run_loadOrCreate h hSite, hFound]
  rw [addLink, Program.run_bind_ok _ _ _ hAdd]
  by_cases hLinkable : target.isLinkable = true
  · obtain ⟨l, hl, hEq⟩ := hLink target.idPage (by simp [linkable_singleton, hLinkable])
    obtain ⟨hFrom, hTo⟩ : l.fromPage = page.idPage ∧ l.toPage = target.idPage := by
      simpa [Link.fromTo] using hEq
    cases hFind : db.links.find? fun l => l.fromPage == page.idPage && l.toPage == target.idPage with
    | none => simpa [hFrom, hTo] using List.find?_eq_none.mp hFind l hl
    | some row =>
        simp [hLinkable, Session.getOrCreate, Session.selectFrom, hFind, linkable_singleton]
  · simp [hLinkable, linkable_singleton]

variable (stamp) in
/-- A loop whose targets are all stored and linked to leaves everything as it is. -/
theorem run_addLinks_stored (h : db.Consistent) (hSite : site ∈ db.sites) {links : List Str}
    {targets : List Page} (hStored : List.Forall₂ (Stored py site db) links targets)
    (hLink : ∀ t ∈ linkable targets, ∃ l ∈ db.links, l.fromTo = (page.idPage, t))
    (acc : Finset Nat) :
    (links.foldlM (addLink py stamp site page) acc).run db = (.ok (acc ∪ linkable targets), db) := by
  induction hStored generalizing acc with
  | nil => simp
  | @cons url target links targets hTurn hRest ih =>
      rw [linkable_cons target targets] at hLink ⊢
      rw [List.foldlM_cons, Program.run_bind_ok _ _ _ (run_addLink_stored h hSite hTurn
        (fun t ht => hLink t (Finset.mem_union_left _ ht)) acc),
        ih fun t ht => hLink t (Finset.mem_union_right _ ht), Finset.union_assoc]

/-- A link that `add_page` can store: it parses, and its path and query fit in their columns. -/
def Storable (py : Platform) (url : Str) : Prop :=
  ∃ info, urlparse py.netlocCheck url [] = some info ∧
    storable 280 info.path = true ∧ storable 1024 info.query = true

/-- `add_page` raises only for a URL that cannot be stored. -/
theorem addPage_error (h : db.Consistent) (hSite : site ∈ db.sites) {url : Str} {e : PyError}
    {db' : Database} (hAdd : (site.addPage py stamp url).run db = (.error e, db')) :
    ¬ Storable py url := by
  rintro ⟨info, hInfo, hWide⟩
  rcases run_addPage stamp h hSite py url with ⟨hNone, -⟩ | ⟨info', hInfo', hCases⟩
  · simp [hInfo] at hNone
  · obtain rfl : info = info' := by simpa [hInfo] using hInfo'
    rcases hCases with ⟨found, -, hRun⟩ | ⟨-, -, hRun⟩ | ⟨hNarrow, -⟩
    · simp [hRun] at hAdd
    · simp [hRun] at hAdd
    · exact hNarrow hWide

/-- Pages that are appended do not hide others. -/
theorem pageAt_append {db' : Database} {new : List Page} (hPages : db'.pages = db.pages ++ new)
    {subpath params : Str} {found : Page} (h : db.pageAt site subpath params = some found) :
    db'.pageAt site subpath params = some found := by
  rw [Database.pageAt, lookup, hPages, List.find?_append]
  rw [Database.pageAt, lookup] at h
  rw [h]
  rfl

variable (py stamp) in
/-- The pages that `add_page` returned are all stored under their addresses in
the end, and it raises only for a link that cannot be stored. -/
theorem run_addPages (links : List Str) (h : db.Consistent) (hSite : site ∈ db.sites) :
    match (site.addPages py stamp links).run db with
    | (.ok targets, db') => (∃ new, db'.pages = db.pages ++ new) ∧
        List.Forall₂ (Stored py site db') links targets
    | (.error _, _) => ∃ url ∈ links, ¬ Storable py url := by
  induction links generalizing db with
  | nil => exact ⟨⟨[], by simp⟩, .nil⟩
  | cons url rest ih =>
      rw [run_addPages_cons]
      cases hAdd : (site.addPage py stamp url).run db with
      | mk answer db' =>
          cases answer with
          | error e => exact ⟨url, List.mem_cons_self .., addPage_error h hSite hAdd⟩
          | ok added =>
              obtain ⟨target, created⟩ := added
              obtain ⟨hDb', hSites⟩ : db'.Consistent ∧ db'.sites = db.sites := by
                have hKeeps := addPage_keeps py stamp site url h
                rwa [hAdd] at hKeeps
              obtain ⟨⟨new, hPages⟩, info, hInfo, hTarget⟩ := addPage_ok h hSite hAdd
              have hRest := ih hDb' (hSites ▸ hSite)
              simp only
              cases hTargets : (site.addPages py stamp rest).run db' with
              | mk answer db'' =>
                  rw [hTargets] at hRest
                  cases answer with
                  | error e =>
                      obtain ⟨bad, hBad, hNot⟩ := hRest
                      exact ⟨bad, List.mem_cons_of_mem _ hBad, hNot⟩
                  | ok targets =>
                      obtain ⟨⟨new', hPages'⟩, hStored⟩ := hRest
                      refine ⟨⟨new ++ new', by rw [hPages', hPages, List.append_assoc]⟩, ?_⟩
                      exact .cons ⟨info, hInfo, pageAt_append hPages' hTarget⟩ hStored

theorem Stored.congr {db' : Database} (hPages : db'.pages = db.pages) {url : Str} {target : Page}
    (h : Stored py site db url target) : Stored py site db' url target := by
  obtain ⟨info, hInfo, hFound⟩ := h
  refine ⟨info, hInfo, ?_⟩
  rwa [Database.pageAt, hPages]

/-- Each side of a pairing has a partner. -/
theorem partners {α β : Type} {R : α → β → Prop} {xs : List α} {ys : List β}
    (h : List.Forall₂ R xs ys) :
    (∀ x ∈ xs, ∃ y ∈ ys, R x y) ∧ ∀ y ∈ ys, ∃ x ∈ xs, R x y := by
  induction h with
  | nil => simp
  | @cons x y xs ys hHead _ ih =>
      refine ⟨List.forall_mem_cons.mpr ⟨⟨y, by simp, hHead⟩, fun x' hx' => ?_⟩,
        List.forall_mem_cons.mpr ⟨⟨x, by simp, hHead⟩, fun y' hy' => ?_⟩⟩
      · obtain ⟨y', hy', hR⟩ := ih.1 x' hx'
        exact ⟨y', List.mem_cons_of_mem _ hy', hR⟩
      · obtain ⟨x', hx', hR⟩ := ih.2 y' hy'
        exact ⟨x', List.mem_cons_of_mem _ hx', hR⟩

variable (stamp) in
/-- A round whose targets are all stored, and those of the page, changes nothing. -/
theorem run_syncLinks_stored (h : db.Consistent) (hSite : site ∈ db.sites) {links : Generator Str}
    {targets : List Page} (hRaised : links.raised = none)
    (hStored : List.Forall₂ (Stored py site db) links.yielded targets)
    (hTargets : db.targetsOf page.idPage = linkable targets) :
    (syncLinks py stamp site page links).run db = (.ok (∅, ∅), db) := by
  have hLink : ∀ t ∈ linkable targets, ∃ l ∈ db.links, l.fromTo = (page.idPage, t) := by
    intro t ht
    rw [← hTargets] at ht
    obtain ⟨l, hl, hFrom, hTo⟩ := mem_targetsOf.mp ht
    exact ⟨l, hl, Prod.ext hFrom hTo⟩
  have hLoop := run_addLinks_stored stamp h hSite hStored hLink ∅
  rw [Finset.empty_union] at hLoop
  rw [run_syncLinks hRaised hLoop, hTargets, Finset.sdiff_self, prune_empty]

variable (py stamp) in
/-- The whole of `_update_links` against what `add_page` does with the links. -/
theorem run_syncLinks_exact (h : db.Consistent) (hPage : page ∈ db.pages) (hSite : site ∈ db.sites)
    (links : Generator Str) :
    match (syncLinks py stamp site page links).run db with
    | (.ok (removed, added), db') => links.raised = none ∧
        ∃ targets db'', (site.addPages py stamp links.yielded).run db = (.ok targets, db'') ∧
          db'.pages = db''.pages ∧
          Synchronised page.idPage (linkable targets) db db' removed added ∧
          ∀ stamp', (syncLinks py stamp' site page links).run db' = (.ok (∅, ∅), db')
    | (.error _, _) => links.raised ≠ none ∨ ∃ url ∈ links.yielded, ¬ Storable py url := by
  have hHas : db.hasPage page.idPage = true := Database.hasPage_iff.mpr ⟨page, hPage, rfl⟩
  have hLoop := run_addLinks py stamp links.yielded h hSite hHas ∅ db.links db.nextLink
  have hStored := run_addPages py stamp links.yielded h hSite
  cases hAdd : (site.addPages py stamp links.yielded).run db with
  | mk answer db'' =>
      rw [hAdd] at hLoop hStored
      cases answer with
      | error e =>
          obtain ⟨db', hRun⟩ := hLoop
          have hFail : (syncLinks py stamp site page links).run db = (.error e, db') := by
            rw [syncLinks, Session.selectFrom, Program.run_select_bind]
            exact Program.run_bind_error _ _ _ hRun
          rw [hFail]
          exact .inr hStored
      | ok targets =>
          obtain ⟨rows, nextLink, hLoopRun, hGrown⟩ := hLoop
          obtain ⟨-, hStored⟩ := hStored
          have hRun : (links.yielded.foldlM (addLink py stamp site page) ∅).run db =
              (.ok (linkable targets), db''.withLinks rows nextLink) := by
            rw [Finset.empty_union] at hLoopRun
            exact hLoopRun
          cases hRaised : links.raised with
          | some e =>
              have hFail : (syncLinks py stamp site page links).run db =
                  (.error e, db''.withLinks rows nextLink) := by
                rw [syncLinks, Session.selectFrom, Program.run_select_bind,
                  Program.run_bind_ok _ _ _ hRun, hRaised]
                rfl
              rw [hFail]
              exact .inl (by simp)
          | none =>
              have hSync := run_syncLinks hRaised hRun
              -- the database that the second round starts from
              have hKept : Kept (fun _ _ _ => True) db.sites
                  ((syncLinks py stamp site page links).run db).2 :=
                ((stable_kept _ db.sites).syncLinks site page py stamp links
                  fun _ _ _ _ _ _ _ _ => trivial).run (kept_of_allGood h fun _ _ _ _ _ => trivial)
              rw [hSync] at hKept ⊢
              obtain ⟨hDb', hSites, -⟩ := hKept
              have hTargets : ((db''.withLinks rows nextLink).prune page.idPage
                  (db.targetsOf page.idPage \ linkable targets)).targetsOf page.idPage =
                  linkable targets := targetsOf_prune hGrown
              refine ⟨rfl, targets, db'', rfl, rfl, ?_, ?_⟩
              · exact { targets := hTargets
                        once := hDb'.once _
                        others := others_prune hGrown
                        removed := by rw [hTargets]
                        added := by rw [hTargets] }
              · intro stamp'
                exact run_syncLinks_stored stamp' hDb' (hSites.symm ▸ hSite) hRaised
                  (hStored.imp fun _ _ => Stored.congr (by rfl)) hTargets

/-- What a call of `_update_links` does. When it returns, the targets of the page
are the linkable pages that `add_page` returns for the links, each of them once;
the links of other pages are as before; the returned pair is the difference; and
a second call, at any time, changes nothing. It raises only where the links
cannot be read to the end, or one of them cannot be stored. -/
def LinksExact (py : Platform) (input : Input) (db : Database) (site : Site) (page : Page)
    (body : Str) : Prop :=
  let links := page.getAllValidLinks py site input.robots body
  match (updateLinks py input site page body).run db with
  | (.ok (removed, added), db') => ∃ targets db'',
      (site.addPages py input.stamp links.yielded).run db = (.ok targets, db'') ∧
      Synchronised page.idPage (linkable targets) db db' removed added ∧
      ∀ later : Input, later.robots = input.robots →
        (updateLinks py later site page body).run db' = (.ok (∅, ∅), db')
  | (.error _, _) => links.raised ≠ none ∨ ∃ url ∈ links.yielded, ¬ Storable py url

theorem linksExact (py : Platform) (input : Input) (db : Database) (site : Site) (page : Page)
    (body : Str) (h : db.Consistent) (hPage : page ∈ db.pages)
    (hSite : db.siteById page.site = some site) : LinksExact py input db site page body := by
  have hExact := run_syncLinks_exact py input.stamp h hPage (mem_sites_of_siteById hSite)
    (page.getAllValidLinks py site input.robots body)
  unfold LinksExact updateLinks
  simp only
  split
  · next removed added db' hRun =>
      rw [hRun] at hExact
      obtain ⟨-, targets, db'', hAdd, -, hSync, hAgain⟩ := hExact
      refine ⟨targets, db'', hAdd, hSync, ?_⟩
      intro later hRobots
      rw [hRobots]
      exact hAgain later.stamp
  · next e db' hRun =>
      rw [hRun] at hExact
      exact hExact

/-- A page with two spellings of one link. -/
theorem linksExact_seeded :
    LinksExact (.scripted [{ tag := "a", attrs := [("href".toList, some "/x".toList)] },
        { tag := "a", attrs := [("href".toList, some "http://h/x".toList)] }])
      (.scripted (.raised dataError)) .seeded seedSite seedPage "<html></html>" := by
  apply linksExact
  · exact Database.consistent_seeded
  · decide
  · decide

end Spidercheck
