import Spidercheck.Model.Integrity

/-! Runs of the whole program: the calls that write to the database, one after
another. A call that raises keeps what it had written, and the run goes on. -/
namespace Spidercheck

open Text Url Execution Relational

/-- A call, with the key or the name by which it loads its row. The answer of
`is_valid` is an argument of a check, so that a run may take any of them. -/
inductive Operation where
  | initSite (url name : Str)
  | resetSite (name : Str)
  | updateLinks (pk : Nat) (body : Str)
  | checkPage (pk : Nat) (isValid : Site → Page → Except PyError (Result Payload))
  | toogleIsLinkable (pk : Nat)
  | pageDelete (pk : Nat)
  | siteExpunge (name : Str) (idPages : List Nat)

variable (py : Platform)

namespace Operation

def session (input : Input) : Operation → Session Unit
  | initSite url name => do
      let _ ← Spidercheck.initSite py input url name
  | resetSite name => do
      let _ ← Spidercheck.resetSite py input name
  | updateLinks pk body => do
      let page ← loadPage pk
      let site ← siteOf page
      let _ ← Spidercheck.updateLinks py input site page body
  | checkPage pk isValid => do
      let page ← loadPage pk
      let _ ← checkPageWith isValid py input page
  | toogleIsLinkable pk => Spidercheck.toogleIsLinkable input.stamp pk
  | pageDelete pk => Spidercheck.pageDelete pk
  | siteExpunge name idPages => do
      match ← Session.selectFrom .site (·.siteByName name) with
      | none => Program.raise (valueError name)
      | some site =>
        let _ ← Spidercheck.siteExpunge py site idPages

/-- The URLs that a call may hand to `add_page` of a site. -/
def Hands (input : Input) (db : Database) (op : Operation) (site : Site) (url : Str) : Prop :=
  match op with
  | resetSite name => db.siteByName name = some site ∧ url = site.path
  | updateLinks pk body => ∃ page, db.pageById pk = some page ∧ db.siteById page.site = some site ∧
      url ∈ (page.getAllValidLinks py site input.robots body).yielded
  | checkPage pk _ => ∃ page, db.pageById pk = some page ∧ db.siteById page.site = some site ∧
      ∃ headers body, input.get = .response headers (.ok body) ∧
        url ∈ (page.getAllValidLinks py site input.robots body).yielded
  | _ => False

end Operation

/-- A property of the addresses of a site, met by everything that a call may add. -/
def Operation.Meets (Good : Site → Str → Str → Prop) (input : Input) (db : Database)
    (op : Operation) : Prop :=
  (∀ site url info, op.Hands py input db site url →
    urlparse py.netlocCheck url [] = some info → Good site info.path info.query) ∧
  ∀ url name info, op = .initSite url name → urlparse py.netlocCheck url [] = some info →
    Good { Site.new name info with idSite := db.nextSite, createdAt := input.justNow } info.path []

def Database.AllGood (Good : Site → Str → Str → Prop) (db : Database) : Prop :=
  ∀ p ∈ db.pages, ∀ s ∈ db.sites, s.idSite = p.site → Good s p.subpath p.params

/-- A run from one database to another, in which every call meets a condition. -/
inductive Runs (Condition : Input → Database → Operation → Prop) : Database → Database → Prop where
  | refl (db : Database) : Runs Condition db db
  | step {db db' : Database} (input : Input) (op : Operation) (before : Runs Condition db db')
      (hMeets : Condition input db' op) : Runs Condition db ((op.session py input).run db').2

def Reachable (db : Database) : Prop := Runs py (fun _ _ _ => True) .empty db

/-- An invariant of every call is an invariant of every run. -/
theorem Runs.induct {Condition : Input → Database → Operation → Prop} (Inv : Database → Prop)
    (hStep : ∀ input db op, Inv db → Condition input db op → Inv ((op.session py input).run db).2)
    {db db' : Database} (h : Runs py Condition db db') (hStart : Inv db) : Inv db' := by
  induction h with
  | refl => exact hStart
  | step input op before hMeets ih => exact hStep input _ op ih hMeets

def GoodFor (Good : Site → Str → Str → Prop) (sites : List Site) (a : Address) : Prop :=
  ∀ s ∈ sites, s.idSite = a.1 → Good s a.2.1 a.2.2

variable {py : Platform} {input : Input} {db : Database} {op : Operation}
  {Good : Site → Str → Str → Prop}

/-- The invariant of the runs, for a fixed list of sites. -/
def Kept (Good : Site → Str → Str → Prop) (sites : List Site) (db : Database) : Prop :=
  db.Consistent ∧ db.sites = sites ∧ db.Addressed (GoodFor Good sites)

theorem stable_kept (Good : Site → Str → Str → Prop) (sites : List Site) :
    Stable (Kept Good sites) (GoodFor Good sites) :=
  stable_consistent.and ((stable_sites sites).and stable_addressed)

theorem Kept.allGood {sites : List Site} (h : Kept Good sites db) :
    db.Consistent ∧ db.AllGood Good := by
  obtain ⟨hDb, rfl, hAll⟩ := h
  exact ⟨hDb, fun p hp s hs hEq => hAll p hp s hs hEq⟩

theorem kept_of_allGood (hDb : db.Consistent) (hAll : db.AllGood Good) : Kept Good db.sites db :=
  ⟨hDb, rfl, fun p hp s hs hEq => hAll p hp s hs hEq⟩

/-- An address of a stored site is good for the stored sites when it is good for that one. -/
theorem Database.Consistent.goodFor (h : db.Consistent) {site : Site} (hSite : site ∈ db.sites)
    {subpath params : Str} (hGood : Good site subpath params) :
    GoodFor Good db.sites (site.idSite, subpath, params) := by
  intro s hs hEq
  rw [h.sites.eq hs hSite hEq]
  exact hGood

/-- The new site has no pages yet. -/
theorem kept_insertSite (hDb : db.Consistent) (hAll : db.AllGood Good) (createdAt : Time)
    (row : Site) :
    Kept Good (db.insertSite createdAt row).2.sites (db.insertSite createdAt row).2 := by
  refine kept_of_allGood (hDb.insertSite createdAt row) ?_
  refine Database.accept_preserves (Database.AllGood Good) hAll fun _ => ?_
  intro p hp s hs hEq
  rcases List.mem_append.mp hs with hs | hs
  · exact hAll p hp s hs hEq
  · obtain rfl := List.mem_singleton.mp hs
    obtain ⟨t, ht, hSite⟩ := hDb.pageSites p hp
    have := hDb.sitesFresh t ht
    simp only at hEq
    omega

/-- A new site gets a good first page. -/
theorem allGood_initSite (hDb : db.Consistent) (hAll : db.AllGood Good) {url name : Str}
    (hMeets : (Operation.initSite url name).Meets py Good input db) :
    let db' := ((initSite py input url name).run db).2
    db'.Consistent ∧ db'.AllGood Good := by
  have hKept := kept_of_allGood hDb hAll
  rw [initSite, Session.selectFrom, Program.run_select_bind]
  split
  · exact hKept.allGood
  · cases hInfo : urlparse py.netlocCheck url [] with
    | none => exact hKept.allGood
    | some info =>
        have hSites := kept_insertSite hDb hAll input.justNow (Site.new name info)
        have hSeed := hMeets.2 url name info rfl hInfo
        simp only [orValueError, Program.run_liftExcept_ok_bind]
        rw [Session.insertSite, Program.run_bind, Program.run_statement]
        split
        · next site db' hInsert =>
            rw [hInsert] at hSites
            obtain ⟨rfl, rfl⟩ := Database.accept_eq_ok hInsert
            rw [Program.run_bind_pure_snd]
            refine ((stable_kept Good _).insertPage _ input.stamp _ _ hSites ?_).allGood
            exact hSites.1.goodFor (List.mem_append_right _ (List.mem_singleton_self _)) hSeed
        · next e db' hInsert =>
            rw [hInsert] at hSites
            exact hSites.allGood

theorem mem_sites_of_siteById {pk : Nat} {site : Site} (h : db.siteById pk = some site) :
    site ∈ db.sites :=
  (mem_of_lookup h).1

theorem mem_sites_of_siteByName {name : Str} {site : Site} (h : db.siteByName name = some site) :
    site ∈ db.sites :=
  List.mem_of_find?_eq_some h

/-- The address of a stored page is good. -/
theorem Database.AllGood.goodFor {page : Page} (h : db.AllGood Good) {pk : Nat}
    (hPage : db.pageById pk = some page) : GoodFor Good db.sites page.fullPath :=
  fun s hs hEq => h page (mem_of_lookup hPage).1 s hs hEq

/-- A reset leaves one good page. -/
theorem kept_resetSite (hDb : db.Consistent) (hAll : db.AllGood Good) {name : Str}
    (hMeets : (Operation.resetSite name).Meets py Good input db) :
    Kept Good db.sites ((resetSite py input name).run db).2 := by
  have hKept := kept_of_allGood hDb hAll
  rw [resetSite, Session.selectFrom, Program.run_select_bind]
  cases hSite : db.siteByName name with
  | none => exact hKept
  | some site =>
      refine ((stable_kept Good db.sites).reset py input site fun info hInfo => ?_).run hKept
      exact hDb.goodFor (mem_sites_of_siteByName hSite)
        (hMeets.1 site site.path info ⟨hSite, rfl⟩ hInfo)

/-- What a call keeps that creates no site. -/
theorem Operation.kept_step (hDb : db.Consistent) (hAll : db.AllGood Good)
    (hMeets : op.Meets py Good input db) (hOld : ∀ url name, op ≠ .initSite url name) :
    Kept Good db.sites ((op.session py input).run db).2 := by
  have hKept := kept_of_allGood hDb hAll
  have hStable := stable_kept Good db.sites
  cases op with
  | initSite url name => exact absurd rfl (hOld url name)
  | resetSite name =>
      rw [session, Program.run_bind_pure_snd]
      exact kept_resetSite hDb hAll hMeets
  | updateLinks pk body =>
      rw [session, run_loadPage_bind]
      cases hPage : db.pageById pk with
      | none => exact hKept
      | some page =>
          simp only
          cases hSite : db.siteById page.site with
          | none =>
              obtain ⟨e, hLoad⟩ := run_siteOf_none hSite
              rw [Program.run_bind_error _ _ _ hLoad]
              exact hKept
          | some site =>
              rw [Program.run_bind_ok _ _ _ (run_siteOf hSite), Program.run_bind_pure_snd]
              refine (hStable.updateLinks py input site page body ?_).run hKept
              intro url hUrl info hInfo _
              exact hDb.goodFor (mem_sites_of_siteById hSite)
                (hMeets.1 site url info ⟨page, hPage, hSite, hUrl⟩ hInfo)
  | checkPage pk isValid =>
      rw [session, run_loadPage_bind]
      cases hPage : db.pageById pk with
      | none => exact hKept
      | some page =>
          simp only
          rw [Program.run_bind_pure_snd]
          cases hSite : db.siteById page.site with
          | none =>
              obtain ⟨e, hRun⟩ : ∃ e, (checkPageWith isValid py input page).run db = (.error e, db) :=
                run_checkPageWith_none hSite isValid
              rw [hRun]
              exact hKept
          | some site =>
              rw [run_checkPageWith hSite]
              split
              · exact hKept
              · exact hKept
              · refine (hStable.checkAnswer py input _ site _ _ ?_ ?_).run hKept
                · exact fun s hs hEq => hAll.goodFor hPage s hs hEq
                · intro headers body hGet found hFound info hInfo
                  have hLinks : (page.marked input.justNow).getAllValidLinks py site input.robots
                      body = page.getAllValidLinks py site input.robots body :=
                    Page.getAllValidLinks_congr py site (by rfl) (by rfl) _ _
                  rw [hLinks] at hFound
                  exact hDb.goodFor (mem_sites_of_siteById hSite) (hMeets.1 site found info
                    ⟨page, hPage, hSite, headers, body, hGet, hFound⟩ hInfo)
  | toogleIsLinkable pk =>
      rw [session, Spidercheck.toogleIsLinkable, run_loadPage_bind]
      cases hPage : db.pageById pk with
      | none => exact hKept
      | some page => exact (hStable.toogle input.stamp page (hAll.goodFor hPage)).run hKept
  | pageDelete pk =>
      rw [session, Spidercheck.pageDelete, run_loadPage_bind]
      cases hPage : db.pageById pk with
      | none => exact hKept
      | some page => exact (hStable.delete page).run hKept
  | siteExpunge name idPages =>
      rw [session, Session.selectFrom, Program.run_select_bind]
      cases db.siteByName name with
      | none => exact hKept
      | some site =>
          simp only
          rw [Program.run_bind_pure_snd]
          exact (hStable.siteExpunge py site idPages).run hKept

/-- What one call keeps. -/
theorem Operation.allGood_step (hDb : db.Consistent) (hAll : db.AllGood Good)
    (hMeets : op.Meets py Good input db) :
    let db' := ((op.session py input).run db).2
    db'.Consistent ∧ db'.AllGood Good := by
  by_cases hNew : ∃ url name, op = .initSite url name
  · obtain ⟨url, name, rfl⟩ := hNew
    rw [session, Program.run_bind_pure_snd]
    exact allGood_initSite hDb hAll hMeets
  · exact (kept_step hDb hAll hMeets fun url name hEq => hNew ⟨url, name, hEq⟩).allGood

/-- The run lemma: addresses stay good as long as every call adds good ones only. -/
theorem Runs.allGood {db' : Database}
    (h : Runs py (fun input db op => op.Meets py Good input db) db db')
    (hDb : db.Consistent) (hAll : db.AllGood Good) : db'.Consistent ∧ db'.AllGood Good := by
  apply Runs.induct py (fun db => db.Consistent ∧ db.AllGood Good) ?_ h ⟨hDb, hAll⟩
  intro input db op hInv hMeets
  exact Operation.allGood_step hInv.1 hInv.2 hMeets

/-- Nothing is wrong with an empty database. -/
theorem allGood_empty : Database.empty.AllGood Good := by
  intro p hp
  cases hp

end Spidercheck
