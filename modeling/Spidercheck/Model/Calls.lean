import Spidercheck.Model.Discipline
import Spidercheck.Model.Operations
import Mathlib.Logic.Relation

/-! All calls that write to the database, one after another or interleaved
statement by statement. A discipline that also covers loading by key and the
creation of sites is kept by every call. -/
namespace Spidercheck

open Text Url Execution Relational

/-- The operations, and the two parts of them that are also called by themselves. -/
inductive Call where
  | operation (op : Operation)
  | addPage (name url : Str)
  | runPlugins (pk : Nat) (headers : Headers) (body : Str)

namespace Call
variable (py : Platform)

def session (input : Input) : Call → Session Unit
  | operation op => op.session py input
  | addPage name url => do
      match ← Session.selectFrom .site (·.siteByName name) with
      | none => Program.raise (valueError name)
      | some site =>
        let _ ← site.addPage py input.stamp url
  | runPlugins pk headers body => do
      let page ← loadPage pk
      let _ ← Spidercheck.runPlugins input.plugins page headers body

/-- The call reads the links of the body, on behalf of the page. -/
def Reads (input : Input) (site : Site) (page : Page) (body : Str) : Call → Prop
  | operation (.updateLinks pk text) => page.idPage = pk ∧ body = text
  | operation (.checkPage pk isValid) => page.idPage = pk ∧ page.Reads isValid py input site body
  | _ => False

def Step (Condition : Input → Database → Call → Prop) (db db' : Database) : Prop :=
  ∃ input call, Condition input db call ∧ db' = ((session py input call).run db).2

def Runs (Condition : Input → Database → Call → Prop) : Database → Database → Prop :=
  Relation.ReflTransGen (Step py Condition)

/-- An invariant of every call is an invariant of every run. -/
theorem Runs.keeps {py : Platform} {Condition : Input → Database → Call → Prop}
    (Inv : Database → Prop) {db db' : Database} (h : Runs py Condition db db')
    (hStep : ∀ input db call, Inv db → Condition input db call →
      Inv ((session py input call).run db).2)
    (hStart : Inv db) : Inv db' := by
  induction h with
  | refl => exact hStart
  | tail before last ih =>
      obtain ⟨input, call, hMeets, rfl⟩ := last
      exact hStep input _ call ih hMeets

/-- The session of some call, by a clock that shows allowed times. -/
def Opens (Clock : Time → Prop) (p : Session Unit) : Prop :=
  ∃ input call, Clock input.justNow ∧ p = session py input call

end Call

/-- A discipline of sessions that load their rows themselves. -/
structure OpenDiscipline (World : Type) [Preorder World] extends Discipline World where
  loaded : ∀ w db page, Holds w db → page ∈ db.pages → Knows w page
  stored : ∀ w db site, Holds w db → site ∈ db.sites → Hosts w site
  insertSite : ∀ w db createdAt row, Holds w db →
    let added := db.insertSite createdAt row
    ∃ w', w ≤ w' ∧ Holds w' added.2 ∧ ∀ site, added.1 = .ok site → Hosts w' site

namespace OpenDiscipline
variable {World : Type} [Preorder World] {d : OpenDiscipline World} {w : World}
  {py : Platform} {input : Input} {Returned : Type}

open Program Discipline

theorem loadPage (pk : Nat) :
    d.Keeps (fun w page => d.Knows w page ∧ page.idPage = pk) w (Spidercheck.loadPage pk) := by
  have hLoad : d.Keeps (fun w found => ∀ page, found = some page →
      d.Knows w page ∧ page.idPage = pk) w (Session.selectFrom .page (·.pageById pk)) := by
    apply Discipline.select
    intro w' _ db hDb page hPage
    exact ⟨d.loaded w' db page hDb (mem_of_lookup hPage).1, (mem_of_lookup hPage).2⟩
  apply hLoad.bind
  intro w' _ found hFound
  cases found with
  | some page => exact secures_pure (hFound page rfl)
  | none => exact secures_raise _

/-- A session that begins by looking up a site. -/
theorem withSite (name : Str) {missing : Session Returned} {k : Site → Session Returned}
    (hMissing : ∀ w', d.Keeps Any w' missing)
    (hk : ∀ w', w ≤ w' → ∀ site, d.Hosts w' site → d.Keeps Any w' (k site)) :
    d.Keeps Any w (do
      match ← Session.selectFrom .site (·.siteByName name) with
      | none => missing
      | some site => k site) := by
  have hLoad : d.Keeps (fun w found => ∀ site, found = some site → d.Hosts w site) w
      (Session.selectFrom .site (·.siteByName name)) := by
    apply Discipline.select
    intro w' _ db hDb site hSite
    exact d.stored w' db site hDb (mem_sites_of_siteByName hSite)
  apply hLoad.bind
  intro w' hw found hFound
  cases found with
  | some site => exact hk w' hw site (hFound site rfl)
  | none => exact hMissing w'

/-- A new site comes with a page that the discipline allows. -/
theorem initSite (url name : Str) : d.Keeps Any w (Spidercheck.initSite py input url name) := by
  have hTaken : d.Keeps Any w (Session.selectFrom .site (·.siteByName name)) :=
    Discipline.select _ _ fun _ _ _ _ => trivial
  apply hTaken.seq
  intro w' _ taken
  split
  · exact secures_raise _
  · have hInfo : d.Keeps Any w' (liftExcept (orValueError (urlparse py.netlocCheck url [])) :
        Session ParseResult) := secures_liftExcept fun _ _ => trivial
    apply hInfo.seq
    intro w'' _ info
    have hSite : d.Keeps d.Hosts w'' (Session.insertSite input.justNow (Site.new name info)) :=
      secures_statement _ _ fun v _ db hDb => d.insertSite v db input.justNow (Site.new name info) hDb
    apply hSite.bind
    intro v _ site hHosts
    exact (createPage hHosts input.stamp info.path [] (-1)).bind
      fun _ _ _ _ => secures_pure trivial

/-- The links that a call may follow are admitted. -/
def Follows (d : OpenDiscipline World) (py : Platform) (input : Input) (w : World) (call : Call) :
    Prop :=
  ∀ w', w ≤ w' → ∀ page site body, d.Knows w' page → d.Hosts w' site → site.idSite = page.site →
    call.Reads py input site page body → d.AdmitsBody py input site page body

/-- What is known of a page is known of it with its flag switched. -/
def Switches (d : OpenDiscipline World) : Prop :=
  ∀ w page, d.Knows w page → d.Knows w { page with isLinkable := !page.isLinkable }

theorem updateLinksOf {page : Page} {body : Str} (hPage : d.Knows w page)
    (hAdmits : ∀ w', w ≤ w' → ∀ site, d.Hosts w' site → site.idSite = page.site →
      d.AdmitsBody py input site page body) :
    d.Keeps Any w (do
      let site ← siteOf page
      let _ ← Spidercheck.updateLinks py input site page body) := by
  apply (loadSite hPage).bind
  intro w' hw site hSite
  exact (Discipline.updateLinks (d.knowsLasting w w' page hw hPage) hSite.1 body
    (hAdmits w' hw site hSite.1 hSite.2)).seq fun _ _ _ => secures_pure trivial

/-- Every operation keeps to the discipline. -/
theorem operation {op : Operation} (hClock : d.Clock input.justNow)
    (hFollows : d.Follows py input w (.operation op))
    (hSwitches : ∀ pk, op = .toogleIsLinkable pk → d.Switches) :
    d.Keeps Any w (op.session py input) := by
  cases op with
  | initSite url name => exact (initSite url name).seq fun _ _ _ => secures_pure trivial
  | resetSite name =>
      have hReset : d.Keeps Any w (Spidercheck.resetSite py input name) :=
        withSite name (fun _ => secures_raise _) fun _ _ site hSite =>
          Discipline.reset hSite py input
      exact hReset.seq fun _ _ _ => secures_pure trivial
  | updateLinks pk body =>
      apply (loadPage pk).bind
      rintro w' hw page ⟨hPage, rfl⟩
      apply updateLinksOf hPage
      intro v hv site hSite hOf
      exact hFollows v (hw.trans hv) page site body (d.knowsLasting w' v page hv hPage) hSite hOf ⟨rfl, rfl⟩
  | checkPage pk isValid =>
      apply (loadPage pk).bind
      rintro w' hw page ⟨hPage, rfl⟩
      have hAdmits (v : World) (hv : w' ≤ v) (site : Site) (hSite : d.Hosts v site)
          (hOf : site.idSite = page.site) (body : Str) (hReads : page.Reads isValid py input site body) :
          d.AdmitsBody py input site page body :=
        hFollows v (hw.trans hv) page site body (d.knowsLasting w' v page hv hPage) hSite hOf
          ⟨rfl, hReads⟩
      exact (Discipline.checkPageWith hPage hClock isValid hAdmits).seq fun _ _ _ => secures_pure trivial
  | toogleIsLinkable pk =>
      apply (loadPage pk).bind
      intro w' _ page hPage
      exact Discipline.toogle hPage.1 (hSwitches pk rfl w' page hPage.1) input.stamp
  | pageDelete pk => exact (loadPage pk).bind fun w' _ page hPage => Discipline.delete hPage.1
  | siteExpunge name idPages =>
      exact withSite name (fun _ => secures_raise _) fun _ _ site hSite =>
        (Discipline.siteExpunge hSite py idPages).seq fun _ _ _ => secures_pure trivial

/-- Every call keeps to the discipline. -/
theorem call {call : Call} (hClock : d.Clock input.justNow) (hFollows : d.Follows py input w call)
    (hSwitches : ∀ pk, call = .operation (.toogleIsLinkable pk) → d.Switches) :
    d.Keeps Any w (call.session py input) := by
  cases call with
  | operation op =>
      exact operation hClock hFollows fun pk hEq => hSwitches pk (congrArg Call.operation hEq)
  | addPage name url =>
      apply withSite name fun _ => secures_raise _
      intro _ _ site hSite
      exact (Discipline.addPage hSite py input.stamp url).bind fun _ _ _ _ => secures_pure trivial
  | runPlugins pk headers body =>
      apply (loadPage pk).bind
      intro _ _ page hPage
      exact (Discipline.runPlugins hPage.1 input.plugins headers body).seq
        fun _ _ _ => secures_pure trivial

/-- The links need no condition when a page may be linked to all linkable pages of its site. -/
theorem follows_of_free
    (hFree : ∀ page target : Page, target.isLinkable = true → target.site = page.site →
      d.Joins page target) (call : Call) : d.Follows py input w call := by
  intro _ _ page site _ _ _ hOf _ url _ info _ target hLinkable hAddress
  have hSite : target.site = site.idSite := congrArg Prod.fst hAddress
  exact hFree page target hLinkable (hSite.trans hOf)

/-- A call that runs alone: its page is the stored one. -/
theorem call_run {db : Database} (hDb : d.Holds w db) {call : Call} (hClock : d.Clock input.justNow)
    (hAdmits : ∀ page site body, db.pageById page.idPage = some page →
      (∃ w', w ≤ w' ∧ d.Hosts w' site) → site.idSite = page.site →
      call.Reads py input site page body → d.AdmitsBody py input site page body)
    (hSwitches : ∀ pk, call = .operation (.toogleIsLinkable pk) → d.Switches) :
    ∃ w', w ≤ w' ∧ d.Holds w' ((call.session py input).run db).2 := by
  have hOther (hNone : ∀ page site body, ¬ call.Reads py input site page body) :
      ∃ w', w ≤ w' ∧ d.Holds w' ((call.session py input).run db).2 := by
    have hFollows : d.Follows py input w call :=
      fun _ _ page site body _ _ _ hReads => absurd hReads (hNone page site body)
    obtain ⟨w', hw, hEnd, -⟩ := (OpenDiscipline.call hClock hFollows hSwitches).run hDb
    exact ⟨w', hw, hEnd⟩
  match call with
  | .operation (.updateLinks pk body) =>
      show ∃ w', w ≤ w' ∧ d.Holds w' ((Spidercheck.loadPage pk >>= _).run db).2
      rw [run_loadPage_bind]
      cases hPage : db.pageById pk with
      | none => exact ⟨w, le_rfl, hDb⟩
      | some page =>
          obtain ⟨hStored, rfl⟩ := mem_of_lookup hPage
          have hKeeps : d.Keeps Any w (do
              let site ← siteOf page
              let _ ← Spidercheck.updateLinks py input site page body) := by
            apply updateLinksOf (d.loaded w db page hDb hStored)
            exact fun v hv site hSite hOf => hAdmits page site body hPage ⟨v, hv, hSite⟩ hOf ⟨rfl, rfl⟩
          obtain ⟨w', hw, hEnd, -⟩ := hKeeps.run hDb
          exact ⟨w', hw, hEnd⟩
  | .operation (.checkPage pk isValid) =>
      show ∃ w', w ≤ w' ∧ d.Holds w' ((Spidercheck.loadPage pk >>= _).run db).2
      rw [run_loadPage_bind]
      cases hPage : db.pageById pk with
      | none => exact ⟨w, le_rfl, hDb⟩
      | some page =>
          obtain ⟨hStored, rfl⟩ := mem_of_lookup hPage
          have hKeeps : d.Keeps Any w (Spidercheck.checkPageWith isValid py input page) := by
            apply Discipline.checkPageWith (d.loaded w db page hDb hStored) hClock
            intro v hv site hSite hOf body hReads
            exact hAdmits page site body hPage ⟨v, hv, hSite⟩ hOf ⟨rfl, hReads⟩
          rw [Program.run_bind_pure_snd]
          obtain ⟨w', hw, hEnd, -⟩ := hKeeps.run hDb
          exact ⟨w', hw, hEnd⟩
  | .operation (.initSite url name) => exact hOther fun _ _ _ => id
  | .operation (.resetSite name) => exact hOther fun _ _ _ => id
  | .operation (.toogleIsLinkable pk) => exact hOther fun _ _ _ => id
  | .operation (.pageDelete pk) => exact hOther fun _ _ _ => id
  | .operation (.siteExpunge name idPages) => exact hOther fun _ _ _ => id
  | .addPage name url => exact hOther fun _ _ _ => id
  | .runPlugins pk headers body => exact hOther fun _ _ _ => id

end OpenDiscipline

end Spidercheck
