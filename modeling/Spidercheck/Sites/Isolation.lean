import Spidercheck.Model.Ledger
import Spidercheck.Sites.Frame

/-! Sites do not meet. Links are made between pages of one site, whatever else is
running, and hence a call on one site, with all that its deletions take along,
leaves the rows of every other site as they were. -/
namespace Spidercheck

open Text Execution Relational

variable {py : Platform} {input : Input} {db : Database}

namespace Database

def pagesIn (db : Database) (s : Nat) : List Page := db.pages.filter (·.site == s)

def inSite (db : Database) (s pk : Nat) : Bool := (db.pagesIn s).any (·.idPage == pk)

def linksIn (db : Database) (s : Nat) : List Link :=
  db.links.filter fun l => db.inSite s l.fromPage || db.inSite s l.toPage

def valuesIn (db : Database) (s : Nat) : List Value := db.values.filter fun v => db.inSite s v.page

def scheduledIn (db : Database) (s : Nat) : List ScheduledPage :=
  db.scheduled.filter fun r => db.inSite s r.page

theorem inSite_iff {s pk : Nat} :
    db.inSite s pk = true ↔ ∃ p ∈ db.pages, p.idPage = pk ∧ p.site = s := by
  simp [inSite, pagesIn, and_assoc, and_comm]

theorem isolated_iff (h : db.Consistent) : db.Isolated ↔ db.LinksJoin (·.site) (· = ·) := by
  constructor
  · intro hIsolated l hl p hp hFrom q hq hTo
    obtain ⟨p', hp', q', hq', hFrom', hTo', hSame⟩ := hIsolated l hl
    rw [h.pages.eq hp hp' (hFrom.trans hFrom'.symm), h.pages.eq hq hq' (hTo.trans hTo'.symm)]
    exact hSame
  · intro hJoin l hl
    obtain ⟨p, hp, hFrom⟩ := h.linkFrom l hl
    obtain ⟨q, hq, hTo⟩ := h.linkTo l hl
    exact ⟨p, hp, q, hq, hFrom, hTo, hJoin l hl p hp hFrom q hq hTo⟩

end Database

def sites : OpenDiscipline (Ledger Nat) :=
  ledger (·.site) (· = ·) fun _ _ _ hPath _ => congrArg Prod.fst hPath

/-- A link is only made to a page of the site of the page that it leaves. -/
theorem sites_call (call : Call) (w : Ledger Nat) :
    sites.Keeps Discipline.Any w (call.session py input) := by
  apply OpenDiscipline.call (d := sites) trivial
  · apply OpenDiscipline.follows_of_free
    exact fun _ _ _ hSite _ => hSite.symm
  · exact fun _ _ _ _ hPage => hPage

theorem isolated_call (hDb : db.Consistent) (hIsolated : db.Isolated) (call : Call) :
    let db' := ((call.session py input).run db).2
    db'.Consistent ∧ db'.Isolated := by
  have hStart : sites.Holds (.ofDatabase (·.site) db hDb) db :=
    Ledger.describes_ofDatabase _ hDb ((Database.isolated_iff hDb).mp hIsolated)
  obtain ⟨w, -, hEnd, -⟩ := (sites_call call _).run hStart
  exact ⟨hEnd.consistent, (Database.isolated_iff hEnd.consistent).mpr hEnd.linksJoin⟩

/-- The call loads the site, or a page of it. -/
def Call.AimsAt (db : Database) (s : Nat) : Call → Prop
  | operation (.initSite _ _) => False
  | operation (.resetSite name) | operation (.siteExpunge name _) | addPage name _ =>
      ∃ site, db.siteByName name = some site ∧ site.idSite = s
  | operation (.updateLinks pk _) | operation (.checkPage pk _) | operation (.toogleIsLinkable pk)
  | operation (.pageDelete pk) | runPlugins pk _ _ => ∃ page, db.pageById pk = some page ∧ page.site = s

section Frame
variable {s : Nat} {Returned : Type}

/-- A session that begins by loading a page of the site. -/
theorem untouched_of_page (hDb : db.Consistent) (hIsolated : db.Isolated) {pk : Nat}
    {k : Page → Session Returned} (hAims : ∃ page, db.pageById pk = some page ∧ page.site = s)
    (hk : ∀ page, (inside db s hDb hIsolated).Knows () page →
      (inside db s hDb hIsolated).Keeps Discipline.Any () (k page)) :
    Untouched db s ((loadPage pk >>= k).run db).2 := by
  obtain ⟨page, hPage, hSite⟩ := hAims
  rw [run_loadPage_bind, hPage]
  have hInside : db.elsewhere s page.idPage = false :=
    (Untouched.refl hDb).inside (mem_of_lookup hPage).1 hSite
  obtain ⟨_, -, hEnd, -⟩ := (hk page ⟨hSite, hInside⟩).run (Untouched.refl hDb)
  exact hEnd

/-- A session that begins by looking the site up. -/
theorem untouched_of_site (hDb : db.Consistent) (hIsolated : db.Isolated) {name : Str}
    {missing : Session Returned} {k : Site → Session Returned}
    (hAims : ∃ site, db.siteByName name = some site ∧ site.idSite = s)
    (hk : ∀ site, (inside db s hDb hIsolated).Hosts () site →
      (inside db s hDb hIsolated).Keeps Discipline.Any () (k site)) :
    Untouched db s ((do
      match ← Session.selectFrom .site (·.siteByName name) with
      | none => missing
      | some site => k site).run db).2 := by
  obtain ⟨site, hFound, hSite⟩ := hAims
  rw [Session.selectFrom, Program.run_select_bind]
  simp only [hFound]
  obtain ⟨_, -, hEnd, -⟩ := (hk site hSite).run (Untouched.refl hDb)
  exact hEnd

/-- A call on one site leaves the rows outside of it alone. -/
theorem untouched_call (hDb : db.Consistent) (hIsolated : db.Isolated) {call : Call}
    (hAims : call.AimsAt db s) : Untouched db s ((call.session py input).run db).2 := by
  let d : Discipline Unit := inside db s hDb hIsolated
  have hLinks (site : Site) (page : Page) (body : Str) : d.AdmitsBody py input site page body :=
    fun _ _ _ _ _ _ _ => trivial
  match call with
  | .operation (.resetSite name) =>
      show Untouched db s ((resetSite py input name >>= fun _ => pure ()).run db).2
      rw [Program.run_bind_pure_snd, resetSite]
      exact untouched_of_site hDb hIsolated hAims fun _ hSite => Discipline.reset hSite py input
  | .operation (.siteExpunge name idPages) =>
      apply untouched_of_site hDb hIsolated hAims
      intro site hSite
      exact (Discipline.siteExpunge hSite py idPages).bind fun _ _ _ _ => Program.secures_pure trivial
  | .addPage name url =>
      apply untouched_of_site hDb hIsolated hAims
      intro site hSite
      exact (Discipline.addPage hSite py input.stamp url).bind fun _ _ _ _ => Program.secures_pure trivial
  | .operation (.updateLinks pk body) =>
      apply untouched_of_page hDb hIsolated hAims
      intro page hPage
      apply (Discipline.loadSite hPage).bind
      intro _ _ site hSite
      exact (Discipline.updateLinks hPage hSite.1 body (hLinks site page body)).seq
        fun _ _ _ => Program.secures_pure trivial
  | .operation (.checkPage pk isValid) =>
      apply untouched_of_page hDb hIsolated hAims
      intro page hPage
      have hCheck : d.Keeps Discipline.Any () (checkPageWith isValid py input page) :=
        Discipline.checkPageWith hPage trivial isValid fun _ _ site _ _ body _ => hLinks site page body
      exact hCheck.seq fun _ _ _ => Program.secures_pure trivial
  | .operation (.toogleIsLinkable pk) =>
      exact untouched_of_page hDb hIsolated hAims fun _ hPage => Discipline.toogle hPage hPage input.stamp
  | .operation (.pageDelete pk) =>
      exact untouched_of_page hDb hIsolated hAims fun _ hPage => Discipline.delete hPage
  | .runPlugins pk headers body =>
      apply untouched_of_page hDb hIsolated hAims
      intro page hPage
      exact (Discipline.runPlugins hPage input.plugins headers body).seq
        fun _ _ _ => Program.secures_pure trivial

end Frame

namespace Untouched
variable {start : Database} {s other : Nat}

theorem pagesIn (h : Untouched start s db) (hOther : other ≠ s) : db.pagesIn other = start.pagesIn other := by
  have hOut (p : Page) (hp : (p.site == other) = true) : (p.site != s) = true := by
    rw [beq_iff_eq] at hp
    simpa [hp] using hOther
  rw [Database.pagesIn, ← filter_filter_of fun p _ hp => hOut p hp, h.pages]
  exact filter_filter_of fun p _ hp => hOut p hp

theorem inSite (h : Untouched start s db) (hOther : other ≠ s) : db.inSite other = start.inSite other := by
  funext pk
  rw [Database.inSite, Database.inSite, h.pagesIn hOther]

/-- A page of the other site is outside. -/
theorem elsewhere_of_inSite (hOther : other ≠ s) {pk : Nat} (hIn : start.inSite other pk = true) :
    start.elsewhere s pk = true := by
  obtain ⟨p, hp, hKey, hSite⟩ := Database.inSite_iff.mp hIn
  exact Database.elsewhere_iff.mpr ⟨p, hp, hKey, hSite ▸ hOther⟩

/-- In an isolated database both ends of a link of the other site are outside. -/
theorem elsewhere_of_link (h : Untouched start s db) (hIsolated : db.Isolated) (hOther : other ≠ s)
    {l : Link} (hl : l ∈ db.links)
    (hIn : (start.inSite other l.fromPage || start.inSite other l.toPage) = true) :
    start.elsewhere s l.fromPage = true := by
  obtain ⟨p, hp, q, hq, hFrom, hTo, hSame⟩ := hIsolated l hl
  have hSite : p.site = other := by
    rw [← h.inSite hOther] at hIn
    rcases Bool.or_eq_true_iff.mp hIn with hIn | hIn
    · obtain ⟨r, hr, hKey, hSite⟩ := Database.inSite_iff.mp hIn
      rw [h.consistent.pages.eq hp hr (hFrom.trans hKey.symm), hSite]
    · obtain ⟨r, hr, hKey, hSite⟩ := Database.inSite_iff.mp hIn
      rw [hSame, h.consistent.pages.eq hq hr (hTo.trans hKey.symm), hSite]
  exact hFrom ▸ h.outside hp (hSite ▸ hOther)

theorem linksIn (h : Untouched start s db) (hStart : start.Consistent) (hIsolated : start.Isolated)
    (hEnd : db.Isolated) (hOther : other ≠ s) : db.linksIn other = start.linksIn other := by
  rw [Database.linksIn, Database.linksIn, h.inSite hOther,
    ← filter_filter_of fun l hl hIn => h.elsewhere_of_link hEnd hOther hl hIn, h.links]
  exact filter_filter_of fun l hl hIn => (refl hStart).elsewhere_of_link hIsolated hOther hl hIn

theorem valuesIn (h : Untouched start s db) (hOther : other ≠ s) :
    db.valuesIn other = start.valuesIn other := by
  rw [Database.valuesIn, Database.valuesIn, h.inSite hOther,
    ← filter_filter_of fun v _ hIn => elsewhere_of_inSite hOther hIn, h.values]
  exact filter_filter_of fun v _ hIn => elsewhere_of_inSite hOther hIn

theorem scheduledIn (h : Untouched start s db) (hOther : other ≠ s) :
    db.scheduledIn other = start.scheduledIn other := by
  rw [Database.scheduledIn, Database.scheduledIn, h.inSite hOther,
    ← filter_filter_of fun r _ hIn => elsewhere_of_inSite hOther hIn, h.scheduled]
  exact filter_filter_of fun r _ hIn => elsewhere_of_inSite hOther hIn

end Untouched

/-- Whatever runs, every link joins two pages of one site, and from a database
of that kind a call on one site changes no row of any other site. -/
theorem sites_isolated (py : Platform) :
    (∀ pool db, Concurrent (Call.Opens py fun _ => True) .empty pool db →
      db.Consistent ∧ db.Isolated) ∧
    ∀ input db call s, db.Consistent → db.Isolated → call.AimsAt db s →
      let db' := ((Call.session py input call).run db).2
      db'.Isolated ∧ ∀ other, other ≠ s →
        db'.pagesIn other = db.pagesIn other ∧ db'.linksIn other = db.linksIn other ∧
        db'.valuesIn other = db.valuesIn other ∧ db'.scheduledIn other = db.scheduledIn other := by
  constructor
  · intro pool db h
    have hSecure (p : Session Unit) (hOpens : Call.Opens py (fun _ => True) p) (w : Ledger Nat)
        (_ : Ledger.ofDatabase (·.site) .empty Database.consistent_empty ≤ w) :
        sites.Keeps Discipline.Any w p := by
      obtain ⟨input, call, -, rfl⟩ := hOpens
      exact sites_call call w
    have hStart : sites.Holds (.ofDatabase (·.site) .empty Database.consistent_empty) .empty :=
      Ledger.describes_ofDatabase _ _ fun l hl => nomatch hl
    obtain ⟨w, -, hDb, -⟩ := h.holds hSecure hStart
    exact ⟨hDb.consistent, (Database.isolated_iff hDb.consistent).mpr hDb.linksJoin⟩
  · intro input db call s hDb hIsolated hAims
    have hFrame : Untouched db s ((call.session py input).run db).2 :=
      untouched_call hDb hIsolated hAims
    have hEnd : Database.Isolated ((call.session py input).run db).2 :=
      (isolated_call hDb hIsolated call).2
    refine ⟨hEnd, fun other hOther => ⟨hFrame.pagesIn hOther, ?_, hFrame.valuesIn hOther,
      hFrame.scheduledIn hOther⟩⟩
    exact hFrame.linksIn hDb hIsolated hEnd hOther

/-- Two sites, each with the page `/`. -/
def Database.paired : Database :=
  ((Call.session (.scripted []) (.scripted (.raised dataError))
    (.operation (.initSite "http://g/" "t"))).run .seeded).2

/-- Deleting the page of one of the two sites leaves the page of the other. -/
theorem sites_isolated_paired :
    let db' := ((Call.session (.scripted []) (.scripted (.raised dataError))
      (.operation (.pageDelete 1))).run .paired).2
    db'.pages.length = 1 ∧ Database.paired.pagesIn 2 ≠ [] ∧
      db'.pagesIn 2 = Database.paired.pagesIn 2 := by
  have hPaired : Database.paired.Consistent ∧ Database.paired.Isolated :=
    isolated_call Database.consistent_seeded (fun l hl => nomatch hl) _
  have hAims : Call.AimsAt .paired 1 (.operation (.pageDelete 1)) := ⟨seedPage, rfl, rfl⟩
  have hFrame := (sites_isolated (.scripted [])).2 (.scripted (.raised dataError)) .paired _ 1
    hPaired.1 hPaired.2 hAims
  exact ⟨by decide, by decide, (hFrame.2 2 (by decide)).1⟩

end Spidercheck
