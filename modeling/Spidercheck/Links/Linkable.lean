import Spidercheck.Addresses.Identity
import Spidercheck.Model.Ledger

/-! Pages that are not to be linked to. The flag of a page and the links to it
are changed in different places: the crawler asks for the flag before it links,
and the view that takes the flag away deletes the links first. -/
namespace Spidercheck

open Text Execution Relational

variable {py : Platform} {input : Input} {db : Database} {page : Page}

abbrev Database.LinksLinkable (db : Database) : Prop :=
  db.LinksJoin (·.isLinkable) fun _ linkable => linkable = true

/-- During a call that leaves the flags alone, the flag is assigned to the key of a page. -/
def flags : OpenDiscipline (Ledger Bool) :=
  ledger (·.isLinkable) (fun _ linkable => linkable = true) fun _ _ _ _ hLinkable => hLinkable

/-- Every call but the switch of the flag keeps the links among linkable pages. -/
theorem linksLinkable_call {call : Call} (hDb : db.Consistent) (hLinks : db.LinksLinkable)
    (hOther : ∀ pk, call ≠ .operation (.toogleIsLinkable pk)) :
    let db' := ((call.session py input).run db).2
    db'.Consistent ∧ db'.LinksLinkable := by
  let w : Ledger Bool := .ofDatabase (·.isLinkable) db hDb
  have hKeeps : flags.Keeps Discipline.Any w (call.session py input) := by
    apply OpenDiscipline.call (d := flags) trivial
    · apply OpenDiscipline.follows_of_free
      exact fun _ _ hLinkable _ _ => hLinkable
    · exact fun pk hEq => absurd hEq (hOther pk)
  have hStart : flags.Holds w db := Ledger.describes_ofDatabase _ hDb hLinks
  obtain ⟨w', -, hEnd, -⟩ := hKeeps.run hStart
  exact ⟨hEnd.consistent, hEnd.linksJoin⟩

/-- A row that is linkable, or that no link leads to, may replace the row with its key. -/
theorem linksLinkable_replace {row : Page} (hLinks : db.LinksLinkable)
    (hRow : row.isLinkable = true ∨ ∀ l ∈ db.links, l.toPage ≠ row.idPage) :
    Database.LinksLinkable { db with pages := replace Page.idPage row db.pages } := by
  intro l hl p hp hFrom q hq hTo
  -- the row that the link comes from had the same key before
  obtain ⟨p', hp', hFrom'⟩ : ∃ p' ∈ db.pages, p'.idPage = l.fromPage := by
    rcases mem_replace.mp hp with ⟨rfl, r, hr, hKey⟩ | ⟨hp, -⟩
    · exact ⟨r, hr, hKey.trans hFrom⟩
    · exact ⟨p, hp, hFrom⟩
  rcases mem_replace.mp hq with ⟨rfl, -⟩ | ⟨hq, -⟩
  · rcases hRow with hLinkable | hNone
    · exact hLinkable
    · exact absurd hTo.symm (hNone l hl)
  · exact hLinks l hl p' hp' hFrom' q hq hTo

/-- Saving a row keeps them there, unless it takes the flag of a target. -/
theorem linksLinkable_savePage (hDb : db.Consistent) (hPage : page ∈ db.pages)
    (hLinks : db.LinksLinkable) (stamp : Nat → Time) {row : Page} (hKey : row.idPage = page.idPage)
    (hPath : row.fullPath = page.fullPath)
    (hRow : row.isLinkable = true ∨ ∀ l ∈ db.links, l.toPage ≠ row.idPage) :
    ((Session.savePage stamp row).run db).2.LinksLinkable := by
  rw [run_savePage_of_stored hDb stamp ⟨page, hPage, hKey.symm, hPath.symm⟩]
  split
  · exact linksLinkable_replace hLinks hRow
  · exact hLinks

theorem linksLinkable_deleteLinks (hLinks : db.LinksLinkable) (doomed : Link → Bool) :
    (db.deleteLinks doomed).LinksLinkable :=
  fun l hl => hLinks l (List.mem_of_mem_filter hl)

/-- Taking the flag away deletes the links first. -/
theorem run_toogle (stamp : Nat → Time) (page : Page) (db : Database) :
    ((toogle stamp page).run db).2 =
      ((Session.savePage stamp { page with isLinkable := !page.isLinkable }).run
        (if page.isLinkable then db.deleteLinks (·.toPage == page.idPage) else db)).2 := by
  cases hFlag : page.isLinkable with
  | true =>
      simp only [toogle, hFlag]
      rfl
  | false =>
      simp only [toogle, hFlag]
      rfl

/-- The switch deletes the links to a page before it takes the flag. -/
theorem linksLinkable_toogle (hDb : db.Consistent) (hPage : page ∈ db.pages)
    (hLinks : db.LinksLinkable) (stamp : Nat → Time) :
    ((toogle stamp page).run db).2.LinksLinkable := by
  rw [run_toogle]
  cases hFlag : page.isLinkable with
  | true =>
      have hNone : ∀ l ∈ (db.deleteLinks (·.toPage == page.idPage)).links, l.toPage ≠ page.idPage := by
        intro l hl
        simpa using (List.mem_filter.mp hl).2
      exact linksLinkable_savePage (hDb.deleteLinks _) hPage (linksLinkable_deleteLinks hLinks _)
        stamp rfl rfl (.inr hNone)
  | false => exact linksLinkable_savePage hDb hPage hLinks stamp rfl rfl (.inl rfl)

/-- The step lemma. -/
theorem linksLinkable_step (hDb : db.Consistent) (hLinks : db.LinksLinkable) (call : Call) :
    let db' := ((call.session py input).run db).2
    db'.Consistent ∧ db'.LinksLinkable := by
  by_cases hToogle : ∃ pk, call = .operation (.toogleIsLinkable pk)
  · obtain ⟨pk, rfl⟩ := hToogle
    show Database.Consistent ((toogleIsLinkable input.stamp pk).run db).2 ∧
      Database.LinksLinkable ((toogleIsLinkable input.stamp pk).run db).2
    rw [toogleIsLinkable, run_loadPage_bind]
    cases hPage : db.pageById pk with
    | none => exact ⟨hDb, hLinks⟩
    | some page =>
        have hStored : page ∈ db.pages := (mem_of_lookup hPage).1
        exact ⟨(stable_consistent_all.toogle input.stamp page trivial).run hDb,
          linksLinkable_toogle hDb hStored hLinks input.stamp⟩
  · exact linksLinkable_call hDb hLinks fun pk hEq => hToogle ⟨pk, hEq⟩

/-- In every database that complete calls lead to, no link targets a page that is not linkable. -/
theorem links_linkable (py : Platform) (db : Database)
    (h : Call.Runs py (fun _ _ _ => True) .empty db) :
    ∀ l ∈ db.links, ∀ page ∈ db.pages, page.idPage = l.toPage → page.isLinkable = true := by
  have hInv : db.Consistent ∧ db.LinksLinkable := by
    apply h.keeps fun db : Database => db.Consistent ∧ db.LinksLinkable
    · exact fun input db call hInv _ => linksLinkable_step hInv.1 hInv.2 call
    · exact ⟨Database.consistent_empty, fun l hl => nomatch hl⟩
  intro l hl page hPage hTo
  obtain ⟨p, hp, hFrom⟩ := hInv.1.linkFrom l hl
  exact hInv.2 l hl p hp hFrom page hPage hTo

theorem Call.runs_crawled {Condition : Input → Database → Call → Prop} {seed href : Str}
    (hInit : Condition quiet .empty (.operation (.initSite seed "s")))
    (hUpdate : Condition quiet (.started seed href) (.operation (.updateLinks 1 []))) :
    Call.Runs (.scripted [anchor href]) Condition .empty (.crawled seed href) :=
  .tail (.tail .refl ⟨quiet, _, hInit, rfl⟩) ⟨quiet, _, hUpdate, rfl⟩

/-- The link of a seed page to the page that it leads to. -/
theorem links_linkable_crawled :
    (Database.crawled "http://h/" "a.html").links ≠ [] ∧
      ∀ l ∈ (Database.crawled "http://h/" "a.html").links,
        ∀ page ∈ (Database.crawled "http://h/" "a.html").pages,
          page.idPage = l.toPage → page.isLinkable = true :=
  ⟨by decide, links_linkable (.scripted [anchor "a.html"]) _ (Call.runs_crawled trivial trivial)⟩

end Spidercheck
