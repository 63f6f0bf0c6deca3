import Spidercheck.Checks.Recorded
import Spidercheck.Scheduling.Rotation

/-! The choice of the next page to check: which of the queries answers, and
what is known of the page that it gives. -/
namespace Spidercheck

open Text Execution Relational Scheduling

inductive Branch where
  | scheduled
  | errors
  | queue
  | recheck
  deriving DecidableEq, Repr

variable {db : Database} {site : Site} {page : Page} {now : Time} {draw : ℚ}

/-- The query that `next_page_to_check` takes its answer from. -/
def Site.branchTaken (site : Site) (db : Database) (now : Time) (draw : ℚ) : Branch :=
  if (site.firstDue db now).isSome then .scheduled
  else if 0 < (site.pagesWithErrors db).length ∧ draw ≤ 1 / 2 then .errors
  else if 0 < (site.unchecked db).length then .queue
  else .recheck

def Site.due (site : Site) (db : Database) (now : Time) : List (ScheduledPage × Page) :=
  (site.allScheduledPages db).filter fun row => Site.watermark row < now

theorem mem_pagesOf : page ∈ db.pagesOf site ↔ page ∈ db.pages ∧ page.site = site.idSite := by
  simp [Database.pagesOf]

theorem mem_unchecked : page ∈ site.unchecked db ↔
    page ∈ db.pages ∧ page.site = site.idSite ∧ page.isChecked = false := by
  simp [Site.unchecked, mem_pagesOf, and_assoc]

theorem mem_checked : page ∈ site.checked db ↔
    page ∈ db.pages ∧ page.site = site.idSite ∧ page.isChecked = true := by
  simp [Site.checked, mem_pagesOf, and_assoc]

theorem mem_pagesWithErrors : page ∈ site.pagesWithErrors db ↔
    page ∈ db.pages ∧ page.site = site.idSite ∧ page.isChecked = true ∧
      (page.status < 200 ∨ 300 < page.status) := by
  simp [Site.pagesWithErrors, mem_pagesOf, and_assoc]

theorem mem_due {row : ScheduledPage × Page} :
    row ∈ site.due db now ↔ row.1 ∈ db.scheduled ∧ db.pageById row.1.page = some row.2 ∧
      row.2.site = site.idSite ∧ row.2.checkedAt + row.1.rotation < now := by
  obtain ⟨scheduled, page⟩ := row
  simp only [Site.due, Site.allScheduledPages, List.mem_filter, List.mem_filterMap,
    decide_eq_true_eq]
  constructor
  · rintro ⟨⟨other, hMem, hBind⟩, hNow⟩
    obtain ⟨found, hFound, hSite⟩ := Option.bind_eq_some_iff.mp hBind
    by_cases hEq : found.site = site.idSite
    · rw [if_pos hEq] at hSite
      cases hSite
      exact ⟨hMem, hFound, hEq, hNow⟩
    · rw [if_neg hEq] at hSite
      cases hSite
  · rintro ⟨hMem, hFound, hSite, hNow⟩
    exact ⟨⟨scheduled, hMem, by simp [hFound, hSite]⟩, hNow⟩

/-- The first row of an order is the least one. -/
theorem mem_of_firstBy {α Row : Type} [LinearOrder α] {key : Row → α} {rows : List Row} {row : Row}
    (h : firstBy key rows = some row) : row ∈ rows ∧ ∀ other ∈ rows, key row ≤ key other :=
  ⟨List.argmin_mem h, fun _ hOther => List.le_of_mem_argmin hOther h⟩

/-- What a branch promises of the page that it chose. -/
def Chosen (site : Site) (db : Database) (now : Time) (page : Page) : Branch → Prop
  | .scheduled => ∃ row ∈ site.due db now, row.2 = page ∧
      ∀ other ∈ site.due db now, Site.scheduledOrder row ≤ Site.scheduledOrder other
  | .errors => page ∈ site.pagesWithErrors db ∧
      ∀ other ∈ site.pagesWithErrors db, page.checkedAt ≤ other.checkedAt
  | .queue => page ∈ site.unchecked db ∧ ∀ other ∈ site.unchecked db, page.createdAt ≤ other.createdAt
  | .recheck => site.unchecked db = [] ∧ page ∈ site.checked db ∧
      ∀ other ∈ site.checked db, page.checkedAt ≤ other.checkedAt

/-- A site without unchecked and checked pages has none. -/
theorem pagesOf_eq_nil (hUnchecked : site.unchecked db = []) (hChecked : site.checked db = []) :
    db.pagesOf site = [] := by
  rw [List.eq_nil_iff_forall_not_mem]
  intro p hp
  have hMem := mem_pagesOf.mp hp
  cases hMark : p.isChecked with
  | true =>
      have hChecked' : p ∈ site.checked db := mem_checked.mpr ⟨hMem.1, hMem.2, hMark⟩
      rw [hChecked] at hChecked'
      cases hChecked'
  | false =>
      have hUnchecked' : p ∈ site.unchecked db := mem_unchecked.mpr ⟨hMem.1, hMem.2, hMark⟩
      rw [hUnchecked] at hUnchecked'
      cases hUnchecked'

/-- The page that is chosen is the first one of the branch that was taken. The
query over all pages at the end is never reached with a page to give. -/
theorem chosen_of_nextPageToCheck (h : site.nextPageToCheck db now draw = some page) :
    Chosen site db now page (site.branchTaken db now draw) := by
  unfold Site.nextPageToCheck at h
  unfold Site.branchTaken
  cases hDue : site.firstDue db now with
  | some row =>
      obtain rfl : row.2 = page := by simpa [hDue] using h
      obtain ⟨hMem, hFirst⟩ := mem_of_firstBy hDue
      exact ⟨row, hMem, rfl, hFirst⟩
  | none =>
      simp only [hDue, Option.isSome_none, Bool.false_eq_true, if_false] at h ⊢
      by_cases hErrors : 0 < (site.pagesWithErrors db).length ∧ draw ≤ 1 / 2
      · rw [if_pos hErrors] at h ⊢
        exact mem_of_firstBy h
      · rw [if_neg hErrors] at h ⊢
        by_cases hQueue : 0 < (site.unchecked db).length
        · have hAll : 0 < (site.allQueuedPages db).length := by
            rw [Site.allQueuedPages, if_pos hQueue]
            exact hQueue
          rw [if_pos hAll, Site.firstQueuedPage, if_pos hQueue] at h
          rw [if_pos hQueue]
          exact mem_of_firstBy h
        · have hNone : site.unchecked db = [] := by simpa using hQueue
          rw [if_neg hQueue]
          refine ⟨hNone, ?_⟩
          by_cases hAll : 0 < (site.allQueuedPages db).length
          · rw [if_pos hAll, Site.firstQueuedPage, if_neg hQueue] at h
            exact mem_of_firstBy h
          · have hChecked : site.checked db = [] := by
              rw [Site.allQueuedPages, if_neg hQueue] at hAll
              simpa using hAll
            rw [if_neg hAll, pagesOf_eq_nil hNone hChecked] at h
            cases h

/-- The database, and the clock that the program and the database share. -/
structure Moment where
  db : Database
  clock : Time

structure Choice where
  branch : Branch
  page : Page
  frontier : Database

structure Arrivals (db db' : Database) : Prop where
  consistent : db'.Consistent
  sites : db'.sites = db.sites
  scheduled : db'.scheduled = db.scheduled
  pages : ∃ new, db'.pages = db.pages ++ new

/-- One step of the crawler: pages may have arrived, the next page is chosen, and
a check of that page returns. The clock only moves forward. Both additions of
pages, before the choice and by the check itself, meet a condition. -/
inductive Round (py : Platform) (site : Site) (Added : Database → Database → Prop) :
    Moment → Choice → Moment → Prop where
  | round {db db' db'' : Database} {clock now clock' : Time} {draw : ℚ} {page : Page}
      {answer : Site → Page → Except PyError (Result Payload)} {input : Input} {r : Result Str}
      (arrivals : Arrivals db db') (hArrived : Added db db') (hNow : clock < now)
      (hChoice : site.nextPageToCheck db' now draw = some page) (hLater : now < input.justNow)
      (hCheck : (checkPageWith answer py input page).run db' = (.ok r, db''))
      (hFound : Added db' db'') (hClock : input.justNow < clock') :
      Round py site Added ⟨db, clock⟩ ⟨site.branchTaken db' now draw, page, db'⟩ ⟨db'', clock'⟩

/-- A page that was chosen is a page of the site. -/
theorem Chosen.mem {branch : Branch} (h : Chosen site db now page branch) :
    page ∈ db.pages ∧ page.site = site.idSite := by
  cases branch with
  | scheduled =>
      obtain ⟨row, hRow, rfl, -⟩ := h
      obtain ⟨-, hFound, hSite, -⟩ := mem_due.mp hRow
      exact ⟨(mem_of_lookup hFound).1, hSite⟩
  | errors => exact ⟨(mem_pagesWithErrors.mp h.1).1, (mem_pagesWithErrors.mp h.1).2.1⟩
  | queue => exact ⟨(mem_unchecked.mp h.1).1, (mem_unchecked.mp h.1).2.1⟩
  | recheck => exact ⟨(mem_checked.mp h.2.1).1, (mem_checked.mp h.2.1).2.1⟩

/-- What a round does: it serves a page that its branch chose, whose row is then
marked with a time of the round, and every other page is as it was. -/
structure Served (site : Site) (s : Moment) (choice : Choice) (t : Moment) : Prop where
  arrivals : Arrivals s.db choice.frontier
  chosen : ∃ now, s.clock < now ∧ Chosen site choice.frontier now choice.page choice.branch
  consistent : t.db.Consistent
  later : s.clock < t.clock
  scheduled : t.db.scheduled = s.db.scheduled
  row : ∃ row ∈ t.db.pages, row.idPage = choice.page.idPage ∧
    row.fullPath = choice.page.fullPath ∧ row.createdAt = choice.page.createdAt ∧
    row.isChecked = true ∧ s.clock < row.checkedAt
  others : ∀ p ∈ choice.frontier.pages, p.idPage ≠ choice.page.idPage → p ∈ t.db.pages

theorem served_of_round {py : Platform} {Added : Database → Database → Prop} {s t : Moment}
    {choice : Choice} (h : Round py site Added s choice t) :
    Added s.db choice.frontier ∧ Added choice.frontier t.db ∧ Served site s choice t := by
  cases h with
  | @round db db' db'' clock now clock' draw page answer input r arrivals hArrived hNow hChoice
      hLater hCheck hFound hClock =>
      have hChosen := chosen_of_nextPageToCheck hChoice
      have hPage : page ∈ db'.pages := hChosen.mem.1
      have hRecorded := recorded_of_returns arrivals.consistent hPage hCheck
      obtain ⟨row, new, hRow, hPages, hNew⟩ := hRecorded.pages
      have hMem : row ∈ db''.pages := by
        rw [hPages]
        exact List.mem_append_left _ (mem_replace.mpr (.inl ⟨rfl, page, hPage, hRow.idPage.symm⟩))
      have hTime : clock < row.checkedAt := by
        rw [hRow.checkedAt]
        exact hNow.trans hLater
      refine ⟨hArrived, hFound, {
        arrivals := arrivals
        chosen := ⟨now, hNow, hChosen⟩
        consistent := hRecorded.consistent
        later := hNow.trans (hLater.trans hClock)
        scheduled := hRecorded.scheduled.trans arrivals.scheduled
        row := ⟨row, hMem, hRow.idPage, hRow.fullPath, hRow.createdAt, hRow.isChecked, hTime⟩
        others := ?_ }⟩
      intro p hp hNe
      rw [hPages]
      exact List.mem_append_left _ (mem_replace.mpr (.inr ⟨hp, hRow.idPage ▸ hNe⟩))

namespace Served
variable {s t : Moment} {choice : Choice}

theorem mem (h : Served site s choice t) :
    choice.page ∈ choice.frontier.pages ∧ choice.page.site = site.idSite := by
  obtain ⟨now, -, hChosen⟩ := h.chosen
  exact hChosen.mem

theorem mem_arrivals (h : Served site s choice t) {p : Page} (hp : p ∈ s.db.pages) :
    p ∈ choice.frontier.pages := by
  obtain ⟨new, hPages⟩ := h.arrivals.pages
  rw [hPages]
  exact List.mem_append_left _ hp

/-- A stored page that was not served is stored as before. -/
theorem stays (h : Served site s choice t) {p : Page} (hp : p ∈ s.db.pages)
    (hNe : p.idPage ≠ choice.page.idPage) : p ∈ t.db.pages :=
  h.others p (h.mem_arrivals hp) hNe

end Served

end Spidercheck
