import Spidercheck.Frontier.Selection

/-! Bounded bypass. Each branch of the selection is a rotation: a page that was
checked goes behind the pages that wait, because its time of check is now the
latest one, and no branch chooses a page behind a waiting one. -/
namespace Spidercheck

open Text Execution Relational Scheduling

variable {site : Site} {s t : Moment} {branch : Branch} {p q : Nat}

def Eligible (site : Site) (s : Moment) (q : Nat) : Branch → Prop
  | .scheduled => ∃ row ∈ site.due s.db s.clock, row.2.idPage = q
  | .errors => ∃ row ∈ site.pagesWithErrors s.db, row.idPage = q
  | .queue => ∃ row ∈ site.unchecked s.db, row.idPage = q
  | .recheck => site.unchecked s.db = [] ∧ ∃ row ∈ site.checked s.db, row.idPage = q

/-- What keeps a page waiting for a branch. -/
def WaitsFor (db : Database) (clock : Time) (row : Page) : Branch → Prop
  | .scheduled => ∃ scheduled ∈ db.scheduled, scheduled.page = row.idPage ∧
      row.checkedAt + scheduled.rotation < clock
  | .errors => row.isChecked = true ∧ (row.status < 200 ∨ 300 < row.status)
  | .queue => row.isChecked = false
  | .recheck => row.isChecked = true

/-- A page of the site that was checked in the past and waits for a branch. -/
def Waiting (site : Site) (branch : Branch) (s : Moment) (q : Nat) : Prop :=
  s.db.Consistent ∧ ∃ row ∈ s.db.pages, row.idPage = q ∧ row.site = site.idSite ∧
    row.checkedAt < s.clock ∧ WaitsFor s.db s.clock row branch

/-- The page `p` was checked after the page `q`. -/
def Behind (s : Moment) (q p : Nat) : Prop :=
  ∃ rowQ ∈ s.db.pages, ∃ rowP ∈ s.db.pages, rowQ.idPage = q ∧ rowP.idPage = p ∧
    rowP.isChecked = true ∧ rowQ.checkedAt < rowP.checkedAt

/-- A page that may be selected now waits from now on. -/
theorem waiting_of_eligible (hDb : s.db.Consistent) (hPast : ∀ p ∈ s.db.pages, p.checkedAt < s.clock)
    (h : Eligible site s q branch) : Waiting site branch s q := by
  refine ⟨hDb, ?_⟩
  cases branch with
  | scheduled =>
      obtain ⟨row, hRow, rfl⟩ := h
      obtain ⟨hScheduled, hFound, hSite, hDue⟩ := mem_due.mp hRow
      obtain ⟨hMem, hKey⟩ := mem_of_lookup hFound
      exact ⟨row.2, hMem, rfl, hSite, hPast _ hMem, row.1, hScheduled, hKey.symm, hDue⟩
  | errors =>
      obtain ⟨row, hRow, rfl⟩ := h
      obtain ⟨hMem, hSite, hWaits⟩ := mem_pagesWithErrors.mp hRow
      exact ⟨row, hMem, rfl, hSite, hPast _ hMem, hWaits⟩
  | queue =>
      obtain ⟨row, hRow, rfl⟩ := h
      obtain ⟨hMem, hSite, hWaits⟩ := mem_unchecked.mp hRow
      exact ⟨row, hMem, rfl, hSite, hPast _ hMem, hWaits⟩
  | recheck =>
      obtain ⟨-, row, hRow, rfl⟩ := h
      obtain ⟨hMem, hSite, hWaits⟩ := mem_checked.mp hRow
      exact ⟨row, hMem, rfl, hSite, hPast _ hMem, hWaits⟩

/-- A branch does not choose a page that was checked after one that waits for it. -/
theorem Chosen.not_behind {db : Database} {now : Time} {page row : Page} (hDb : db.Consistent)
    (h : Chosen site db now page branch) (hRow : row ∈ db.pages) (hSite : row.site = site.idSite)
    (hWaits : WaitsFor db now row branch) (hChecked : page.isChecked = true) :
    page.checkedAt ≤ row.checkedAt := by
  cases branch with
  | scheduled =>
      obtain ⟨first, -, rfl, hFirst⟩ := h
      obtain ⟨scheduled, hScheduled, hPage, hDue⟩ := hWaits
      have hLe := hFirst (scheduled, row) (mem_due.mpr
        ⟨hScheduled, hPage ▸ hDb.pageById hRow, hSite, hDue⟩)
      rcases (Prod.Lex.toLex_le_toLex).mp hLe with hLt | ⟨hEq, -⟩
      · exact le_of_lt hLt
      · exact le_of_eq hEq
  | errors => exact h.2 row (mem_pagesWithErrors.mpr ⟨hRow, hSite, hWaits⟩)
  | queue =>
      have hUnchecked := (mem_unchecked.mp h.1).2.2
      rw [hChecked] at hUnchecked
      cases hUnchecked
  | recheck => exact h.2.2 row (mem_checked.mpr ⟨hRow, hSite, hWaits⟩)

/-- A page waits on, while the clock moves forward and its row stays. -/
theorem WaitsFor.later {db db' : Database} {clock clock' : Time} {row : Page}
    (h : WaitsFor db clock row branch) (hScheduled : db'.scheduled = db.scheduled)
    (hClock : clock ≤ clock') : WaitsFor db' clock' row branch := by
  cases branch with
  | scheduled =>
      obtain ⟨scheduled, hMem, hPage, hDue⟩ := h
      exact ⟨scheduled, hScheduled ▸ hMem, hPage, lt_of_lt_of_le hDue hClock⟩
  | errors => exact h
  | queue => exact h
  | recheck => exact h

def Choice.served (choice : Choice) : Branch × Nat := (choice.branch, choice.page.idPage)

/-- The rounds of a branch serve its pages like a queue. -/
theorem rotation (py : Platform) (site : Site) (Added : Database → Database → Prop)
    (branch : Branch) :
    Rotation (fun s event t => ∃ choice, Choice.served choice = event ∧ Round py site Added s choice t)
      branch (Waiting site branch) Behind where
  picks s p t q := by
    rintro ⟨choice, hEvent, hRound⟩ ⟨hDb, row, hRow, hKey, hSite, -, hWaits⟩
      ⟨rowQ, hQ, rowP, hP, hKeyQ, hKeyP, hChecked, hLt⟩
    obtain ⟨rfl, rfl⟩ := Prod.mk.inj hEvent
    obtain ⟨-, -, hServed⟩ := served_of_round hRound
    obtain ⟨now, hNow, hChosen⟩ := hServed.chosen
    -- the two rows are those of the served page and of the waiting one
    obtain rfl : rowQ = row := hDb.pages.eq hQ hRow (hKeyQ.trans hKey.symm)
    obtain rfl : rowP = choice.page := hServed.arrivals.consistent.pages.eq
      (hServed.mem_arrivals hP) hServed.mem.1 hKeyP
    have hLe := hChosen.not_behind hServed.arrivals.consistent (hServed.mem_arrivals hRow)
      hSite (hWaits.later hServed.arrivals.scheduled (le_of_lt hNow)) hChecked
    exact absurd hLt (not_lt_of_ge hLe)
  sent s c p t q := by
    rintro ⟨choice, hEvent, hRound⟩ ⟨hDb, row, hRow, hKey, -, hPast, -⟩ hNe
    obtain ⟨rfl, rfl⟩ := Prod.mk.inj hEvent
    obtain ⟨-, -, hServed⟩ := served_of_round hRound
    obtain ⟨rowP, hP, hKeyP, -, -, hChecked, hLater⟩ := hServed.row
    exact ⟨row, hServed.stays hRow (hKey ▸ hNe), rowP, hP, hKey, hKeyP, hChecked,
      hPast.trans hLater⟩
  waits s c p t q := by
    rintro ⟨choice, hEvent, hRound⟩ ⟨hDb, row, hRow, hKey, hSite, hPast, hWaits⟩ hNe
    obtain ⟨rfl, rfl⟩ := Prod.mk.inj hEvent
    obtain ⟨-, -, hServed⟩ := served_of_round hRound
    exact ⟨hServed.consistent, row, hServed.stays hRow (hKey ▸ hNe), hKey, hSite,
      hPast.trans hServed.later, hWaits.later hServed.scheduled (le_of_lt hServed.later)⟩
  keeps s c r t q p := by
    rintro ⟨choice, hEvent, hRound⟩ - hNeQ hNeP
      ⟨rowQ, hQ, rowP, hP, hKeyQ, hKeyP, hChecked, hLt⟩
    obtain ⟨rfl, rfl⟩ := Prod.mk.inj hEvent
    obtain ⟨-, -, hServed⟩ := served_of_round hRound
    exact ⟨rowQ, hServed.stays hQ (hKeyQ ▸ hNeQ), rowP, hServed.stays hP (hKeyP ▸ hNeP),
      hKeyQ, hKeyP, hChecked, hLt⟩

/-- While a page that is eligible for a branch stays unselected, that branch
selects every other page at most once. -/
theorem bypass_bounded (py : Platform) (site : Site) (Added : Database → Database → Prop)
    (branch : Branch) (s t : Moment) (trace : List Choice)
    (run : Steps (Round py site Added) s trace t) (hDb : s.db.Consistent)
    (hPast : ∀ p ∈ s.db.pages, p.checkedAt < s.clock) (q : Nat)
    (hEligible : Eligible site s q branch) (hUnselected : ∀ choice ∈ trace, choice.page.idPage ≠ q)
    (p : Nat) : (trace.map Choice.served).count (branch, p) ≤ 1 := by
  apply (rotation py site Added branch).bypass (run.map Choice.served)
    (waiting_of_eligible hDb hPast hEligible)
  intro event hEvent
  obtain ⟨choice, hChoice, rfl⟩ := List.mem_map.mp hEvent
  exact hUnselected choice hChoice

def twoPages : Database :=
  { Database.seeded with
    pages := [seedPage, { Page.new 1 "/b" [] with idPage := 2, createdAt := 2 }]
    nextPage := 3 }

theorem consistent_twoPages : twoPages.Consistent := by
  constructor <;> simp [twoPages, Database.seeded, Database.empty, Keyed, seedSite, seedPage,
    Page.new, Page.fullPath]
  decide

def seedChecked : Database :=
  { twoPages with
    pages := [failedRow (.scripted (.raised dataError)) seedPage dataError,
      { Page.new 1 "/b" [] with idPage := 2, createdAt := 2 }] }

/-- The seed page is checked while the other page waits. -/
theorem round_twoPages {Added : Database → Database → Prop} (hArrived : Added twoPages twoPages)
    (hFound : Added twoPages seedChecked) :
    Round (.scripted []) seedSite Added ⟨twoPages, 5⟩ ⟨.queue, seedPage, twoPages⟩
      ⟨seedChecked, 11⟩ := by
  have hArrivals : Arrivals twoPages twoPages := ⟨consistent_twoPages, rfl, rfl, [], by simp⟩
  have hChoice : seedSite.nextPageToCheck twoPages 6 1 = some seedPage := by decide
  have hRun : (checkPage (.scripted []) (.scripted (.raised dataError)) seedPage).run twoPages = _ :=
    rfl
  exact .round hArrivals hArrived (by decide : (5 : Time) < 6) hChoice (by decide) hRun hFound
    (by decide)

theorem bypass_bounded_twoPages :
    ([(Branch.queue, 1)].count (.queue, 1)) ≤ 1 :=
  bypass_bounded _ seedSite (fun _ _ => True) .queue ⟨twoPages, 5⟩ _ [⟨.queue, seedPage, twoPages⟩]
    (.cons (round_twoPages trivial trivial) (.refl _)) consistent_twoPages (by decide) 2
    ⟨{ Page.new 1 "/b" [] with idPage := 2, createdAt := 2 }, by decide, rfl⟩ (by decide) 1

end Spidercheck
