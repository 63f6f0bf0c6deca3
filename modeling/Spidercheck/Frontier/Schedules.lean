import Spidercheck.Frontier.Coverage
import Spidercheck.Scheduling.Pacing
import Mathlib.Algebra.BigOperators.Ring.Finset

/-! Scheduled pages. One of them goes before all others once its rotation has passed
since its last check, so between two such checks more than the rotation passes. This
bounds the rounds that scheduled pages take from the others, as long as all
rotations are positive; one that is not takes all rounds. -/
namespace Spidercheck

open Text Execution Relational Scheduling

variable {py : Platform} {site : Site} {Added : Database → Database → Prop} {s t : Moment}
  {choice : Choice} {row : Page} {k : Nat} {schedule : ScheduledPage}

def Site.schedules (site : Site) (db : Database) : List ScheduledPage :=
  (site.allScheduledPages db).map (·.1)

def Moment.lastCheck (s : Moment) (k : Nat) : Time :=
  ((s.db.pageById k).map (·.checkedAt)).getD epoch

def Choice.scheduledFor (k : Nat) (choice : Choice) : Bool :=
  choice.branch == .scheduled && choice.page.idPage == k

theorem mem_schedules {db : Database} : schedule ∈ site.schedules db ↔
    schedule ∈ db.scheduled ∧ ∃ p, db.pageById schedule.page = some p ∧ p.site = site.idSite := by
  simp only [Site.schedules, Site.allScheduledPages, List.mem_map, List.mem_filterMap]
  constructor
  · rintro ⟨⟨_, page⟩, ⟨other, hMem, hBind⟩, rfl⟩
    obtain ⟨found, hFound, hSite⟩ := Option.bind_eq_some_iff.mp hBind
    by_cases hEq : found.site = site.idSite
    · rw [if_pos hEq] at hSite
      cases hSite
      exact ⟨hMem, page, hFound, hEq⟩
    · rw [if_neg hEq] at hSite
      cases hSite
  · rintro ⟨hMem, p, hFound, hSite⟩
    exact ⟨(schedule, p), ⟨schedule, hMem, by simp [hFound, hSite]⟩, rfl⟩

theorem Database.Consistent.lastCheck (h : s.db.Consistent) (hRow : row ∈ s.db.pages) :
    s.lastCheck row.idPage = row.checkedAt := by
  rw [Moment.lastCheck, h.pageById hRow]
  rfl

/-- The times of a round: it chooses, and later it checks. -/
theorem timed_of_round (h : Round py site Added s choice t) :
    ∃ now, s.clock < now ∧ Chosen site choice.frontier now choice.page choice.branch ∧
      now < t.lastCheck choice.page.idPage ∧ t.lastCheck choice.page.idPage < t.clock := by
  cases h with
  | @round db db' db'' clock now clock' draw page answer input r arrivals hArrived hNow hChoice
      hLater hCheck hFound hClock =>
      have hChosen := chosen_of_nextPageToCheck hChoice
      have hPage : page ∈ db'.pages := hChosen.mem.1
      have hRecorded := recorded_of_returns arrivals.consistent hPage hCheck
      obtain ⟨row, new, hRow, hPages, -⟩ := hRecorded.pages
      have hMem : row ∈ db''.pages := by
        rw [hPages]
        exact List.mem_append_left _ (mem_replace.mpr (.inl ⟨rfl, page, hPage, hRow.idPage.symm⟩))
      have hTime : Moment.lastCheck ⟨db'', clock'⟩ page.idPage = input.justNow := by
        rw [← hRow.idPage, ← hRow.checkedAt]
        exact Database.Consistent.lastCheck hRecorded.consistent hMem
      refine ⟨now, hNow, hChosen, ?_, ?_⟩
      · rw [hTime]
        exact hLater
      · rw [hTime]
        exact hClock

structure Dated (k : Nat) (s : Moment) : Prop where
  consistent : s.db.Consistent
  stored : ∃ row ∈ s.db.pages, row.idPage = k
  past : s.lastCheck k < s.clock

namespace Dated

/-- A check makes the time of the checked page the present. -/
theorem lastCheck_le (h : Dated k s) (hRound : Round py site Added s choice t) :
    s.lastCheck k ≤ t.lastCheck k := by
  obtain ⟨-, -, hServed⟩ := served_of_round hRound
  obtain ⟨row, hRow, rfl⟩ := h.stored
  by_cases hSame : row.idPage = choice.page.idPage
  · obtain ⟨now, hNow, -, hLater, -⟩ := timed_of_round hRound
    rw [← hSame] at hLater
    exact le_of_lt (h.past.trans (hNow.trans hLater))
  · rw [h.consistent.lastCheck hRow, hServed.consistent.lastCheck (hServed.stays hRow hSame)]

theorem round (h : Dated k s) (hRound : Round py site Added s choice t) : Dated k t := by
  obtain ⟨-, -, hServed⟩ := served_of_round hRound
  obtain ⟨row, hRow, rfl⟩ := h.stored
  by_cases hSame : row.idPage = choice.page.idPage
  · obtain ⟨-, -, -, -, hPast⟩ := timed_of_round hRound
    obtain ⟨saved, hSaved, hKey, -⟩ := hServed.row
    exact ⟨hServed.consistent, ⟨saved, hSaved, hKey.trans hSame.symm⟩, hSame ▸ hPast⟩
  · have hStays := hServed.stays hRow hSame
    refine ⟨hServed.consistent, ⟨row, hStays, rfl⟩, ?_⟩
    rw [hServed.consistent.lastCheck hStays, ← h.consistent.lastCheck hRow]
    exact h.past.trans hServed.later

/-- The scheduled branch only takes the page when its rotation has passed. -/
theorem spaced (h : Dated schedule.page s) (hSchedule : schedule ∈ s.db.scheduled)
    (hRound : Round py site Added s choice t) (hFor : choice.scheduledFor schedule.page = true) :
    s.lastCheck schedule.page + schedule.rotation ≤ t.lastCheck schedule.page ∧
      s.clock ≤ t.lastCheck schedule.page := by
  obtain ⟨-, -, hServed⟩ := served_of_round hRound
  obtain ⟨now, hNow, hChosen, hLater, -⟩ := timed_of_round hRound
  obtain ⟨hBranch, hKey⟩ : choice.branch = .scheduled ∧ choice.page.idPage = schedule.page := by
    simpa [Choice.scheduledFor] using hFor
  rw [hKey] at hLater
  refine ⟨?_, le_of_lt (hNow.trans hLater)⟩
  rw [hBranch] at hChosen
  obtain ⟨⟨other, page⟩, hDue, rfl, -⟩ := hChosen
  obtain ⟨hScheduled, hFound, -, hPassed⟩ := mem_due.mp hDue
  -- the scheduled row is the only one of its page
  have hOther : other.page = schedule.page := (mem_of_lookup hFound).2.symm.trans hKey
  rw [hServed.arrivals.scheduled] at hScheduled
  obtain rfl : other = schedule := h.consistent.scheduled.eq hScheduled hSchedule hOther
  obtain ⟨row, hRow, hRowKey⟩ := h.stored
  obtain rfl : row = choice.page := hServed.arrivals.consistent.pages.eq (hServed.mem_arrivals hRow)
    hServed.mem.1 (hRowKey.trans hKey.symm)
  rw [← hRowKey, h.consistent.lastCheck hRow, hRowKey]
  exact le_of_lt (hPassed.trans hLater)

end Dated

/-- The scheduled branch is a paced service of each scheduled page. -/
theorem paced (py : Platform) (site : Site) (Added : Database → Database → Prop)
    (schedule : ScheduledPage) :
    Paced (fun s choice t => (Dated schedule.page s ∧ schedule ∈ s.db.scheduled) ∧
        Round py site Added s choice t)
      (·.clock) (·.lastCheck schedule.page) (Choice.scheduledFor schedule.page) schedule.rotation where
  past := by
    rintro s choice t ⟨⟨hDated, -⟩, hRound⟩
    exact ⟨le_of_lt hDated.past, le_of_lt (hDated.round hRound).past⟩
  forward := by
    rintro s choice t ⟨⟨hDated, -⟩, hRound⟩
    exact ⟨hDated.lastCheck_le hRound, le_of_lt (served_of_round hRound).2.2.later⟩
  spaced := by
    rintro s choice t ⟨⟨hDated, hSchedule⟩, hRound⟩ hFor
    exact hDated.spaced hSchedule hRound hFor

/-- A page stays one of its site. -/
theorem Served.exists_kept (h : Served site s choice t) {p : Page} (hp : p ∈ s.db.pages) :
    ∃ q ∈ t.db.pages, q.idPage = p.idPage ∧ q.site = p.site := by
  by_cases hSame : p.idPage = choice.page.idPage
  · obtain ⟨row, hRow, hKey, hPath, -⟩ := h.row
    obtain rfl : p = choice.page :=
      h.arrivals.consistent.pages.eq (h.mem_arrivals hp) h.mem.1 hSame
    exact ⟨row, hRow, hKey, congrArg Prod.fst hPath⟩
  · exact ⟨p, h.stays hp hSame, rfl, rfl⟩

/-- A round leaves the schedules of the site as they are. -/
theorem mem_schedules_served (hDb : s.db.Consistent) (h : Served site s choice t) :
    schedule ∈ site.schedules t.db ↔ schedule ∈ site.schedules s.db := by
  rw [mem_schedules, mem_schedules, h.scheduled]
  refine and_congr_right fun hMem => ?_
  obtain ⟨old, hOld, hKey⟩ := hDb.scheduledPages schedule hMem
  obtain ⟨new, hNew, hNewKey, hSite⟩ := h.exists_kept hOld
  have hBefore := hDb.pageById hOld
  have hAfter := h.consistent.pageById hNew
  rw [hNewKey, hKey] at hAfter
  rw [hKey] at hBefore
  simp [hBefore, hAfter, hSite]

/-- What the scheduled branch takes is one of them. -/
theorem exists_schedule (hDb : s.db.Consistent) (h : Served site s choice t)
    (hBranch : choice.branch = .scheduled) :
    ∃ schedule ∈ site.schedules s.db, schedule.page = choice.page.idPage := by
  obtain ⟨now, -, hChosen⟩ := h.chosen
  rw [hBranch] at hChosen
  obtain ⟨⟨schedule, page⟩, hDue, rfl, -⟩ := hChosen
  obtain ⟨hScheduled, hFound, hSite, -⟩ := mem_due.mp hDue
  rw [h.arrivals.scheduled] at hScheduled
  have hKey : choice.page.idPage = schedule.page := (mem_of_lookup hFound).2
  obtain ⟨old, hOld, hOldKey⟩ := hDb.scheduledPages schedule hScheduled
  obtain rfl : old = choice.page := h.arrivals.consistent.pages.eq (h.mem_arrivals hOld) h.mem.1
    (hOldKey.trans hKey.symm)
  exact ⟨schedule, mem_schedules.mpr ⟨hScheduled, _, hOldKey ▸ hDb.pageById hOld, hSite⟩, hKey.symm⟩

/-- A round that a schedule took belongs to one of the start. -/
theorem exists_schedule_of_mem {trace : List Choice} (run : Steps (Round py site Added) s trace t)
    (hDb : s.db.Consistent) : ∀ choice ∈ trace, choice.branch = .scheduled →
      ∃ schedule ∈ site.schedules s.db, schedule.page = choice.page.idPage := by
  induction run with
  | refl => simp
  | cons head _ ih =>
      obtain ⟨-, -, hServed⟩ := served_of_round head
      refine List.forall_mem_cons.mpr ⟨exists_schedule hDb hServed, fun choice hChoice hBranch => ?_⟩
      obtain ⟨schedule, hMem, hKey⟩ := ih hServed.consistent choice hChoice hBranch
      exact ⟨schedule, (mem_schedules_served hDb hServed).mp hMem, hKey⟩

/-- The share of the rounds of some time that a scheduled page can take. -/
def ScheduledPage.share (elapsed : Time) (schedule : ScheduledPage) : ℤ := elapsed / schedule.rotation + 1

/-- The page of a schedule is stored and was checked in the past. -/
theorem dated_of_schedules (hDb : s.db.Consistent) (hPast : ∀ p ∈ s.db.pages, p.checkedAt < s.clock)
    (h : schedule ∈ site.schedules s.db) : Dated schedule.page s := by
  obtain ⟨-, p, hFound, -⟩ := mem_schedules.mp h
  obtain ⟨hMem, hKey⟩ := mem_of_lookup hFound
  refine ⟨hDb, ⟨p, hMem, hKey⟩, ?_⟩
  rw [← hKey, hDb.lastCheck hMem]
  exact hPast p hMem

/-- A schedule takes no more rounds than its rotation allows. -/
theorem countP_scheduledFor_le {trace : List Choice} (run : Steps (Round py site Added) s trace t)
    (hDated : Dated schedule.page s) (hSchedule : schedule ∈ s.db.scheduled)
    (hRotation : 0 < schedule.rotation) :
    (trace.countP (Choice.scheduledFor schedule.page) : ℤ) ≤ schedule.share (t.clock - s.clock) := by
  have hStep : ∀ s choice t, Dated schedule.page s ∧ schedule ∈ s.db.scheduled →
      Round py site Added s choice t → Dated schedule.page t ∧ schedule ∈ t.db.scheduled :=
    fun s choice t hs hRound => ⟨hs.1.round hRound, (served_of_round hRound).2.2.scheduled ▸ hs.2⟩
  have hBound := (paced py site Added schedule).bound (le_of_lt hRotation)
    (run.strengthen hStep ⟨hDated, hSchedule⟩) (le_of_lt hDated.past)
  have hFits : ((trace.countP (Choice.scheduledFor schedule.page) : ℤ) - 1) * schedule.rotation ≤
      t.clock - s.clock := by linarith
  have hQuotient := Int.le_ediv_of_mul_le hRotation hFits
  rw [ScheduledPage.share]
  linarith

/-- Scheduled pages take no more than their share of the rounds. -/
theorem countP_scheduled_le {trace : List Choice} (run : Steps (Round py site Added) s trace t)
    (hDb : s.db.Consistent) (hPast : ∀ p ∈ s.db.pages, p.checkedAt < s.clock)
    (hRotations : ∀ schedule ∈ site.schedules s.db, 0 < schedule.rotation) :
    (trace.countP (·.branch == .scheduled) : ℤ) ≤
      ((site.schedules s.db).map (·.share (t.clock - s.clock))).sum := by
  have hKeys := countP_le_sum (fun choice : Choice => choice.branch == .scheduled) (·.page.idPage)
    ((site.schedules s.db).map (·.page)) trace fun choice hChoice hCounts => by
      obtain ⟨schedule, hMem, hKey⟩ := exists_schedule_of_mem run hDb choice hChoice (by simpa using hCounts)
      exact List.mem_map.mpr ⟨schedule, hMem, hKey⟩
  rw [List.map_map] at hKeys
  refine (Int.ofNat_le.mpr hKeys).trans ?_
  rw [Nat.cast_list_sum, List.map_map]
  refine List.sum_le_sum fun schedule hMem => ?_
  exact countP_scheduledFor_le run (dated_of_schedules hDb hPast hMem) (mem_schedules.mp hMem).1
    (hRotations schedule hMem)

/-- Every round is a regular one, one of a schedule, or one for a failing page. -/
theorem countP_branches (trace : List Choice) :
    trace.countP Choice.regular + trace.countP (·.branch == .scheduled) +
      trace.countP (·.branch == .errors) = trace.length := by
  induction trace with
  | nil => rfl
  | cons choice trace ih =>
      obtain ⟨branch, page, frontier⟩ := choice
      rw [List.countP_cons, List.countP_cons, List.countP_cons, List.length_cons]
      cases branch <;> simp [Choice.regular] <;> omega

def Database.scheduling (rotation : Time) : Database :=
  { seeded with scheduled := [{ page := 1, rotation := rotation, updatedAt := 0, createdAt := 0 }] }

theorem Database.consistent_scheduling (rotation : Time) : (Database.scheduling rotation).Consistent := by
  constructor <;> simp [scheduling, seeded, empty, Keyed, seedSite, seedPage, Page.new]
  decide

def clocked (now : Time) : Input := { Input.scripted (.raised dataError) with justNow := now }

def Database.checkedOnce : Database :=
  ((checkPage (.scripted []) (clocked 5010) seedPage).run (.scheduling 1000)).2

def checkedSeedPage : Page := failedRow (clocked 5010) seedPage dataError

def Database.checkedTwice : Database :=
  ((checkPage (.scripted []) (clocked 5020) checkedSeedPage).run .checkedOnce).2

def twoTurns : List Choice :=
  [⟨.scheduled, seedPage, .scheduling 1000⟩, ⟨.recheck, checkedSeedPage, .checkedOnce⟩]

theorem steps_twoTurns : Steps (Round (.scripted []) seedSite fun _ _ => True)
    ⟨.scheduling 1000, 5000⟩ twoTurns ⟨.checkedTwice, 5021⟩ := by
  have hFirst : Round (.scripted []) seedSite (fun _ _ => True) ⟨.scheduling 1000, 5000⟩
      ⟨.scheduled, seedPage, .scheduling 1000⟩ ⟨.checkedOnce, 5011⟩ := by
    have hArrivals : Arrivals (.scheduling 1000) (.scheduling 1000) :=
      ⟨Database.consistent_scheduling 1000, rfl, rfl, [], by simp⟩
    have hChoice : seedSite.nextPageToCheck (.scheduling 1000) 5001 1 = some seedPage := by decide
    have hRun : (checkPage (.scripted []) (clocked 5010) seedPage).run (.scheduling 1000) = _ := rfl
    exact .round hArrivals trivial (by decide : (5000 : Time) < 5001) hChoice (by decide) hRun trivial
      (by decide)
  have hArrivals : Arrivals .checkedOnce .checkedOnce :=
    ⟨(served_of_round hFirst).2.2.consistent, rfl, rfl, [], by simp⟩
  have hBranch : seedSite.branchTaken .checkedOnce 5012 1 = .recheck := by decide +kernel
  have hChoice : seedSite.nextPageToCheck .checkedOnce 5012 1 = some checkedSeedPage := by decide +kernel
  have hRun : (checkPage (.scripted []) (clocked 5020) checkedSeedPage).run .checkedOnce = _ := rfl
  have hSecond : Round (.scripted []) seedSite (fun _ _ => True) ⟨.checkedOnce, 5011⟩
      ⟨.recheck, checkedSeedPage, .checkedOnce⟩ ⟨.checkedTwice, 5021⟩ := by
    rw [← hBranch]
    exact .round hArrivals trivial (by decide : (5011 : Time) < 5012) hChoice (by decide) hRun trivial
      (by decide)
  exact .cons hFirst (.cons hSecond (.refl _))

/-- A page with such a rotation is due at every choice. -/
theorem scheduled_of_rotation_le (h : Dated schedule.page s) (hSchedule : schedule ∈ site.schedules s.db)
    (hRotation : schedule.rotation ≤ 0) (hRound : Round py site Added s choice t) :
    choice.branch = .scheduled := by
  obtain ⟨hScheduled, p, hFound, hSite⟩ := mem_schedules.mp hSchedule
  obtain ⟨hMem, hKey⟩ := mem_of_lookup hFound
  obtain ⟨-, -, hServed⟩ := served_of_round hRound
  have hTime := h.past
  rw [← hKey, h.consistent.lastCheck hMem] at hTime
  cases hRound with
  | @round db db' db'' clock now clock' draw page answer input r arrivals hArrived hNow hChoice
      hLater hCheck hFound hClock =>
      have hDue : (schedule, p) ∈ site.due db' now := by
        refine mem_due.mpr ⟨?_, ?_, hSite, ?_⟩
        · rw [arrivals.scheduled]
          exact hScheduled
        · rw [← hKey]
          exact arrivals.consistent.pageById (hServed.mem_arrivals hMem)
        · simp only at hTime ⊢
          linarith
      rw [Site.branchTaken, if_pos]
      rw [Option.isSome_iff_ne_none]
      intro hNone
      rw [show site.due db' now = [] from List.argmin_eq_none.mp hNone] at hDue
      cases hDue

/-- A scheduled page whose rotation is not positive takes the place of all pages that
are not scheduled: none of them is ever checked. -/
theorem rotation_starves (py : Platform) (site : Site) (Added : Database → Database → Prop)
    (s t : Moment) (trace : List Choice) (run : Steps (Round py site Added) s trace t)
    (hDb : s.db.Consistent) (hPast : ∀ p ∈ s.db.pages, p.checkedAt < s.clock)
    (schedule : ScheduledPage) (hSchedule : schedule ∈ site.schedules s.db)
    (hRotation : schedule.rotation ≤ 0) :
    ∀ choice ∈ trace, choice.branch = .scheduled ∧
      ∃ other ∈ site.schedules s.db, other.page = choice.page.idPage := by
  have hDated := dated_of_schedules hDb hPast hSchedule
  clear hPast
  have hBranch : ∀ choice ∈ trace, choice.branch = .scheduled := by
    induction run with
    | refl => simp
    | cons head _ ih =>
        obtain ⟨-, -, hServed⟩ := served_of_round head
        refine List.forall_mem_cons.mpr ⟨scheduled_of_rotation_le hDated hSchedule hRotation head, ?_⟩
        exact ih hServed.consistent ((mem_schedules_served hDb hServed).mpr hSchedule) (hDated.round head)
  exact fun choice hChoice =>
    ⟨hBranch choice hChoice, exists_schedule_of_mem run hDb choice hChoice (hBranch choice hChoice)⟩

/-- The page is checked again at once, while its rotation is zero. -/
theorem rotation_starves_scheduling :
    Branch.scheduled = .scheduled ∧
      ∃ other ∈ seedSite.schedules (.scheduling 0), other.page = seedPage.idPage := by
  have hArrivals : Arrivals (.scheduling 0) (.scheduling 0) :=
    ⟨Database.consistent_scheduling 0, rfl, rfl, [], by simp⟩
  have hChoice : seedSite.nextPageToCheck (.scheduling 0) 6 1 = some seedPage := by decide
  have hRun : (checkPage (.scripted []) (clocked 7) seedPage).run (.scheduling 0) = _ := rfl
  have hRound : Round (.scripted []) seedSite (fun _ _ => True) ⟨.scheduling 0, 5⟩
      ⟨.scheduled, seedPage, .scheduling 0⟩ ⟨_, 8⟩ :=
    .round hArrivals trivial (by decide : (5 : Time) < 6) hChoice (by decide) hRun trivial (by decide)
  exact rotation_starves (.scripted []) seedSite (fun _ _ => True) _ _ _ (.cons hRound (.refl _))
    (Database.consistent_scheduling 0) (by decide) { page := 1, rotation := 0, updatedAt := 0, createdAt := 0 }
    (by decide) (by decide) ⟨.scheduled, seedPage, .scheduling 0⟩ (List.mem_singleton_self _)

end Spidercheck
