import Spidercheck.Frontier.Crawl
import Spidercheck.Frontier.Exploration
import Spidercheck.Frontier.FirstChecks

/-! A crawl from beginning to end. While a page is unchecked, every turn whose draw
leaves the failing pages aside checks a new page, so the loop of `check_site` needs
no more of these turns than there are pages to find. -/
namespace Spidercheck

open Text Url Execution Relational Graph

variable {web : Web} {py : Platform} {db db' : Database} {site : Site} {page : Page}
  {seeds : Set Address} {turns : Nat → Turn} {now : Time} {draw : ℚ}

def Unscheduled (site : Site) (db : Database) : Prop :=
  ∀ row ∈ db.scheduled, ∀ p ∈ db.pages, p.idPage = row.page → p.site ≠ site.idSite

/-- A check schedules no page. -/
theorem Unscheduled.visited (h : Unscheduled site db) (hDb : db.Consistent) (hPage : page ∈ db.pages)
    (hVisited : Visited web py site page db db') : Unscheduled site db' := by
  intro row hRow p hp hKey
  rw [hVisited.scheduled] at hRow
  obtain ⟨old, hOld, hOldKey⟩ := hDb.scheduledPages row hRow
  have hPath := (hVisited.kept hDb hPage hOld hp (hKey.trans hOldKey.symm)).1
  rw [show p.site = old.site from congrArg Prod.fst hPath]
  exact h row hRow old hOld hOldKey

/-- Without schedules none is due. -/
theorem Unscheduled.firstDue (h : Unscheduled site db) : site.firstDue db now = none := by
  cases hDue : site.firstDue db now with
  | none => rfl
  | some row =>
      obtain ⟨hScheduled, hFound, hSite, -⟩ := mem_due.mp (mem_of_firstBy hDue).1
      obtain ⟨hMem, hKey⟩ := mem_of_lookup hFound
      exact absurd hSite (h row.1 hScheduled row.2 hMem hKey)

/-- With an unchecked page, and the failing ones left aside, the next page is an unchecked one. -/
theorem unchecked_of_nextPageToCheck (h : Unscheduled site db) (hDraw : 1 / 2 < draw)
    (hUnchecked : site.unchecked db ≠ []) (hNext : site.nextPageToCheck db now draw = some page) :
    page.isChecked = false := by
  have hChosen := chosen_of_nextPageToCheck hNext
  have hBranch : site.branchTaken db now draw = .queue := by
    rw [Site.branchTaken, h.firstDue]
    simp only [Option.isSome_none, Bool.false_eq_true, if_false]
    rw [if_neg fun hErrors => absurd hErrors.2 (not_le_of_gt hDraw),
      if_pos (List.length_pos_iff.mpr hUnchecked)]
  rw [hBranch] at hChosen
  exact (mem_unchecked.mp hChosen.1).2.2

/-- The addresses of the site that are still to be checked, found or not. -/
noncomputable def Web.remaining (web : Web) (py : Platform) (site : Site) (seeds : Set Address)
    (db : Database) : Nat :=
  Explored.remaining (web.Leads py site) seeds (site.checkedAddresses db)

/-- A turn never makes more remain, and one less when its draw leaves the failing pages aside. -/
theorem Charted.remaining_visited (h : Charted web py site seeds db)
    (hFinite : (Reach (web.Leads py site) seeds).Finite) (hUnscheduled : Unscheduled site db)
    (hNext : site.nextPageToCheck db now draw = some page)
    (hVisited : Visited web py site page db db') :
    web.remaining py site seeds db' ≤
      web.remaining py site seeds db - if 1 / 2 < draw then 1 else 0 := by
  obtain ⟨hStored, hOf⟩ := (chosen_of_nextPageToCheck hNext).mem
  have hPage : page ∈ db.pagesOf site := mem_pagesOf.mpr ⟨hStored, hOf⟩
  simp only [Web.remaining, hVisited.checkedAddresses h.consistent hPage]
  split
  · next hDraw =>
    by_cases hNone : site.unchecked db = []
    · rw [h.explored.remaining_of_complete (addresses_subset_of_unchecked hNone), Nat.zero_sub,
        ← h.explored.remaining_of_complete (addresses_subset_of_unchecked hNone)]
      exact Explored.remaining_insert_le hFinite
    · have hUnchecked := unchecked_of_nextPageToCheck hUnscheduled hDraw hNone hNext
      have hNew : page.fullPath ∉ site.checkedAddresses db := by
        rintro ⟨p, hp, hPath⟩
        obtain ⟨hp, -, hChecked⟩ := mem_checked.mp hp
        rw [h.consistent.fullPaths.eq hp hStored hPath, hUnchecked] at hChecked
        cases hChecked
      have hLess := h.explored.remaining_insert hFinite ⟨page, hPage, rfl⟩ hNew
      omega
  · exact Explored.remaining_insert_le hFinite

/-- The number of the next turns whose draw leaves the failing pages aside. -/
def straight (turns : Nat → Turn) (i n : Nat) : Nat :=
  (List.range n).countP fun j => 1 / 2 < (turns (i + j)).draw

/-- The number of these turns, counted from the first one. -/
theorem straight_succ (i n : Nat) : straight turns i (n + 1) =
    (if 1 / 2 < (turns i).draw then 1 else 0) + straight turns (i + 1) n := by
  have hShift : (fun j => decide (1 / 2 < (turns (i + j)).draw)) ∘ Nat.succ =
      fun j => decide (1 / 2 < (turns (i + 1 + j)).draw) := by
    funext j
    rw [Function.comp_apply, Nat.succ_eq_one_add, Nat.add_assoc]
  rw [straight, straight, List.range_succ_eq_map, List.countP_cons, List.countP_map, hShift, Nat.add_comm]
  simp only [Nat.add_zero, decide_eq_true_eq]

def Web.Answers (web : Web) (site : Site) (turn : Turn) (page : Page) (_db : Database) : Prop :=
  web.Serves site page turn.isValid turn.input

/-- The loop keeps to the chart, and every turn with such a draw leaves one page less. -/
theorem checkLoop_sweeps (web : Web) (py : Platform) (site : Site) (hAlone : ∀ i, (turns i).meanwhile = id)
    (hFinite : (Reach (web.Leads py site) seeds).Finite) (fuel i : Nat) (num : Int) (db : Database)
    (h : Charted web py site seeds db) (hUnscheduled : Unscheduled site db)
    {g : Generator (Page × Result Str)}
    (hRun : checkLoop py site turns fuel i
      (site.nextPageToCheck db (turns i).now (turns i).draw) num db = some (g, db'))
    (hReturned : g.raised = none) (hServed : EachCheck py site turns (web.Answers site) i num.toNat db) :
    Charted web py site seeds db' ∧
      web.remaining py site seeds db' ≤ web.remaining py site seeds db - straight turns i num.toNat := by
  induction fuel generalizing i num db g with
  | zero => cases hRun
  | succ fuel ih =>
      cases hNext : site.nextPageToCheck db (turns i).now (turns i).draw with
      | none =>
          rw [hNext] at hRun
          obtain ⟨rfl, rfl⟩ : _ = g ∧ db = db' := by simpa [checkLoop] using hRun
          refine ⟨h, ?_⟩
          have hEmpty : site.unchecked db = [] := by
            rw [Site.unchecked, nextPageToCheck_eq_none.mp hNext, List.filter_nil]
          rw [Web.remaining, h.explored.remaining_of_complete (addresses_subset_of_unchecked hEmpty)]
          exact Nat.zero_le _
      | some page =>
          rw [hNext, checkLoop] at hRun
          by_cases hNum : 0 < num
          · have hSteps : num.toNat = (num - 1).toNat + 1 := by omega
            rw [hSteps] at hServed
            obtain ⟨hServes, hLater⟩ := hServed page hNext
            rw [if_pos hNum] at hRun
            rcases hCheck : (checkPageWith (turns i).isValid py (turns i).input page).run db with
              ⟨e | result, t⟩
            · rw [hCheck] at hRun
              obtain ⟨rfl, -⟩ : _ = g ∧ t = db' := by simpa using hRun
              cases hReturned
            · simp only [hCheck, hAlone i, id] at hRun hLater
              obtain ⟨⟨rest, u⟩, hRest, hEq⟩ := Option.map_eq_some_iff.mp hRun
              obtain ⟨rfl, rfl⟩ := Prod.mk.inj hEq
              obtain ⟨hStored, hOf⟩ := (chosen_of_nextPageToCheck hNext).mem
              have hVisited := visited_of_returns h.consistent hStored h.stored hOf hServes hCheck
              obtain ⟨hEnd, hLeft⟩ := ih (i + 1) (num - 1) t
                (h.visited (mem_pagesOf.mpr ⟨hStored, hOf⟩) hVisited)
                (hUnscheduled.visited h.consistent hStored hVisited) hRest hReturned hLater
              refine ⟨hEnd, ?_⟩
              have hTurn := h.remaining_visited hFinite hUnscheduled hNext hVisited
              rw [hSteps, straight_succ]
              omega
          · rw [if_neg hNum] at hRun
            obtain ⟨rfl, rfl⟩ : _ = g ∧ db = db' := by simpa using hRun
            rw [show num.toNat = 0 by omega]
            exact ⟨h, Nat.le_refl _⟩

/-- When all addresses are checked, no page is left. -/
theorem unchecked_eq_nil (hDb : db.Consistent)
    (h : site.addresses db ⊆ site.checkedAddresses db) : site.unchecked db = [] := by
  rw [List.eq_nil_iff_forall_not_mem]
  intro p hp
  obtain ⟨hStored, hOf, hUnchecked⟩ := mem_unchecked.mp hp
  obtain ⟨q, hq, hPath⟩ := h ⟨p, mem_pagesOf.mpr ⟨hStored, hOf⟩, rfl⟩
  obtain ⟨hStoredQ, -, hChecked⟩ := mem_checked.mp hq
  rw [hDb.fullPaths.eq hStoredQ hStored hPath, hUnchecked] at hChecked
  cases hChecked

/-- `check_site` on a web that leads to finitely many pages, where every check returns:
when as many turns as there are pages leave the failing ones aside, it ends with
every page found and checked, no others, and the links of the web between them. -/
theorem checkSite_crawls (web : Web) (py : Platform) (site : Site) (turns : Nat → Turn) (num : Int)
    (db : Database) (hDb : db.Consistent) (hSite : site ∈ db.sites) (hFirst : Unvisited site db)
    (hUnscheduled : site.allScheduledPages db = []) (hAlone : ∀ i, (turns i).meanwhile = id)
    (hFinite : (Reach (web.Leads py site) (site.addresses db)).Finite)
    (hServed : EachCheck py site turns (web.Answers site) 0 num.toNat db)
    (hReturns : EachCheck py site turns (Turn.Returns py) 0 num.toNat db)
    (hEnough : (Reach (web.Leads py site) (site.addresses db)).ncard ≤ straight turns 0 num.toNat) :
    ∃ g db', (∀ fuel, num.toNat < fuel → checkSite py site turns fuel num db = some (g, db')) ∧
      g.raised = none ∧ site.addresses db' = Reach (web.Leads py site) (site.addresses db) ∧
      site.unchecked db' = [] ∧
      ∀ p ∈ db'.pagesOf site, ∀ q ∈ db'.pages, db'.Linked p.idPage q.idPage ↔
        q.isLinkable = true ∧ web.Leads py site p.fullPath q.fullPath := by
  have hHarmless : ∀ i, (turns i).Harmless := by
    intro i t hConsistent
    rw [hAlone i]
    exact ⟨hConsistent, fun p hp => ⟨p, hp, rfl, rfl⟩⟩
  obtain ⟨g, db', hEnds, -, hIff, -⟩ := checkLoop_ends py site hHarmless num.toNat 0 num rfl db hDb
  have hRaised := hIff.mpr hReturns
  refine ⟨g, db', hEnds, hRaised, ?_⟩
  have hStart : Charted web py site (site.addresses db) db := hFirst.charted hDb hSite
  have hNone : Unscheduled site db := unscheduled_of_none (s := ⟨db, 0⟩) hDb hUnscheduled
  obtain ⟨hEnd, hLeft⟩ := checkLoop_sweeps web py site hAlone hFinite (num.toNat + 1) 0 num db hStart hNone
    (hEnds _ (Nat.lt_succ_self _)) hRaised hServed
  have hBegin : web.remaining py site (site.addresses db) db ≤
      (Reach (web.Leads py site) (site.addresses db)).ncard :=
    Set.ncard_le_ncard Set.sdiff_subset hFinite
  obtain ⟨hKnown, hExpanded⟩ := hEnd.explored.eq_reach_of_remaining hFinite
    (show web.remaining py site (site.addresses db) db' = 0 by omega)
  have hAll : site.unchecked db' = [] :=
    unchecked_eq_nil hEnd.consistent (subset_of_eq (hKnown.trans hExpanded.symm))
  refine ⟨hKnown, hAll, fun p hp q hq => (hEnd.mapped p hp q hq).trans (and_iff_right ?_)⟩
  cases hMark : p.isChecked with
  | true => rfl
  | false =>
      have hMem : p ∈ site.unchecked db' :=
        mem_unchecked.mpr ⟨(mem_pagesOf.mp hp).1, (mem_pagesOf.mp hp).2, hMark⟩
      rw [hAll] at hMem
      cases hMem

/-- Turns on the small web that always leave the failing pages aside. -/
def smallTurn (i : Nat) : Turn where
  now := i
  draw := 1
  isValid := fun _ page => smallWeb.answer page.fullPath
  input := { smallInput with justNow := 10 + i }
  meanwhile := id

def smallAddresses : List Address := [(1, "/", []), (1, "/x", []), (1, "/y", [])]

theorem reach_small : Reach (smallWeb.Leads twoLinks seedSite) (seedSite.addresses .seeded) ⊆
    {a | a ∈ smallAddresses} := by
  have hPlain {a : Address} (hPath : a.2.1 ≠ "/") {b : Address} : ¬ smallWeb.Leads twoLinks seedSite a b := by
    rintro ⟨body, ⟨response, headers, hAnswer, hHtml, -⟩, -⟩
    obtain rfl := Payload.response.inj (Result.success.inj (Except.ok.inj hAnswer))
    rw [if_neg hPath] at hHtml
    revert hHtml
    decide
  apply reach_subset
  · rintro a ⟨p, hp, rfl⟩
    obtain rfl := List.mem_singleton.mp (show p ∈ [seedPage] from hp)
    decide
  · intro a ha b hLeads
    rcases List.mem_cons.mp ha with rfl | ha
    · obtain ⟨body, ⟨response, headers, -, -, -, hGet, -⟩, url, hUrl, info, hInfo, rfl⟩ := hLeads
      obtain rfl := Except.ok.inj (GetOutcome.response.inj hGet).2
      have hLinks : url ∈ [("/y" : Str), "/x"] := hUrl
      rcases List.mem_cons.mp hLinks with rfl | hLinks
      · obtain rfl := Option.some.inj hInfo
        decide
      · obtain rfl := List.mem_singleton.mp hLinks
        obtain rfl := Option.some.inj hInfo
        decide
    · refine absurd hLeads (hPlain ?_)
      rcases List.mem_cons.mp ha with rfl | ha
      · decide
      · obtain rfl := List.mem_singleton.mp ha
        decide

/-- Three turns find and check the three pages of the small web. -/
theorem checkSite_crawls_small :
    ∃ g db', (∀ fuel, 3 < fuel → checkSite twoLinks seedSite smallTurn fuel 3 .seeded = some (g, db')) ∧
      g.raised = none ∧
      seedSite.addresses db' = Reach (smallWeb.Leads twoLinks seedSite) (seedSite.addresses .seeded) ∧
      seedSite.unchecked db' = [] ∧
      ∀ p ∈ db'.pagesOf seedSite, ∀ q ∈ db'.pages, db'.Linked p.idPage q.idPage ↔
        q.isLinkable = true ∧ smallWeb.Leads twoLinks seedSite p.fullPath q.fullPath := by
  have hFinite : {a | a ∈ smallAddresses}.Finite := smallAddresses.finite_toSet
  have hEnough : (Reach (smallWeb.Leads twoLinks seedSite) (seedSite.addresses .seeded)).ncard ≤
      straight smallTurn 0 (3 : Int).toNat := by
    refine (Set.ncard_le_ncard reach_small hFinite).trans ?_
    have hTurns : straight smallTurn 0 3 = 3 := by
      have hHalf : (1 / 2 : ℚ) < 1 := by decide +kernel
      simp only [straight, smallTurn, hHalf, decide_true, List.countP_true, List.length_range]
    have hThree : smallAddresses.toFinset.card = 3 := by decide
    rw [← List.coe_toFinset, Set.ncard_coe_finset, hThree]
    exact ge_of_eq hTurns
  have hReturns : EachCheck twoLinks seedSite smallTurn (Turn.Returns twoLinks) 0 3 .seeded := by
    obtain ⟨g, db', hRun, hRaised⟩ : ∃ g db',
        checkSite twoLinks seedSite smallTurn 4 3 .seeded = some (g, db') ∧ g.raised = none :=
      ⟨_, _, rfl, rfl⟩
    have hHarmless : ∀ i, (smallTurn i).Harmless :=
      fun i _ hDb => ⟨hDb, fun p hp => ⟨p, hp, rfl, rfl⟩⟩
    obtain ⟨g', db'', hEnds, -, hIff, -⟩ :=
      checkLoop_ends twoLinks seedSite hHarmless 3 0 3 rfl .seeded Database.consistent_seeded
    have hSame : some (g', db'') = some (g, db') := (hEnds 4 (by decide)).symm.trans hRun
    obtain ⟨rfl, -⟩ := Prod.mk.inj (Option.some.inj hSame)
    exact hIff.mp hRaised
  have hServed : EachCheck twoLinks seedSite smallTurn (smallWeb.Answers seedSite) 0 3 .seeded :=
    fun _ _ => ⟨⟨rfl, rfl, rfl⟩, fun _ _ => ⟨⟨rfl, rfl, rfl⟩, fun _ _ => ⟨⟨rfl, rfl, rfl⟩, trivial⟩⟩⟩
  exact checkSite_crawls smallWeb twoLinks seedSite smallTurn 3 .seeded Database.consistent_seeded
    (by decide) (by unfold Unvisited; decide) (by decide) (fun _ => rfl) (hFinite.subset reach_small)
    hServed hReturns hEnough

end Spidercheck
