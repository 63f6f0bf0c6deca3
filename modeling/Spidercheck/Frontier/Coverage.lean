import Spidercheck.Frontier.Bypass
import Mathlib.Data.Finset.Card

/-! How long a page can stay unchecked. A round of the queue, or of the recheck of
the oldest page, checks a page that was not checked after the waiting one, and from
then on it was. So these rounds are fewer than the pages of the site, however many
rounds for scheduled or failing pages come in between. -/
namespace Spidercheck

open Text Execution Relational Scheduling

variable {py : Platform} {site : Site} {Added : Database → Database → Prop} {s t : Moment}
  {choice : Choice} {q : Page}

/-- The keys of the pages of the site that were checked after a page. -/
def Site.checkedAfter (site : Site) (q : Page) (db : Database) : Finset Nat :=
  (((db.pagesOf site).filter fun p => p.isChecked && decide (q.checkedAt < p.checkedAt)).map
    (·.idPage)).toFinset

theorem mem_checkedAfter {db : Database} {k : Nat} : k ∈ site.checkedAfter q db ↔
    ∃ p ∈ db.pages, p.site = site.idSite ∧ p.isChecked = true ∧ q.checkedAt < p.checkedAt ∧ p.idPage = k := by
  simp [Site.checkedAfter, mem_pagesOf, and_assoc]

def Choice.regular (choice : Choice) : Bool :=
  choice.branch == .queue || choice.branch == .recheck

structure Stale (q : Page) (s : Moment) : Prop where
  consistent : s.db.Consistent
  stored : q ∈ s.db.pages
  past : q.checkedAt < s.clock

/-- A page that is not served goes on waiting. -/
theorem Stale.served (h : Stale q s) (hServed : Served site s choice t)
    (hNe : q.idPage ≠ choice.page.idPage) : Stale q t where
  consistent := hServed.consistent
  stored := hServed.stays h.stored hNe
  past := h.past.trans hServed.later

/-- The served page was checked after the waiting one, as soon as the round is over. -/
theorem Stale.mem_checkedAfter (h : Stale q s) (hServed : Served site s choice t) :
    choice.page.idPage ∈ site.checkedAfter q t.db := by
  obtain ⟨row, hRow, hKey, hPath, -, hChecked, hLater⟩ := hServed.row
  have hSite : row.site = choice.page.site := congrArg Prod.fst hPath
  exact Spidercheck.mem_checkedAfter.mpr
    ⟨row, hRow, hSite.trans hServed.mem.2, hChecked, h.past.trans hLater, hKey⟩

/-- A page that was checked later stays one. -/
theorem Stale.checkedAfter_subset (h : Stale q s) (hServed : Served site s choice t) :
    site.checkedAfter q s.db ⊆ site.checkedAfter q t.db := by
  intro k hk
  obtain ⟨p, hp, hSite, hChecked, hLater, rfl⟩ := Spidercheck.mem_checkedAfter.mp hk
  by_cases hKey : p.idPage = choice.page.idPage
  · rw [hKey]
    exact h.mem_checkedAfter hServed
  · exact Spidercheck.mem_checkedAfter.mpr ⟨p, hServed.stays hp hKey, hSite, hChecked, hLater, rfl⟩

/-- A regular round does not choose a page that was checked after the waiting one. -/
theorem Stale.not_mem_checkedAfter (h : Stale q s) (hOf : q.site = site.idSite)
    (hServed : Served site s choice t) (hRegular : choice.regular = true) :
    choice.page.idPage ∉ site.checkedAfter q s.db := by
  intro hMem
  obtain ⟨p, hp, -, hChecked, hLater, hKey⟩ := Spidercheck.mem_checkedAfter.mp hMem
  obtain rfl : p = choice.page :=
    hServed.arrivals.consistent.pages.eq (hServed.mem_arrivals hp) hServed.mem.1 hKey
  obtain ⟨now, -, hChosen⟩ := hServed.chosen
  have hBranch : choice.branch = .queue ∨ choice.branch = .recheck := by
    simpa [Choice.regular] using hRegular
  rcases hBranch with hBranch | hBranch
  · rw [hBranch] at hChosen
    rw [(mem_unchecked.mp hChosen.1).2.2] at hChecked
    cases hChecked
  · rw [hBranch] at hChosen
    obtain ⟨hNone, -, hOldest⟩ := hChosen
    have hFrontier := hServed.mem_arrivals h.stored
    cases hMark : q.isChecked with
    | true =>
        have hLe := hOldest q (mem_checked.mpr ⟨hFrontier, hOf, hMark⟩)
        exact absurd hLater (not_lt_of_ge hLe)
    | false =>
        have hUnchecked : q ∈ site.unchecked choice.frontier :=
          mem_unchecked.mpr ⟨hFrontier, hOf, hMark⟩
        rw [hNone] at hUnchecked
        cases hUnchecked

/-- The run lemma: while the page waits, every regular round adds one to the pages
that were checked after it. -/
theorem Stale.run {trace : List Choice} (run : Steps (Round py site Added) s trace t) (h : Stale q s)
    (hOf : q.site = site.idSite) (hUnserved : ∀ choice ∈ trace, choice.page.idPage ≠ q.idPage) :
    Stale q t ∧ (site.checkedAfter q s.db).card + trace.countP Choice.regular ≤
      (site.checkedAfter q t.db).card := by
  induction run with
  | refl => exact ⟨h, by simp⟩
  | @cons s t u choice trace head tail ih =>
      obtain ⟨-, -, hServed⟩ := served_of_round head
      have hNe : q.idPage ≠ choice.page.idPage := (hUnserved choice (List.mem_cons_self ..)).symm
      obtain ⟨hEnd, hRest⟩ := ih (h.served hServed hNe)
        fun other hOther => hUnserved other (List.mem_cons_of_mem _ hOther)
      refine ⟨hEnd, ?_⟩
      have hSubset := h.checkedAfter_subset hServed
      rw [List.countP_cons]
      split
      · next hRegular =>
        have hMore := Finset.card_lt_card (Finset.ssubset_iff_subset_ne.mpr ⟨hSubset, fun hEq =>
          h.not_mem_checkedAfter hOf hServed hRegular (hEq ▸ h.mem_checkedAfter hServed)⟩)
        omega
      · have hNotLess := Finset.card_le_card hSubset
        omega

/-- The waiting page is not among them, so they are fewer than the pages of the site. -/
theorem Stale.card_lt (h : Stale q s) (hOf : q.site = site.idSite) :
    (site.checkedAfter q s.db).card < (s.db.pagesOf site).length := by
  have hKeys : (site.checkedAfter q s.db) ⊆
      ((s.db.pagesOf site).map (·.idPage)).toFinset.erase q.idPage := by
    intro k hk
    obtain ⟨p, hp, hSite, -, hLater, rfl⟩ := Spidercheck.mem_checkedAfter.mp hk
    refine Finset.mem_erase.mpr ⟨fun hKey => ?_, ?_⟩
    · obtain rfl := h.consistent.pages.eq hp h.stored hKey
      exact absurd hLater (lt_irrefl _)
    · exact List.mem_toFinset.mpr (List.mem_map.mpr ⟨p, mem_pagesOf.mpr ⟨hp, hSite⟩, rfl⟩)
  have hMem : q.idPage ∈ ((s.db.pagesOf site).map (·.idPage)).toFinset :=
    List.mem_toFinset.mpr (List.mem_map.mpr ⟨q, mem_pagesOf.mpr ⟨h.stored, hOf⟩, rfl⟩)
  calc (site.checkedAfter q s.db).card
      ≤ (((s.db.pagesOf site).map (·.idPage)).toFinset.erase q.idPage).card := Finset.card_le_card hKeys
    _ < ((s.db.pagesOf site).map (·.idPage)).toFinset.card := Finset.card_erase_lt_of_mem hMem
    _ ≤ ((s.db.pagesOf site).map (·.idPage)).length := List.toFinset_card_le _
    _ = (s.db.pagesOf site).length := List.length_map _

/-- With as many regular rounds as there are pages, each page has been served. -/
theorem served_of_regular {trace : List Choice} (run : Steps (Round py site Added) s trace t)
    (hDb : s.db.Consistent) (hPast : ∀ p ∈ s.db.pages, p.checkedAt < s.clock)
    (hRounds : (t.db.pagesOf site).length ≤ trace.countP Choice.regular) :
    ∀ q ∈ s.db.pagesOf site, ∃ choice ∈ trace, choice.page.idPage = q.idPage := by
  intro q hq
  obtain ⟨hStored, hOf⟩ := mem_pagesOf.mp hq
  by_contra hNone
  push Not at hNone
  obtain ⟨hEnd, hCount⟩ := Stale.run run ⟨hDb, hStored, hPast q hStored⟩ hOf hNone
  have hLess := hEnd.card_lt hOf
  omega

def otherPage : Page := { Page.new 1 "/b" [] with idPage := 2, createdAt := 2 }

def laterInput : Input := { Input.scripted (.raised dataError) with justNow := 20 }

def bothChecked : Database := ((checkPage (.scripted []) laterInput otherPage).run seedChecked).2

/-- The second round on the site with two pages. -/
theorem round_seedChecked : Round (.scripted []) seedSite (fun _ _ => True) ⟨seedChecked, 11⟩
    ⟨.queue, otherPage, seedChecked⟩ ⟨bothChecked, 21⟩ := by
  have hDb : seedChecked.Consistent := by
    have hFirst : Round (.scripted []) seedSite (fun _ _ => True) ⟨twoPages, 5⟩
        ⟨.queue, seedPage, twoPages⟩ ⟨seedChecked, 11⟩ := round_twoPages trivial trivial
    exact (served_of_round hFirst).2.2.consistent
  have hArrivals : Arrivals seedChecked seedChecked := ⟨hDb, rfl, rfl, [], by simp⟩
  have hBranch : seedSite.branchTaken seedChecked 12 1 = .queue := by decide +kernel
  have hChoice : seedSite.nextPageToCheck seedChecked 12 1 = some otherPage := by decide +kernel
  have hRun : (checkPage (.scripted []) laterInput otherPage).run seedChecked = _ := rfl
  rw [← hBranch]
  exact .round hArrivals trivial (by decide : (11 : Time) < 12) hChoice (by decide) hRun trivial (by decide)

def twoRounds : List Choice := [⟨.queue, seedPage, twoPages⟩, ⟨.queue, otherPage, seedChecked⟩]

end Spidercheck
