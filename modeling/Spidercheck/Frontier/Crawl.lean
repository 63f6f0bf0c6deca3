import Spidercheck.Frontier.Selection

/-! Crawling a site. A site with pages always has a next page to check, and a check
does not remove any, so the loop of `check_site` goes on until it has yielded what
was asked for. -/
namespace Spidercheck

open Text Execution Relational

variable {py : Platform} {db db' : Database} {site : Site} {page : Page} {now : Time} {draw : ℚ}
  {turns : Nat → Turn} {num : Int}

theorem firstBy_eq_none {α Row : Type} [LinearOrder α] {key : Row → α} {rows : List Row} :
    firstBy key rows = none ↔ rows = [] := List.argmin_eq_none

/-- Whatever is checked, failing or scheduled: only a site without pages has no next page. -/
theorem nextPageToCheck_eq_none :
    site.nextPageToCheck db now draw = none ↔ db.pagesOf site = [] := by
  constructor
  · intro hNone
    unfold Site.nextPageToCheck at hNone
    split at hNone
    · cases hNone
    · split at hNone
      · next hErrors =>
        rw [firstBy_eq_none.mp hNone] at hErrors
        exact absurd hErrors.1 (by simp)
      · split at hNone
        · next hQueue =>
          unfold Site.firstQueuedPage at hNone
          unfold Site.allQueuedPages at hQueue
          split at hNone
          · next hUnchecked =>
            rw [firstBy_eq_none.mp hNone] at hUnchecked
            simp at hUnchecked
          · next hChecked =>
            rw [if_neg hChecked, firstBy_eq_none.mp hNone] at hQueue
            simp at hQueue
        · exact firstBy_eq_none.mp hNone
  · intro hEmpty
    cases hNext : site.nextPageToCheck db now draw with
    | none => rfl
    | some page =>
        obtain ⟨hMem, hSite⟩ := (chosen_of_nextPageToCheck hNext).mem
        have hPage : page ∈ db.pagesOf site := mem_pagesOf.mpr ⟨hMem, hSite⟩
        rw [hEmpty] at hPage
        cases hPage

def KeepsPages (db db' : Database) : Prop :=
  ∀ p ∈ db.pages, ∃ q ∈ db'.pages, q.idPage = p.idPage ∧ q.site = p.site

/-- Between the turns the database keeps its constraints and loses no pages. -/
def Turn.Harmless (turn : Turn) : Prop :=
  ∀ db : Database, db.Consistent → (turn.meanwhile db).Consistent ∧ KeepsPages db (turn.meanwhile db)

/-- A site does not lose its last page. -/
theorem KeepsPages.pagesOf_ne_nil (h : KeepsPages db db') (hSome : db.pagesOf site ≠ []) :
    db'.pagesOf site ≠ [] := by
  obtain ⟨p, hp⟩ := List.exists_mem_of_ne_nil _ hSome
  obtain ⟨hMem, hSite⟩ := mem_pagesOf.mp hp
  obtain ⟨q, hq, -, hSame⟩ := h p hMem
  exact List.ne_nil_of_mem (mem_pagesOf.mpr ⟨hq, hSame.trans hSite⟩)

/-- A check loses no pages. -/
theorem keepsPages_of_recorded {input : Input} (hDb : db.Consistent) (hPage : page ∈ db.pages)
    (h : Recorded input page db db') : KeepsPages db db' := by
  obtain ⟨row, new, hRow, hPages, -⟩ := h.pages
  have hSite : row.site = page.site := (Prod.mk.inj hRow.fullPath).1
  intro p hp
  rw [hPages]
  by_cases hKey : p.idPage = page.idPage
  · obtain rfl := hDb.pages.eq hp hPage hKey
    exact ⟨row, List.mem_append_left _ (mem_replace.mpr (.inl ⟨rfl, p, hp, hRow.idPage.symm⟩)),
      hRow.idPage, hSite⟩
  · exact ⟨p, List.mem_append_left _ (mem_replace.mpr (.inr ⟨hp, hRow.idPage ▸ hKey⟩)), rfl, rfl⟩

/-- A turn that returns leaves a consistent database, and pages of the site if there were any. -/
theorem turn_keeps (site : Site) {turn : Turn} (hTurn : turn.Harmless) (hDb : db.Consistent)
    (hPage : page ∈ db.pages) {result : Result Str}
    (hRun : (checkPageWith turn.isValid py turn.input page).run db = (.ok result, db')) :
    (turn.meanwhile db').Consistent ∧
      (db.pagesOf site ≠ [] → (turn.meanwhile db').pagesOf site ≠ []) := by
  have hRecorded := recorded_of_returns hDb hPage hRun
  obtain ⟨hConsistent, hKept⟩ := hTurn db' hRecorded.consistent
  refine ⟨hConsistent, fun hSome => ?_⟩
  exact hKept.pagesOf_ne_nil ((keepsPages_of_recorded hDb hPage hRecorded).pagesOf_ne_nil hSome)

/-- A property of the checks of the next turns: of the page that each one chooses, and
of the database that the turns before it have left. -/
def EachCheck (py : Platform) (site : Site) (turns : Nat → Turn) (P : Turn → Page → Database → Prop) :
    Nat → Nat → Database → Prop
  | _, 0, _ => True
  | i, n + 1, db => ∀ page, site.nextPageToCheck db (turns i).now (turns i).draw = some page →
      P (turns i) page db ∧ EachCheck py site turns P (i + 1) n
        ((turns i).meanwhile ((checkPageWith (turns i).isValid py (turns i).input page).run db).2)

def Turn.Returns (py : Platform) (turn : Turn) (page : Page) (db : Database) : Prop :=
  ∃ result, ((checkPageWith turn.isValid py turn.input page).run db).1 = .ok result

/-- The loop ends with any fuel above the number of results that are wanted, and it
raises nothing exactly where the checks of its turns return. The induction is on that
number; the page in hand is the choice of a query. -/
theorem checkLoop_ends (py : Platform) (site : Site) (hTurns : ∀ i, (turns i).Harmless) (n i : Nat) (num : Int)
    (hNum : num.toNat = n) (db : Database) (hDb : db.Consistent) :
    ∃ g db', (∀ fuel, n < fuel → checkLoop py site turns fuel i
        (site.nextPageToCheck db (turns i).now (turns i).draw) num db = some (g, db')) ∧
      (∀ y ∈ g.yielded, y.1.site = site.idSite) ∧
      (g.raised = none ↔ EachCheck py site turns (Turn.Returns py) i n db) ∧
      (g.raised = none → g.yielded.length = if db.pagesOf site = [] then 0 else n) := by
  induction n generalizing i num db with
  | zero =>
      refine ⟨{ yielded := [], raised := none }, db, ?_, by simp, iff_of_true rfl trivial, by simp⟩
      intro fuel hFuel
      obtain ⟨fuel, rfl⟩ : ∃ f, fuel = f + 1 := ⟨fuel - 1, by omega⟩
      cases site.nextPageToCheck db (turns i).now (turns i).draw with
      | none => rfl
      | some page => rw [checkLoop, if_neg (by omega)]
  | succ n ih =>
      cases hNext : site.nextPageToCheck db (turns i).now (turns i).draw with
      | none =>
          refine ⟨{ yielded := [], raised := none }, db, ?_, by simp, iff_of_true rfl ?_, ?_⟩
          · intro fuel hFuel
            obtain ⟨fuel, rfl⟩ : ∃ f, fuel = f + 1 := ⟨fuel - 1, by omega⟩
            rfl
          · exact fun page hPage => nomatch hNext.symm.trans hPage
          · simp [nextPageToCheck_eq_none.mp hNext]
      | some page =>
          obtain ⟨hPage, hSite⟩ := (chosen_of_nextPageToCheck hNext).mem
          have hSome : db.pagesOf site ≠ [] := List.ne_nil_of_mem (mem_pagesOf.mpr ⟨hPage, hSite⟩)
          rcases hRun : (checkPageWith (turns i).isValid py (turns i).input page).run db with ⟨e | result, db'⟩
          · refine ⟨{ yielded := [], raised := some e }, db', ?_, by simp, iff_of_false (by simp) ?_, by simp⟩
            · intro fuel hFuel
              obtain ⟨fuel, rfl⟩ : ∃ f, fuel = f + 1 := ⟨fuel - 1, by omega⟩
              rw [checkLoop, if_pos (by omega), hRun]
            · -- the check of this turn is one that does not return
              intro hReturns
              obtain ⟨result, hResult⟩ := (hReturns page hNext).1
              rw [hRun] at hResult
              cases hResult
          · obtain ⟨hDb', hKept⟩ := turn_keeps site (hTurns i) hDb hPage hRun
            obtain ⟨g, final, hRest, hOf, hReturns, hCount⟩ := ih (i + 1) (num - 1) (by omega)
              ((turns i).meanwhile db') hDb'
            refine ⟨{ g with yielded := (page, result) :: g.yielded }, final, ?_, ?_, ?_, ?_⟩
            · intro fuel hFuel
              obtain ⟨fuel, rfl⟩ : ∃ f, fuel = f + 1 := ⟨fuel - 1, by omega⟩
              rw [checkLoop, if_pos (by omega), hRun]
              simp only [hRest fuel (by omega), Option.map_some]
            · exact List.forall_mem_cons.mpr ⟨hSite, hOf⟩
            · refine hReturns.trans ⟨fun hLater other hOther => ?_, fun hAll => ?_⟩
              · obtain rfl := Option.some.inj (hNext.symm.trans hOther)
                rw [Turn.Returns, hRun]
                exact ⟨⟨result, rfl⟩, hLater⟩
              · have hLater := (hAll page hNext).2
                rwa [hRun] at hLater
            · intro hRaised
              rw [if_neg hSome, List.length_cons, hCount hRaised, if_neg (hKept hSome)]

/-- `check_site` ends, whatever the draws, and all its pages are of the site. It raises
nothing exactly when every call of `check_page` returns, and then there is one result
for each that was asked for, or none when the site has no pages. -/
theorem checkSite_yields (py : Platform) (site : Site) (turns : Nat → Turn) (num : Int) (db : Database)
    (hDb : db.Consistent) (hTurns : ∀ i, (turns i).Harmless) :
    ∃ g db', (∀ fuel, num.toNat < fuel → checkSite py site turns fuel num db = some (g, db')) ∧
      (∀ y ∈ g.yielded, y.1.site = site.idSite) ∧
      (g.raised = none ↔ EachCheck py site turns (Turn.Returns py) 0 num.toNat db) ∧
      (EachCheck py site turns (Turn.Returns py) 0 num.toNat db →
        (g.yielded.length : Int) = if db.pagesOf site = [] then 0 else max 0 num) := by
  obtain ⟨g, db', hEnds, hOf, hReturns, hCount⟩ := checkLoop_ends py site hTurns num.toNat 0 num rfl db hDb
  refine ⟨g, db', hEnds, hOf, hReturns, fun hAll => ?_⟩
  rw [hCount (hReturns.mpr hAll)]
  split
  · rfl
  · omega

/-- Turns at which the server cannot be reached and nothing else happens. -/
def quietTurn (i : Nat) : Turn where
  now := i
  draw := 1
  isValid := fun _ _ => .ok (.failure "timed out" (some (-1)))
  input := .scripted (.raised dataError)
  meanwhile := id

/-- Two checks that cannot reach the server, and two results. -/
theorem checkSite_yields_twice :
    ∃ g db', (∀ fuel, 2 < fuel → checkSite (.scripted []) seedSite quietTurn fuel 2 .seeded = some (g, db')) ∧
      (∀ y ∈ g.yielded, y.1.site = seedSite.idSite) ∧ g.raised = none ∧ (g.yielded.length : Int) = 2 := by
  have hReturns : EachCheck (.scripted []) seedSite quietTurn (Turn.Returns (.scripted [])) 0 2 .seeded := by
    intro page hPage
    obtain rfl : seedPage = page := Option.some.inj hPage
    refine ⟨⟨_, rfl⟩, fun page hPage => ?_⟩
    -- the seed page is still the only one
    have hMem : page ∈ [_] := (chosen_of_nextPageToCheck hPage).mem.1
    obtain rfl := List.mem_singleton.mp hMem
    exact ⟨⟨_, rfl⟩, trivial⟩
  obtain ⟨g, db', hEnds, hOf, hRaised, hCount⟩ :=
    checkSite_yields (.scripted []) seedSite quietTurn 2 .seeded Database.consistent_seeded
      fun _ _ hDb => ⟨hDb, fun p hp => ⟨p, hp, rfl, rfl⟩⟩
  exact ⟨g, db', hEnds, hOf, hRaised.mpr hReturns, hCount hReturns⟩

end Spidercheck
