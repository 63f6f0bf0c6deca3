import Spidercheck.Execution.CheckThenAct
import Spidercheck.Model.Integrity

/-! Two processes that ask for pages at once. The look for a page and its creation
are two statements, and the constraint on addresses rejects the second of two
rows with one address. Nobody catches that rejection. -/
namespace Spidercheck

open Text Execution Relational

variable {db db' : Database} {site : Site} {stamp stamp' : Nat → Time} {a b : Str × Str}
  {r r' : Except PyError (Page × Bool)} {p q : Page}

def Fits (key : Str × Str) : Prop := storable 280 key.1 = true ∧ storable 1024 key.2 = true

namespace Database

def HasAddress (db : Database) (address : Address) : Prop :=
  ∃ p ∈ db.pages, p.fullPath = address

theorem pageAt_eq_none : db.pageAt site a.1 a.2 = none ↔ ¬ db.HasAddress (site.idSite, a) := by
  rw [pageAt, lookup_eq_none, HasAddress]
  simp

/-- What is stored fits into its columns. -/
theorem Consistent.fits_of_hasAddress (h : db.Consistent) (hHas : db.HasAddress (site.idSite, a)) :
    Fits a := by
  obtain ⟨p, hp, hPath⟩ := hHas
  have hFits : p.fits = true := h.pagesFit p hp
  obtain rfl : (p.subpath, p.params) = a := (Prod.mk.inj hPath).2
  simp only [Page.fits, Bool.and_eq_true] at hFits
  exact hFits.1.1.1.1

end Database

/-- A page was found, or a row was added for it. -/
structure Obtained (db : Database) (address : Address) (p : Page) (created : Bool) (db' : Database) :
    Prop where
  consistent : db'.Consistent
  sites : db'.sites = db.sites
  stored : p ∈ db'.pages
  fullPath : p.fullPath = address
  created : created = true ↔ ¬ db.HasAddress address
  pages : ∀ q, q ∈ db'.pages ↔ q ∈ db.pages ∨ q = p

/-- The `INSERT` of `load_or_create`. -/
def Site.createPage (site : Site) (stamp : Nat → Time) (key : Str × Str) : Session (Page × Bool) :=
  create { verb := .insert, table := .page } fun db =>
    db.insertPage stamp db.nextPage (Page.new site.idSite key.1 key.2)

/-- `load_or_create` looks first, and then acts. -/
theorem loadOrCreate_eq (key : Str × Str) : site.loadOrCreate stamp key.1 key.2 =
    checkThenAct { verb := .select, table := .page }
      (fun db => firstBy Page.createdAt
        ((db.pagesOf site).filter fun p => p.subpath == key.1 && p.params == key.2))
      { verb := .insert, table := .page }
      (fun db => db.insertPage stamp db.nextPage (Page.new site.idSite key.1 key.2)) := by
  rw [Site.loadOrCreate, checkThenAct, Session.selectFrom]
  congr 1
  funext found
  cases found with
  | some found => rfl
  | none => rfl

/-- A row for an address that is not there is added if it fits. -/
theorem createPage_new (hDb : db.Consistent) (hSite : site ∈ db.sites)
    (hNew : ¬ db.HasAddress (site.idSite, a)) (hRun : (site.createPage stamp a).run db = (r, db')) :
    (Fits a ∧ ∃ p c, r = .ok (p, c) ∧ Obtained db (site.idSite, a) p c db') ∨
      (¬ Fits a ∧ ∃ e, r = .error e) := by
  let new : Page := db.newPage stamp site a.1 a.2
  have hInsert : db.insertPage stamp db.nextPage (Page.new site.idSite a.1 a.2) =
      if new.fits = true then (.ok new, db.addRow new) else (.error dataError, db) :=
    hDb.insertPage_new hSite (Database.pageAt_eq_none.mpr hNew)
  have hConsistent : (db.insertPage stamp db.nextPage (Page.new site.idSite a.1 a.2)).2.Consistent :=
    hDb.insertPage stamp db.nextPage _
  rw [show Fits a ↔ new.fits = true from newPage_fits.symm]
  rw [Site.createPage, run_create] at hRun
  by_cases hFits : new.fits = true
  · rw [if_pos hFits] at hInsert
    rw [hInsert] at hConsistent hRun
    obtain ⟨rfl, rfl⟩ := Prod.mk.inj hRun
    refine .inl ⟨hFits, new, true, rfl, ?_⟩
    exact {
      consistent := hConsistent
      sites := rfl
      stored := List.mem_append_right _ (List.mem_singleton_self _)
      fullPath := rfl
      created := by simp [hNew]
      pages := fun q => by simp [Database.addRow] }
  · rw [if_neg hFits] at hInsert
    rw [hInsert] at hRun
    exact .inr ⟨hFits, dataError, (Prod.mk.inj hRun).1.symm⟩

/-- A second row for an address is rejected. -/
theorem createPage_taken (hDb : db.Consistent) (hTaken : db.HasAddress (site.idSite, a))
    (hRun : (site.createPage stamp a).run db = (r, db')) : ∃ e, r = .error e := by
  let new : Page := db.newPage stamp site a.1 a.2
  obtain ⟨p, hp, hPath⟩ := hTaken
  have hKey : p.idPage ≠ db.nextPage := by
    have := hDb.pagesFresh p hp
    omega
  have hViolation : db.pageViolation new ≠ none := by
    intro hNone
    exact (Database.pageViolation_eq_none.mp hNone).2.2 p hp hKey hPath
  rw [Site.createPage, run_create] at hRun
  obtain ⟨rfl, -⟩ := Prod.mk.inj hRun
  show ∃ e, ((accept (if db.hasPage db.nextPage then some uniqueError else db.pageViolation new) db new
    _).1.map fun value => (value, true)) = .error e
  rw [hDb.hasPage_nextPage]
  cases hCases : db.pageViolation new with
  | none => exact absurd hCases hViolation
  | some e => exact ⟨e, rfl⟩

/-- Without others the page is obtained exactly when its address fits. -/
theorem loadOrCreate_returns (hDb : db.Consistent) (hSite : site ∈ db.sites)
    (hRun : (site.loadOrCreate stamp a.1 a.2).run db = (r, db')) :
    (Fits a ∧ ∃ p c, r = .ok (p, c) ∧ Obtained db (site.idSite, a) p c db') ∨
      (¬ Fits a ∧ ∃ e, r = .error e) := by
  rw [loadOrCreate_eq, run_checkThenAct, hDb.first_eq_pageAt] at hRun
  cases hFound : db.pageAt site a.1 a.2 with
  | none =>
      simp only [hFound] at hRun
      exact createPage_new hDb hSite (Database.pageAt_eq_none.mp hFound) hRun
  | some p =>
      simp only [hFound] at hRun
      obtain ⟨rfl, rfl⟩ := Prod.mk.inj hRun
      obtain ⟨hp, hPath⟩ := Database.mem_of_pageAt hFound
      have hHas : db.HasAddress (site.idSite, a) := ⟨p, hp, hPath⟩
      refine .inl ⟨hDb.fits_of_hasAddress hHas, p, false, rfl, ?_⟩
      exact {
        consistent := hDb
        sites := rfl
        stored := hp
        fullPath := hPath
        created := by simp [hHas]
        pages := fun q => by
          constructor
          · exact .inl
          · rintro (hq | rfl)
            · exact hq
            · exact hp }

/-- Both calls return the page that they asked for. Two calls for one page return
one row, which is the only one; it was created by one of them if it was not there. -/
def BothServed (db : Database) (site : Site) (a b : Str × Str) (r r' : Except PyError (Page × Bool))
    (db' : Database) : Prop :=
  ∃ p c q c', r = .ok (p, c) ∧ r' = .ok (q, c') ∧
    (p ∈ db'.pages ∧ p.fullPath = (site.idSite, a)) ∧ (q ∈ db'.pages ∧ q.fullPath = (site.idSite, b)) ∧
    (a = b → p = q ∧ (c = true ∨ c' = true ↔ ¬ db.HasAddress (site.idSite, a)) ∧
      ¬ (c = true ∧ c' = true) ∧ db'.pages.countP (fun p => p.fullPath = (site.idSite, a)) = 1)

theorem BothServed.swap (h : BothServed db site a b r r' db') : BothServed db site b a r' r db' := by
  obtain ⟨p, c, q, c', hLeft, hRight, hP, hQ, hOnce⟩ := h
  refine ⟨q, c', p, c, hRight, hLeft, hQ, hP, ?_⟩
  rintro rfl
  obtain ⟨rfl, hCreated, hNotBoth, hCount⟩ := hOnce rfl
  exact ⟨rfl, or_comm.trans hCreated, fun hBoth => hNotBoth hBoth.symm, hCount⟩

section Pair
variable {middle : Database} {c c' : Bool}

/-- One more address is taken at most. -/
theorem Obtained.hasAddress (h : Obtained db (site.idSite, a) p c middle) (key : Str × Str) :
    middle.HasAddress (site.idSite, key) ↔ db.HasAddress (site.idSite, key) ∨ key = a := by
  constructor
  · rintro ⟨q, hq, hPath⟩
    rcases (h.pages q).mp hq with hq | rfl
    · exact .inl ⟨q, hq, hPath⟩
    · exact .inr (Prod.mk.inj (hPath.symm.trans h.fullPath)).2
  · rintro (⟨q, hq, hPath⟩ | rfl)
    · exact ⟨q, (h.pages q).mpr (.inl hq), hPath⟩
    · exact ⟨p, h.stored, h.fullPath⟩

/-- Two pages that were obtained one after the other. -/
theorem Obtained.served (h : Obtained db (site.idSite, a) p c middle)
    (h' : Obtained middle (site.idSite, b) q c' db') :
    BothServed db site a b (.ok (p, c)) (.ok (q, c')) db' := by
  have hP : p ∈ db'.pages := (h'.pages p).mpr (.inl h.stored)
  refine ⟨p, c, q, c', rfl, rfl, ⟨hP, h.fullPath⟩, ⟨h'.stored, h'.fullPath⟩, ?_⟩
  rintro rfl
  have hSecond : c' = false := by
    rw [Bool.eq_false_iff]
    intro hCreated
    exact h'.created.mp hCreated ⟨p, h.stored, h.fullPath⟩
  have hOnly : db'.pages.filter (fun p => p.fullPath = (site.idSite, a)) = [p] := by
    rw [h'.consistent.fullPaths.filter_eq, ← h.fullPath, h'.consistent.fullPaths.lookup_eq hP]
    rfl
  refine ⟨?_, ?_, ?_, ?_⟩
  · exact h'.consistent.fullPaths.eq hP h'.stored (h.fullPath.trans h'.fullPath.symm)
  · simp [hSecond, h.created]
  · simp [hSecond]
  · rw [List.countP_eq_length_filter, hOnly]
    rfl

theorem not_served_of_error {e : PyError} : ¬ BothServed db site a b (.error e) r' db' := by
  rintro ⟨_, _, _, _, hLeft, -⟩
  cases hLeft

/-- One call after the other. -/
theorem served_successive (hDb : db.Consistent) (hSite : site ∈ db.sites)
    (hLeft : (site.loadOrCreate stamp a.1 a.2).run db = (r, middle))
    (hRight : (site.loadOrCreate stamp' b.1 b.2).run middle = (r', db')) :
    BothServed db site a b r r' db' ↔ Fits a ∧ Fits b := by
  rcases loadOrCreate_returns hDb hSite hLeft with ⟨hFits, p, c, rfl, hFirst⟩ | ⟨hWide, e, rfl⟩
  · have hSite' : site ∈ middle.sites := hFirst.sites ▸ hSite
    rcases loadOrCreate_returns hFirst.consistent hSite' hRight with
      ⟨hFits', q, c', rfl, hSecond⟩ | ⟨hWide, e, rfl⟩
    · exact iff_of_true (hFirst.served hSecond) ⟨hFits, hFits'⟩
    · exact iff_of_false (fun h => not_served_of_error h.swap) fun h => hWide h.2
  · exact iff_of_false not_served_of_error fun h => hWide h.1

/-- Both calls have looked in vain, and create their pages one after the other. -/
theorem served_race (hDb : db.Consistent) (hSite : site ∈ db.sites)
    (hNone : ¬ db.HasAddress (site.idSite, a)) (hNone' : ¬ db.HasAddress (site.idSite, b))
    (hLeft : (site.createPage stamp a).run db = (r, middle))
    (hRight : (site.createPage stamp' b).run middle = (r', db')) :
    BothServed db site a b r r' db' ↔ Fits a ∧ Fits b ∧ a ≠ b := by
  rcases createPage_new hDb hSite hNone hLeft with ⟨hFits, p, c, rfl, hFirst⟩ | ⟨hWide, e, rfl⟩
  · have hSite' : site ∈ middle.sites := hFirst.sites ▸ hSite
    by_cases hSame : b = a
    · have hTaken : middle.HasAddress (site.idSite, b) := (hFirst.hasAddress b).mpr (.inr hSame)
      obtain ⟨e, rfl⟩ := createPage_taken hFirst.consistent hTaken hRight
      exact iff_of_false (fun h => not_served_of_error h.swap) fun h => h.2.2 hSame.symm
    · have hFree : ¬ middle.HasAddress (site.idSite, b) := by
        rw [hFirst.hasAddress]
        exact not_or.mpr ⟨hNone', hSame⟩
      rcases createPage_new hFirst.consistent hSite' hFree hRight with
        ⟨hFits', q, c', rfl, hSecond⟩ | ⟨hWide, e, rfl⟩
      · exact iff_of_true (hFirst.served hSecond) ⟨hFits, hFits', fun h => hSame h.symm⟩
      · exact iff_of_false (fun h => not_served_of_error h.swap) fun h => hWide h.2.1
  · exact iff_of_false not_served_of_error fun h => hWide h.1

end Pair

/-- Two interleaved calls are served exactly when both keys fit and the
calls do not both look for one missing page before either of them creates it. -/
theorem served_iff (db db' : Database) (site : Site) (stamp stamp' : Nat → Time) (a b : Str × Str)
    (trace : List (Side × Label)) (r r' : Except PyError (Page × Bool)) (hDb : db.Consistent)
    (hSite : site ∈ db.sites)
    (hRun : Returning (site.loadOrCreate stamp a.1 a.2) (site.loadOrCreate stamp' b.1 b.2) db trace
      r r' db') :
    BothServed db site a b r r' db' ↔ (Fits a ∧ Fits b) ∧
      ¬ (a = b ∧ ¬ db.HasAddress (site.idSite, a) ∧ Alternates trace) := by
  have hSwap : BothServed db site b a r' r db' ↔ BothServed db site a b r r' db' :=
    ⟨BothServed.swap, BothServed.swap⟩
  rw [loadOrCreate_eq, loadOrCreate_eq] at hRun
  have hCases := hRun.successive
  rw [hDb.first_eq_pageAt, hDb.first_eq_pageAt, Database.pageAt_eq_none, Database.pageAt_eq_none] at hCases
  rcases hCases with ⟨hNoRace, hOrder⟩ | ⟨⟨hNone, hNone', hTrace⟩, hOrder⟩
  · have hFine : ¬ (a = b ∧ ¬ db.HasAddress (site.idSite, a) ∧ Alternates trace) := by
      rintro ⟨rfl, hNone, hTrace⟩
      exact hNoRace ⟨hNone, hNone, hTrace⟩
    rw [and_iff_left hFine]
    rw [← loadOrCreate_eq, ← loadOrCreate_eq] at hOrder
    rcases hOrder with ⟨middle, hLeft, hRight⟩ | ⟨middle, hRight, hLeft⟩
    · exact served_successive hDb hSite hLeft hRight
    · rw [← hSwap, and_comm]
      exact served_successive hDb hSite hRight hLeft
  · have hRace : (a = b ∧ ¬ db.HasAddress (site.idSite, a) ∧ Alternates trace) ↔ a = b :=
      and_iff_left ⟨hNone, hTrace⟩
    rw [hRace, and_assoc]
    rcases hOrder with ⟨middle, hLeft, hRight⟩ | ⟨middle, hRight, hLeft⟩
    · exact served_race hDb hSite hNone hNone' hLeft hRight
    · rw [← hSwap, served_race hDb hSite hNone' hNone hRight hLeft, ne_comm]
      exact and_left_comm

def askForX : Session (Page × Bool) := seedSite.loadOrCreate (fun pk => pk) "/x" []

/-- The second call comes when the first one is done. -/
theorem served_serial :
    ∃ trace r r' db', Returning askForX askForX .seeded trace r r' db' ∧
      BothServed .seeded seedSite ("/x", []) ("/x", []) r r' db' := by
  have hRun : Returning askForX askForX .seeded _ _ _ _ := .left (.left (.right (.done _ _ _)))
  refine ⟨_, _, _, _, hRun, ?_⟩
  refine (served_iff .seeded _ seedSite _ _ ("/x", []) ("/x", []) _ _ _ Database.consistent_seeded
    (by decide) hRun).mpr ⟨⟨⟨by decide, by decide⟩, by decide, by decide⟩, ?_⟩
  rintro ⟨-, -, hTrace⟩
  cases hTrace

/-- Both calls look, and then both create: the constraint rejects the second row. -/
theorem not_served_both :
    ∃ trace r db', Returning askForX askForX .seeded trace r (.error uniqueError) db' ∧
      ¬ BothServed .seeded seedSite ("/x", []) ("/x", []) r (.error uniqueError) db' := by
  refine ⟨_, _, _, .left (.right (.left (.right (.done _ _ _)))), ?_⟩
  rintro ⟨_, _, _, _, -, hRight, -⟩
  cases hRight

end Spidercheck
