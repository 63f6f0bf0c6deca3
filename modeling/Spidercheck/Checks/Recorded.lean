import Spidercheck.Checks.Outcome

/-! What a check that returns leaves behind, whatever `is_valid` answered: the
row of its page carries the mark and the time of the check, the pages that the
check discovered are appended, and every other page is as it was. -/
namespace Spidercheck

open Text Url Execution Relational

variable {py : Platform} {input : Input} {db db' : Database} {page row : Page} {site : Site}
  {stamp : Nat → Time}

structure Fresh (stamp : Nat → Time) (p : Page) : Prop where
  isChecked : p.isChecked = false
  checkedAt : p.checkedAt = epoch
  createdAt : p.createdAt = stamp p.idPage

theorem fresh_newRow (subpath params : Str) (pk : Nat) :
    Fresh stamp (site.newRow stamp subpath params pk) :=
  ⟨rfl, rfl, rfl⟩

/-- Fresh pages were added to a database, and its other pages are as they were. -/
structure Appends (stamp : Nat → Time) (db db' : Database) : Prop where
  consistent : db'.Consistent
  sites : db'.sites = db.sites
  scheduled : db'.scheduled = db.scheduled
  pages : ∃ new, db'.pages = db.pages ++ new ∧ ∀ p ∈ new, Fresh stamp p

theorem Appends.refl (h : db.Consistent) : Appends stamp db db :=
  ⟨h, rfl, rfl, [], by simp⟩

theorem Appends.same {t t' : Database} (h : Appends stamp db t) (hConsistent : t'.Consistent)
    (hSame : t.SamePages t') : Appends stamp db t' where
  consistent := hConsistent
  sites := hSame.sites.trans h.sites
  scheduled := hSame.scheduled.trans h.scheduled
  pages := by
    rw [hSame.pages]
    exact h.pages

/-- Sessions that only insert fresh pages append pages. -/
theorem growing_appends : Growing (Appends stamp db) (Fresh stamp) where
  insertPage t stamp' pk row h hRow := by
    have hConsistent := h.consistent.insertPage stamp' pk row
    unfold Database.insertPage at hConsistent ⊢
    obtain ⟨e, hReject⟩ | hAccept := Database.accept_cases _ t _ _
    · rw [hReject]
      exact h
    · rw [hAccept] at hConsistent ⊢
      obtain ⟨new, hPages, hNew⟩ := h.pages
      refine { h with
        consistent := hConsistent
        pages := ⟨new ++ [{ row with idPage := pk, createdAt := stamp' pk }], ?_, ?_⟩ }
      · simp only [hPages, List.append_assoc]
      · intro p hp
        rcases List.mem_append.mp hp with hp | hp
        · exact hNew p hp
        · rw [List.mem_singleton.mp hp]
          exact hRow
  insertLink _ a b h := h.same (h.consistent.insertLink a b) (Database.samePages_insertLink a b)
  insertValue _ row h := h.same (h.consistent.insertValue row) (Database.samePages_insertValue row)
  updateValue _ row h := h.same (h.consistent.updateValue row) (Database.samePages_updateValue row)
  deleteLinks _ doomed h := h.same (h.consistent.deleteLinks doomed) ⟨rfl, rfl, rfl⟩
  deleteValues _ doomed h := h.same (h.consistent.deleteValues doomed) ⟨rfl, rfl, rfl⟩

/-- The columns of the row that a check fills in. -/
structure MarkedRow (input : Input) (page row : Page) : Prop where
  idPage : row.idPage = page.idPage
  fullPath : row.fullPath = page.fullPath
  createdAt : row.createdAt = page.createdAt
  isChecked : row.isChecked = true
  checkedAt : row.checkedAt = input.justNow

/-- The row of a page was replaced by a marked one, and then pages were appended. -/
structure Recorded (input : Input) (page : Page) (db db' : Database) : Prop where
  consistent : db'.Consistent
  sites : db'.sites = db.sites
  scheduled : db'.scheduled = db.scheduled
  pages : ∃ row new, MarkedRow input page row ∧
    db'.pages = replace Page.idPage row db.pages ++ new ∧ ∀ p ∈ new, Fresh input.stamp p

theorem Recorded.appends (h : Recorded input page db db') {db'' : Database}
    (hAppends : Appends input.stamp db' db'') : Recorded input page db db'' := by
  obtain ⟨row, new, hRow, hPages, hNew⟩ := h.pages
  obtain ⟨new', hPages', hNew'⟩ := hAppends.pages
  refine ⟨hAppends.consistent, hAppends.sites.trans h.sites, hAppends.scheduled.trans h.scheduled,
    row, new ++ new', hRow, ?_, List.forall_mem_append.mpr ⟨hNew, hNew'⟩⟩
  rw [hPages', hPages, List.append_assoc]

/-- What saving a copy of a stored page does when it returns. -/
theorem savePage_ok (h : db.Consistent) (hPage : page ∈ db.pages) (hRow : MarkedRow input page row)
    {saved : Unit} (hRun : (Session.savePage stamp row).run db = (.ok saved, db')) :
    Recorded input page db db' ∧ db'.pages = replace Page.idPage row db.pages := by
  obtain ⟨rfl, hConsistent⟩ :=
    h.rewrite_of_savePage hPage hRow.idPage.symm hRow.fullPath.symm hRun
  exact ⟨⟨hConsistent, rfl, rfl, row, [], hRow, by simp [Database.rewrite], by simp⟩, rfl⟩

/-- A copy of the marked row may be saved over it. -/
theorem Recorded.savePage (h : Recorded input page db db') {row' : Page}
    (hPages : db'.pages = replace Page.idPage row db.pages) (hPage : page ∈ db.pages)
    (hRow : MarkedRow input page row) (hRow' : MarkedRow input page row') {saved : Unit}
    {db'' : Database} (hRun : (Session.savePage stamp row').run db' = (.ok saved, db'')) :
    Recorded input page db db'' := by
  have hMem : row ∈ db'.pages := by
    rw [hPages]
    exact mem_replace.mpr (.inl ⟨rfl, page, hPage, hRow.idPage.symm⟩)
  have hAgain : MarkedRow input row row' := {
    idPage := hRow'.idPage.trans hRow.idPage.symm
    fullPath := hRow'.fullPath.trans hRow.fullPath.symm
    createdAt := hRow'.createdAt.trans hRow.createdAt.symm
    isChecked := hRow'.isChecked
    checkedAt := hRow'.checkedAt }
  obtain ⟨hSaved, hPages'⟩ := savePage_ok h.consistent hMem hAgain hRun
  refine ⟨hSaved.consistent, hSaved.sites.trans h.sites, hSaved.scheduled.trans h.scheduled,
    row', [], hRow', ?_, by simp⟩
  rw [hPages', hPages, replace_replace hAgain.idPage.symm, List.append_nil]

/-- Following links appends pages. -/
theorem appends_updateLinks (hDb : db.Consistent) (body : Str) :
    Appends input.stamp db ((updateLinks py input site page body).run db).2 :=
  (growing_appends.updateLinks py input site page body
    fun _ _ _ _ _ => fresh_newRow _ _ _).run (Appends.refl hDb)

theorem appends_runPlugins (hDb : db.Consistent) (plugins : List Plugin) (headers : Headers)
    (body : Str) : Appends stamp db ((runPlugins plugins page headers body).run db).2 :=
  (growing_appends.runPlugins plugins page headers body).run (Appends.refl hDb)

/-- Pages that are appended twice are appended. -/
theorem Appends.trans (h : Appends stamp db db') {db'' : Database} (h' : Appends stamp db' db'') :
    Appends stamp db db'' := by
  obtain ⟨new, hPages, hNew⟩ := h.pages
  obtain ⟨new', hPages', hNew'⟩ := h'.pages
  refine ⟨h'.consistent, h'.sites.trans h.sites, h'.scheduled.trans h.scheduled, new ++ new', ?_,
    List.forall_mem_append.mpr ⟨hNew, hNew'⟩⟩
  rw [hPages', hPages, List.append_assoc]

/-- A check that reads a text records its result. -/
theorem recorded_checkBody (hPage : page ∈ db.pages)
    (hSaved : Recorded input page db db') (hRow : MarkedRow input page row)
    (hPages : db'.pages = replace Page.idPage row db.pages) {url body : Str} {headers : Headers}
    {r : Result Str} {db'' : Database}
    (hRun : (checkBody py input row site url headers body).run db' = (.ok r, db'')) :
    Recorded input page db db'' := by
  unfold checkBody at hRun
  split at hRun
  · obtain ⟨changes, t, hLinks, hRun⟩ := (Program.run_bind_eq_ok _ _ _).mp hRun
    obtain ⟨phase, u, hPlugins, hRun⟩ := (Program.run_bind_eq_ok _ _ _).mp hRun
    obtain rfl : u = db'' := (Prod.mk.inj hRun).2
    have hAppends : Appends input.stamp db' ((updateLinks py input site row body).run db').2 :=
      appends_updateLinks hSaved.consistent body
    rw [hLinks] at hAppends
    have hAppends' : Appends input.stamp t ((runPlugins input.plugins row headers body).run t).2 :=
      appends_runPlugins hAppends.consistent input.plugins headers body
    rw [hPlugins] at hAppends'
    exact (hSaved.appends hAppends).appends hAppends'
  · obtain ⟨saved, t, hSave, hRun⟩ := (Program.run_bind_eq_ok _ _ _).mp hRun
    obtain rfl : t = db'' := (Prod.mk.inj hRun).2
    refine hSaved.savePage hPages hPage hRow ?_ hSave
    exact ⟨hRow.idPage, hRow.fullPath, hRow.createdAt, hRow.isChecked, hRow.checkedAt⟩

/-- A check that gets a response records its result. -/
theorem recorded_checkResponse (hDb : db.Consistent) (hPage : page ∈ db.pages) {url : Str}
    {value : Payload} {r : Result Str}
    (hRun : (checkResponse py input (page.marked input.justNow) site url value).run db =
      (.ok r, db')) : Recorded input page db db' := by
  obtain ⟨response, -, hRun⟩ := (Program.run_liftExcept_bind_eq_ok _ _).mp hRun
  obtain ⟨sizeBytes, -, hRun⟩ := (Program.run_liftExcept_bind_eq_ok _ _).mp hRun
  obtain ⟨saved, t, hSave, hRun⟩ := (Program.run_bind_eq_ok _ _ _).mp hRun
  have hRow : MarkedRow input page ((page.marked input.justNow).answered input response sizeBytes) :=
    ⟨rfl, rfl, rfl, rfl, rfl⟩
  obtain ⟨hSaved, hPages⟩ := savePage_ok hDb hPage hRow hSave
  split at hRun
  · obtain ⟨isLocal, -, hRun⟩ := (Program.run_liftExcept_bind_eq_ok _ _).mp hRun
    split at hRun
    · obtain ⟨text, -, hRun⟩ := (Program.run_liftExcept_bind_eq_ok _ _).mp hRun
      exact recorded_checkBody hPage hSaved hRow hPages hRun
    · -- the links of the page are deleted
      obtain ⟨removed, u, hDelete, hRun⟩ := (Program.run_bind_eq_ok _ _ _).mp hRun
      obtain rfl : u = db' := (Prod.mk.inj hRun).2
      obtain rfl : t.deleteLinks _ = u := (Prod.mk.inj hDelete).2
      exact hSaved.appends ⟨hSaved.consistent.deleteLinks _, rfl, rfl, [], by simp [Database.deleteLinks]⟩
  · obtain rfl : t = db' := (Prod.mk.inj hRun).2
    exact hSaved

/-- A check that fails records its result. -/
theorem recorded_checkFailure (hDb : db.Consistent) (hPage : page ∈ db.pages) {url message : Str}
    {code : Option Int} {r : Result Str}
    (hRun : (checkFailure input (page.marked input.justNow) url message code).run db =
      (.ok r, db')) : Recorded input page db db' := by
  obtain ⟨status, -, hRun⟩ := (Program.run_liftExcept_bind_eq_ok _ _).mp hRun
  obtain ⟨saved, t, hSave, hRun⟩ := (Program.run_bind_eq_ok _ _ _).mp hRun
  obtain rfl : t = db' := (Prod.mk.inj hRun).2
  refine (savePage_ok hDb hPage ?_ hSave).1
  exact ⟨rfl, rfl, rfl, rfl, rfl⟩

/-- Every check that returns has recorded itself, whatever `is_valid` answered. -/
theorem recorded_of_returns (hDb : db.Consistent) (hPage : page ∈ db.pages)
    {answer : Site → Page → Except PyError (Result Payload)} {r : Result Str}
    (hRun : (checkPageWith answer py input page).run db = (.ok r, db')) :
    Recorded input page db db' := by
  obtain ⟨site, -, hSite⟩ := hDb.siteById hPage
  rw [run_checkPageWith hSite] at hRun
  split at hRun
  · cases hRun
  · cases hRun
  · next url result _ _ =>
      cases result with
      | success value => exact recorded_checkResponse hDb hPage hRun
      | failure message code => exact recorded_checkFailure hDb hPage hRun

end Spidercheck
