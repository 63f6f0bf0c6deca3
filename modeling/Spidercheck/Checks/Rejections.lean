import Spidercheck.Checks.Plugins
import Spidercheck.Links.Synchronisation
import Spidercheck.Pages.Creation
import Mathlib.Data.List.Forall2

/-! Statements that the database rejects because a value does not fit into its
column. Nothing is cut to its width before it is saved, and nobody catches the
rejection, so the call ends there. -/
namespace Spidercheck

open Text Url Execution Relational

variable {db : Database} {page : Page} {site : Site} {Returned Other : Type}

def Rejects (p : Session Returned) (db : Database) : Prop :=
  ∃ e, (p.run db).1 = .error e ∧ e.kind = .dataError

section Rules
variable {p : Session Returned} {k : Returned → Session Other}

theorem rejects_of_error {e : PyError} {t : Database} (h : p.run db = (.error e, t)) :
    Rejects p db ↔ e.kind = .dataError := by
  simp [Rejects, h]

theorem not_rejects_of_ok {value : Returned} {t : Database} (h : p.run db = (.ok value, t)) :
    ¬ Rejects p db := by
  simp [Rejects, h]

@[simp] theorem not_rejects_pure (value : Returned) : ¬ Rejects (pure value : Session Returned) db :=
  not_rejects_of_ok rfl

/-- A sequence is rejected in its first part or in its second. -/
theorem rejects_bind :
    Rejects (p >>= k) db ↔ Rejects p db ∨ ∃ value t, p.run db = (.ok value, t) ∧ Rejects (k value) t := by
  rw [Rejects, Rejects, Program.run_bind]
  rcases p.run db with ⟨e | value, t⟩
  · simp
  · simp [Rejects]

/-- Behind a part that returns it is for the rest to be rejected. -/
theorem rejects_bind_of_ok {value : Returned} {t : Database} (h : p.run db = (.ok value, t)) :
    Rejects (p >>= k) db ↔ Rejects (k value) t := by
  rw [Rejects, Program.run_bind_ok _ _ _ h, Rejects]

theorem rejects_bind_of_error {e : PyError} {t : Database} (h : p.run db = (.error e, t)) :
    Rejects (p >>= k) db ↔ e.kind = .dataError :=
  rejects_of_error (Program.run_bind_error _ _ _ h)

/-- A value that is thrown away does not matter. -/
theorem rejects_bind_pure (result : Returned → Other) :
    Rejects (p >>= fun value => (pure (result value) : Session Other)) db ↔ Rejects p db := by
  rw [rejects_bind]
  simp

end Rules

/-- Saving a copy of a stored page is rejected exactly when it does not fit. -/
theorem rejects_savePage (hDb : db.Consistent) (stamp : Nat → Time) {row : Page}
    (hStored : ∃ p ∈ db.pages, p.idPage = row.idPage ∧ p.fullPath = row.fullPath) :
    Rejects (Session.savePage stamp row) db ↔ ¬ row.fits = true := by
  have hRun := run_savePage_of_stored hDb stamp hStored
  by_cases hFits : row.fits = true
  · rw [if_pos hFits] at hRun
    exact iff_of_false (not_rejects_of_ok hRun) (not_not.mpr hFits)
  · rw [if_neg hFits] at hRun
    exact iff_of_true ((rejects_of_error hRun).mpr rfl) hFits

/-- The URLs that are stored before one that cannot be parsed all fit. -/
def UrlsFit (py : Platform) : List Str → Prop
  | [] => True
  | url :: rest => match urlparse py.netlocCheck url [] with
    | none => True
    | some info => Fits (info.path, info.query) ∧ UrlsFit py rest

theorem run_addPage_cases (stamp : Nat → Time) (hDb : db.Consistent) (hSite : site ∈ db.sites)
    (py : Platform) (url : Str) :
    match urlparse py.netlocCheck url [] with
    | none => (site.addPage py stamp url).run db = (.error (valueError "Invalid IPv6 URL"), db)
    | some info => (Fits (info.path, info.query) ∧ ∃ r t, (site.addPage py stamp url).run db = (.ok r, t)) ∨
        (¬ Fits (info.path, info.query) ∧ (site.addPage py stamp url).run db = (.error dataError, db)) := by
  cases hInfo : urlparse py.netlocCheck url [] with
  | none => simp [Site.addPage, hInfo, orValueError]
  | some info =>
      rcases run_addPage stamp hDb hSite py url with ⟨hNone, -⟩ | ⟨info', hInfo', hCases⟩
      · rw [hInfo] at hNone
        cases hNone
      · obtain rfl : info = info' := Option.some.inj (hInfo.symm.trans hInfo')
        rcases hCases with ⟨found, hFound, hRun⟩ | ⟨-, hFits, hRun⟩ | ⟨hWide, hRun⟩
        · obtain ⟨hMem, hPath⟩ := Database.mem_of_pageAt hFound
          have hHas : db.HasAddress (site.idSite, info.path, info.query) := ⟨found, hMem, hPath⟩
          exact .inl ⟨hDb.fits_of_hasAddress hHas, _, _, hRun⟩
        · exact .inl ⟨hFits, _, _, hRun⟩
        · exact .inr ⟨hWide, hRun⟩

/-- `add_page` is rejected exactly when the address of the URL is too wide. -/
theorem rejects_addPage (stamp : Nat → Time) (hDb : db.Consistent) (hSite : site ∈ db.sites)
    (py : Platform) (url : Str) : Rejects (site.addPage py stamp url) db ↔ ¬ UrlsFit py [url] := by
  have hCases := run_addPage_cases stamp hDb hSite py url
  cases hInfo : urlparse py.netlocCheck url [] with
  | none =>
      simp only [hInfo] at hCases
      rw [rejects_of_error hCases]
      simp [UrlsFit, hInfo, valueError]
  | some info =>
      simp only [hInfo] at hCases
      rcases hCases with ⟨hFits, r, t, hRun⟩ | ⟨hWide, hRun⟩
      · exact iff_of_false (not_rejects_of_ok hRun) (by simp [UrlsFit, hInfo, hFits])
      · exact iff_of_true ((rejects_of_error hRun).mpr rfl) (by simp [UrlsFit, hInfo, hWide])

/-- The pages for a list of links, in their order. -/
theorem rejects_addPages (stamp : Nat → Time) (py : Platform) (links : List Str) (hDb : db.Consistent)
    (hSite : site ∈ db.sites) : Rejects (site.addPages py stamp links) db ↔ ¬ UrlsFit py links := by
  induction links generalizing db with
  | nil => exact iff_of_false (not_rejects_pure []) (not_not.mpr trivial)
  | cons url rest ih =>
      have hCases := run_addPage_cases stamp hDb hSite py url
      obtain ⟨hKept, hSites⟩ := addPage_keeps py stamp site url hDb
      rw [Rejects, run_addPages_cons, UrlsFit]
      cases hInfo : urlparse py.netlocCheck url [] with
      | none =>
          simp only [hInfo] at hCases
          simp [hCases, valueError]
      | some info =>
          simp only [hInfo] at hCases
          rcases hCases with ⟨hFits, ⟨target, created⟩, t, hRun⟩ | ⟨hWide, hRun⟩
          · rw [hRun] at hKept hSites
            have hRest : Rejects (site.addPages py stamp rest) t ↔ ¬ UrlsFit py rest :=
              ih hKept (hSites ▸ hSite)
            rw [hRun]
            simp only [and_iff_right hFits]
            rw [← hRest, Rejects]
            rcases (site.addPages py stamp rest).run t with ⟨e | targets, u⟩
            · simp
            · simp
          · simp [hRun, hWide, dataError]

/-- The loop of `_update_links` is rejected where `add_page` is. -/
theorem rejects_addLinks (py : Platform) (stamp : Nat → Time) (links : List Str) (hDb : db.Consistent)
    (hSite : site ∈ db.sites) (hPage : db.hasPage page.idPage = true) :
    Rejects (links.foldlM (addLink py stamp site page) ∅) db ↔ ¬ UrlsFit py links := by
  rw [← rejects_addPages stamp py links hDb hSite]
  have hLoop := run_addLinks py stamp links hDb hSite hPage ∅ db.links db.nextLink
  rw [show db.withLinks db.links db.nextLink = db from rfl] at hLoop
  rcases hAdd : (site.addPages py stamp links).run db with ⟨e | targets, t⟩
  · rw [hAdd] at hLoop
    obtain ⟨u, hRun⟩ := hLoop
    rw [rejects_of_error hRun, rejects_of_error hAdd]
  · rw [hAdd] at hLoop
    obtain ⟨rows, nextLink, hRun, -⟩ := hLoop
    exact iff_of_false (not_rejects_of_ok hRun) (not_rejects_of_ok hAdd)

/-- `_update_links`, when the exceptions of the links are not those of the database. -/
theorem rejects_syncLinks (py : Platform) (stamp : Nat → Time) {links : Generator Str}
    (hDb : db.Consistent) (hSite : site ∈ db.sites) (hPage : page ∈ db.pages)
    (hRaised : ∀ e, links.raised = some e → e.kind ≠ .dataError) :
    Rejects (syncLinks py stamp site page links) db ↔ ¬ UrlsFit py links.yielded := by
  have hHas : db.hasPage page.idPage = true := Database.hasPage_iff.mpr ⟨page, hPage, rfl⟩
  rw [← rejects_addLinks py stamp links.yielded hDb hSite hHas, syncLinks, Session.selectFrom,
    rejects_bind_of_ok (Program.run_select ..), rejects_bind]
  apply or_iff_left
  rintro ⟨after, t, -, hEnd⟩
  cases hCase : links.raised with
  | some e =>
      simp only [hCase] at hEnd
      exact hRaised e hCase ((rejects_of_error (Program.run_raise t e)).mp hEnd)
  | none =>
      simp only [hCase] at hEnd
      split at hEnd
      · rw [rejects_bind_of_ok (by rfl)] at hEnd
        exact not_rejects_pure _ hEnd
      · exact not_rejects_pure _ hEnd

/-- What `_update_links` has met when it returns. -/
theorem storable_of_returns (py : Platform) (stamp : Nat → Time) {links : Generator Str}
    (hDb : db.Consistent) (hSite : site ∈ db.sites) (hPage : page ∈ db.pages)
    {changes : Finset Nat × Finset Nat} {t : Database}
    (hRun : (syncLinks py stamp site page links).run db = (.ok changes, t)) :
    links.raised = none ∧ ∀ url ∈ links.yielded, Storable py url := by
  have hExact := run_syncLinks_exact py stamp hDb hPage hSite links
  rw [hRun] at hExact
  obtain ⟨hRaised, targets, u, hAdd, hPages, -⟩ := hExact
  have hEnd : t.Consistent :=
    (growing_consistent.syncLinks site page py stamp links fun _ _ _ _ _ => trivial).of_run hRun hDb
  have hStored : List.Forall₂ (Stored py site u) links.yielded targets := by
    have hAdded := run_addPages py stamp links.yielded hDb hSite
    rw [hAdd] at hAdded
    exact hAdded.2
  have hFits (url : Str) (target : Page) (h : Stored py site u url target) :
      Storable py url ∧ Stored py site u url target := by
    obtain ⟨info, hInfo, hFound⟩ := h.congr hPages
    obtain ⟨hMem, hPath⟩ := Database.mem_of_pageAt hFound
    have hHas : t.HasAddress (site.idSite, info.path, info.query) := ⟨target, hMem, hPath⟩
    exact ⟨⟨info, hInfo, hEnd.fits_of_hasAddress hHas⟩, h⟩
  exact ⟨hRaised, ((List.forall₂_and_left _ _).mp (hStored.imp hFits)).1⟩

/-- Links that can all be stored are all stored. -/
theorem returns_of_storable (py : Platform) (stamp : Nat → Time) {links : Generator Str}
    (hDb : db.Consistent) (hSite : site ∈ db.sites) (hPage : page ∈ db.pages)
    (hRaised : links.raised = none) (hLinks : ∀ url ∈ links.yielded, Storable py url) :
    ∃ changes t, (syncLinks py stamp site page links).run db = (.ok changes, t) := by
  have hExact := run_syncLinks_exact py stamp hDb hPage hSite links
  rcases hRun : (syncLinks py stamp site page links).run db with ⟨e | changes, t⟩
  · rw [hRun] at hExact
    rcases hExact with hSome | ⟨url, hUrl, hWide⟩
    · exact absurd hRaised hSome
    · exact absurd (hLinks url hUrl) hWide
  · exact ⟨changes, t, rfl⟩

def ValueFits (name value : Str) : Prop := storable 64 name = true ∧ storable 2048 value = true

theorem valueFits_iff {row : Value} : row.fits = true ↔ ValueFits row.name row.value := by
  simp [Value.fits, ValueFits]

/-- A stored value under a new text violates nothing but the widths. -/
theorem valueViolation_of_stored (hDb : db.Consistent) {row : Value} (hRow : row ∈ db.values)
    (value : Str) : db.valueViolation { row with value := value } =
      if ({ row with value := value } : Value).fits = true then none else some dataError := by
  by_cases hFits : ({ row with value := value } : Value).fits = true
  · rw [if_pos hFits, Database.valueViolation_eq_none]
    refine ⟨hFits, hDb.valuePages row hRow, ?_⟩
    intro v hv hNe hKey
    have hSame : v = row := hDb.naturalKeys.eq hv hRow hKey
    exact hNe (by rw [hSame])
  · simp [Database.valueViolation, firstError, hFits]

theorem run_saveValue (hDb : db.Consistent) {row : Value} (hRow : row ∈ db.values) (value : Str) :
    (ValueFits row.name value ∧ ∃ t, (Session.saveValue { row with value := value }).run db = (.ok (), t)) ∨
      (¬ ValueFits row.name value ∧
        (Session.saveValue { row with value := value }).run db = (.error dataError, db)) := by
  have hTaken : db.values.any (·.idValue == row.idValue) = true :=
    List.any_eq_true.mpr ⟨row, hRow, by simp⟩
  rw [Session.saveValue, Program.run_bind, Program.run_statement, Database.updateValue, if_pos hTaken,
    valueViolation_of_stored hDb hRow]
  have hWidths : ({ row with value := value } : Value).fits = true ↔ ValueFits row.name value :=
    valueFits_iff
  by_cases hFits : ({ row with value := value } : Value).fits = true
  · rw [if_pos hFits]
    exact .inl ⟨hWidths.mp hFits, _, rfl⟩
  · rw [if_neg hFits]
    exact .inr ⟨mt hWidths.mpr hFits, rfl⟩

/-- A value for a name that the page does not have yet. -/
theorem run_insertValue (hDb : db.Consistent) (hPage : page ∈ db.pages) {name : Str}
    (hNone : db.values.find? (fun v => v.page == page.idPage && v.name == name) = none) :
    (storable 64 name = true ∧ ∃ row t, (Session.insertValue page.idPage name []).run db = (.ok row, t)) ∨
      (¬ storable 64 name = true ∧
        (Session.insertValue page.idPage name []).run db = (.error dataError, db)) := by
  let row : Value := { idValue := db.nextValue, page := page.idPage, name := name, value := [] }
  have hFree : db.values.any (·.idValue == db.nextValue) = false := by
    rw [List.any_eq_false]
    intro v hv
    have := hDb.valuesFresh v hv
    simp only [beq_iff_eq]
    omega
  have hFits : row.fits = true ↔ storable 64 name = true := by simp [row, Value.fits]
  have hInsert : (Session.insertValue page.idPage name []).run db =
      accept (db.valueViolation row) db row
        { db with values := db.values ++ [row], nextValue := max db.nextValue (db.nextValue + 1) } := by
    show accept (if db.values.any (·.idValue == db.nextValue) then some uniqueError
      else db.valueViolation row) db row _ = _
    rw [hFree]
    rfl
  rw [hInsert]
  by_cases hName : storable 64 name = true
  · have hViolation : db.valueViolation row = none := by
      refine Database.valueViolation_eq_none.mpr ⟨hFits.mpr hName, ⟨page, hPage, rfl⟩, ?_⟩
      intro v hv _ hKey
      have hOther := List.find?_eq_none.mp hNone v hv
      obtain ⟨hSame, hSame'⟩ := Prod.mk.inj hKey
      simp [hSame, hSame', row] at hOther
    rw [hViolation]
    exact .inl ⟨hName, row, _, rfl⟩
  · have hViolation : db.valueViolation row = some dataError := by
      simp [Database.valueViolation, firstError, mt hFits.mp hName]
    rw [hViolation]
    exact .inr ⟨hName, rfl⟩

/-- `upsert` returns for a value that fits, and is rejected for any other. -/
theorem run_upsert (hDb : db.Consistent) (hPage : page ∈ db.pages) (name value : Str) :
    (ValueFits name value ∧ ∃ t, (Value.upsert page name value).run db = (.ok (), t)) ∨
      (¬ ValueFits name value ∧ Rejects (Value.upsert page name value) db) := by
  have hSave (created : Bool) {row : Value} {t : Database} (ht : t.Consistent) (hRow : row ∈ t.values)
      (hName : row.name = name) (hGet : (Session.getOrCreate .value
        (fun db => db.values.find? fun v => v.page == page.idPage && v.name == name)
        (Session.insertValue page.idPage name [])).run db = (.ok (row, created), t)) :
      (ValueFits name value ∧ ∃ u, (Value.upsert page name value).run db = (.ok (), u)) ∨
        (¬ ValueFits name value ∧ Rejects (Value.upsert page name value) db) := by
    subst hName
    rw [Value.upsert, rejects_bind_of_ok hGet, Program.run_bind_ok _ _ _ hGet]
    rcases run_saveValue ht hRow value with hDone | ⟨hWide, hRun⟩
    · exact .inl hDone
    · exact .inr ⟨hWide, (rejects_of_error hRun).mpr rfl⟩
  cases hFind : db.values.find? fun v => v.page == page.idPage && v.name == name with
  | some row =>
      have hName : row.page = page.idPage ∧ row.name = name := by simpa using List.find?_some hFind
      apply hSave false hDb (List.mem_of_find?_eq_some hFind) hName.2
      rw [Session.getOrCreate, Session.selectFrom, Program.run_select_bind, hFind]
      rfl
  | none =>
      rcases run_insertValue hDb hPage hFind with ⟨hName, row, t, hCreate⟩ | ⟨hWide, hCreate⟩
      · obtain ⟨hSame, hRowName, hValues, -⟩ := insertValue_returns hCreate
        have ht : t.Consistent :=
          (growing_consistent.createValue page.idPage name []).of_run hCreate hDb
        apply hSave true ht (hValues ▸ List.mem_append_right _ (List.mem_singleton_self _)) hRowName
        rw [Session.getOrCreate, Session.selectFrom, Program.run_select_bind, hFind]
        simp only
        rw [Program.run_attempt, Program.run_bind_ok _ _ _ hCreate]
        rfl
      · refine .inr ⟨fun h => hWide h.1, ?_⟩
        rw [Value.upsert]
        apply (rejects_bind_of_error (e := dataError) (t := db) ?_).mpr rfl
        rw [Session.getOrCreate, Session.selectFrom, Program.run_select_bind, hFind]
        simp only
        rw [Program.run_attempt, Program.run_bind_error _ _ _ hCreate]
        rfl

/-- An `upsert` is rejected exactly when its name or its text is too wide. -/
theorem rejects_upsert (hDb : db.Consistent) (hPage : page ∈ db.pages) (name value : Str) :
    Rejects (Value.upsert page name value) db ↔ ¬ ValueFits name value := by
  rcases run_upsert hDb hPage name value with ⟨hFits, t, hRun⟩ | ⟨hWide, hRejects⟩
  · exact iff_of_false (not_rejects_of_ok hRun) (not_not.mpr hFits)
  · exact iff_of_true hRejects hWide

/-- A loop of `upsert`s is rejected exactly when one of its values is too wide. -/
theorem rejects_upserts (items : Dict) (hDb : db.Consistent) (hPage : page ∈ db.pages) :
    Rejects (items.forM fun item => Value.upsert page item.1 item.2) db ↔
      ¬ ∀ item ∈ items, ValueFits item.1 item.2 := by
  induction items generalizing db with
  | nil => exact iff_of_false (not_rejects_pure ()) (by simp)
  | cons item rest ih =>
      show Rejects (Value.upsert page item.1 item.2 >>= fun _ => _) db ↔ _
      rw [List.forall_mem_cons, not_and_or]
      rcases run_upsert hDb hPage item.1 item.2 with ⟨hFits, t, hRun⟩ | ⟨hWide, hRejects⟩
      · have hSet : Upserted page.idPage item.1 item.2 db t := upsert_returns hDb hRun
        rw [rejects_bind_of_ok hRun, or_iff_right (not_not.mpr hFits)]
        exact ih hSet.consistent (hSet.pages ▸ hPage)
      · exact iff_of_true (rejects_bind.mpr (.inl hRejects)) (.inl hWide)

/-- The plugins are rejected where one of their merged answers is. -/
theorem rejects_runPlugins (plugins : List Plugin) (headers : Headers) (body : Str)
    (hDb : db.Consistent) (hPage : page ∈ db.pages) :
    Rejects (runPlugins plugins page headers body) db ↔
      ¬ ∀ item ∈ (collect page headers body plugins).1, ValueFits item.1 item.2 := by
  obtain ⟨kept, hKept, hRunEq⟩ := run_runPlugins_eq hDb plugins page headers body
  have hIn : page ∈ kept.pages := hKept.pages ▸ hPage
  rw [← rejects_upserts _ hKept.consistent hIn, Rejects, hRunEq]
  exact rejects_bind_pure fun _ => pluginsReport (collect page headers body plugins)

end Spidercheck
