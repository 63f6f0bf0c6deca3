import Spidercheck.Sites.Seeding
import Spidercheck.Sites.Isolation

/-! Resetting. `reset_site` deletes the pages of a site and adds the seed page again,
but not as `init_site` saved it: `add_page` leaves the status at its default. -/
namespace Spidercheck

open Text Url Execution Relational

variable {py : Platform} {input : Input} {db db' : Database} {site : Site} {url name : Str}

def Page.content (p : Page) : Page :=
  { p with
    idPage := 0
    createdAt := epoch
    checkedAt := epoch }

namespace Database
variable (db : Database)

def contentOf (pk : Nat) : Option Page := (db.pageById pk).map Page.content

def linkContents (site : Site) : List (Option Page × Option Page) :=
  (db.linksIn site.idSite).map fun l => (db.contentOf l.fromPage, db.contentOf l.toPage)

def valueContents (site : Site) : List (Option Page × Str × Str) :=
  (db.valuesIn site.idSite).map fun v => (db.contentOf v.page, v.name, v.value)

def scheduledContents (site : Site) : List (Option Page × Time) :=
  (db.scheduledIn site.idSite).map fun s => (db.contentOf s.page, s.rotation)

/-- The rows of the site are the same, apart from keys and timestamps. -/
structure Restored (site : Site) (before after : Database) : Prop where
  pages : ((after.pagesIn site.idSite).map Page.content).Perm
    ((before.pagesIn site.idSite).map Page.content)
  links : (after.linkContents site).Perm (before.linkContents site)
  values : (after.valueContents site).Perm (before.valueContents site)
  scheduled : (after.scheduledContents site).Perm (before.scheduledContents site)

end Database

/-- Nothing but its presence is assigned to the key of a page. -/
def presence : OpenDiscipline (Ledger Unit) := ledger (fun _ => ()) (fun _ _ => True) fun _ _ _ _ _ => rfl

theorem presence_call (call : Call) (w : Ledger Unit) :
    presence.Keeps Discipline.Any w (call.session py input) := by
  apply OpenDiscipline.call (d := presence) trivial
  · apply OpenDiscipline.follows_of_free
    exact fun _ _ _ _ _ => trivial
  · exact fun _ _ _ _ hPage => hPage

/-- No call removes a site or changes it. -/
theorem site_stays_call (hDb : db.Consistent) (hSite : site ∈ db.sites) (call : Call) :
    let db' := ((call.session py input).run db).2
    db'.Consistent ∧ site ∈ db'.sites := by
  have hStart : presence.Holds (.ofDatabase (fun _ => ()) db hDb) db :=
    Ledger.describes_ofDatabase _ hDb fun _ _ _ _ _ _ _ _ => trivial
  obtain ⟨w, hw, hEnd, -⟩ := (presence_call call _).run hStart
  exact ⟨hEnd.consistent, hEnd.sites ▸ hw.2 hSite⟩

theorem site_stays {Condition : Input → Database → Call → Prop} (hDb : db.Consistent)
    (hSite : site ∈ db.sites) (h : Call.Runs py Condition db db') : db'.Consistent ∧ site ∈ db'.sites := by
  apply h.keeps (fun db => db.Consistent ∧ site ∈ db.sites)
  · rintro input db call ⟨hDb, hSite⟩ -
    exact site_stays_call hDb hSite call
  · exact ⟨hDb, hSite⟩

theorem deletePages_site (site : Site) :
    let doomed := (db.pagesOf site).map (·.idPage)
    (db.deletePages fun p => doomed.contains p.idPage).pagesIn site.idSite = [] := by
  intro doomed
  rw [Database.pagesIn, List.filter_eq_nil_iff]
  intro p hp hSite
  obtain ⟨hStored, hKept⟩ := List.mem_filter.mp hp
  have hDoomed : doomed.contains p.idPage = true :=
    List.contains_iff_mem.mpr (List.mem_map.mpr ⟨p, List.mem_filter.mpr ⟨hStored, hSite⟩, rfl⟩)
  have hLeft : (!doomed.contains p.idPage) = true := hKept
  rw [hDoomed] at hLeft
  cases hLeft

/-- A page that `add_page` saved has the default status. -/
theorem status_of_addPage (hDb : db.Consistent) (hSite : site ∈ db.sites)
    (hNone : db.pagesIn site.idSite = []) (stamp : Nat → Time) :
    ∀ p ∈ ((site.addPage py stamp url).run db).2.pagesIn site.idSite, p.status = 0 := by
  rcases run_addPage stamp hDb hSite py url with ⟨-, e, hRun⟩ | ⟨info, -, hCases⟩
  · simp [hRun, hNone]
  · rcases hCases with ⟨found, -, hRun⟩ | ⟨-, -, hRun⟩ | ⟨-, hRun⟩
    · simp [hRun, hNone]
    · intro p hp
      rw [hRun] at hp
      obtain ⟨hMem, hOf⟩ := List.mem_filter.mp hp
      rcases List.mem_append.mp hMem with hOld | hNew
      · have hIn : p ∈ db.pagesIn site.idSite := List.mem_filter.mpr ⟨hOld, hOf⟩
        rw [hNone] at hIn
        cases hIn
      · rw [List.mem_singleton.mp hNew]
        rfl
    · simp [hRun, hNone]

/-- After a reset the pages of the site have the default status. -/
theorem status_of_reset (hDb : db.Consistent) (hSite : site ∈ db.sites) :
    ∀ p ∈ ((reset py input site).run db).2.pagesIn site.idSite, p.status = 0 := by
  let doomed := (db.pagesOf site).map (·.idPage)
  have hRun : ((reset py input site).run db).2 =
      ((site.addPage py input.stamp site.path).run
        (db.deletePages fun p => doomed.contains p.idPage)).2 := by
    rw [reset, Session.selectFrom, Program.run_select_bind]
    show ((site.addPage py input.stamp site.path >>= fun _ => pure site).run _).2 = _
    exact Program.run_bind_pure_snd _ _ _
  rw [hRun]
  exact status_of_addPage (hDb.deletePages _) hSite (deletePages_site site) input.stamp

theorem siteByName_of_mem (hDb : db.Consistent) (hSite : site ∈ db.sites) :
    db.siteByName site.name = some site := by
  cases hFind : db.siteByName site.name with
  | none =>
      have hOther := List.find?_eq_none.mp hFind site hSite
      simp at hOther
  | some found =>
      have hName : found.name = site.name := by simpa using List.find?_some hFind
      rw [hDb.siteNames.eq (List.mem_of_find?_eq_some hFind) hSite hName]

/-- After any history a reset does not restore the state that `init_site` left:
the first page comes back with another status, or not at all. -/
theorem not_restored (py : Platform) (input input' : Input) (url name : Str) (site : Site)
    (start seeded db : Database) (hStart : start.Consistent)
    (hInit : (initSite py input url name).run start = (.ok site, seeded))
    (hRuns : Call.Runs py (fun _ _ _ => True) seeded db) :
    ¬ Database.Restored site seeded ((resetSite py input' name).run db).2 := by
  obtain ⟨info, -, hNone, hSite, rfl⟩ := initSite_returns hStart hInit
  have hName : site.name = name := by rw [hSite]; rfl
  have hKey : site.idSite = start.nextSite := by rw [hSite]; rfl
  have hSeeded : (start.seeding input.stamp site).Consistent := by
    rw [hSite]
    exact hStart.seeding hNone
  have hMem : site ∈ (start.seeding input.stamp site).sites :=
    List.mem_append_right _ (List.mem_singleton_self _)
  obtain ⟨hDb, hStays⟩ := site_stays hSeeded hMem hRuns
  have hReset : (resetSite py input' name).run db = (reset py input' site).run db := by
    rw [resetSite, Session.selectFrom, Program.run_select_bind, ← hName, siteByName_of_mem hDb hStays]
  intro hRestored
  have hBefore : (start.seeding input.stamp site).pagesIn site.idSite = [start.seedOf input.stamp site] :=
    pagesOf_seeding hStart hKey
  have hContent : (start.seedOf input.stamp site).content ∈
      (((resetSite py input' name).run db).2.pagesIn site.idSite).map Page.content := by
    apply hRestored.pages.symm.subset
    rw [hBefore]
    exact List.mem_singleton_self _
  obtain ⟨p, hp, hSame⟩ := List.mem_map.mp hContent
  rw [hReset] at hp
  have hStatus : p.status = -1 := congrArg Page.status hSame
  have hDefault := status_of_reset hDb hStays p hp
  omega

/-- Even when a page was only toggled in between. -/
theorem not_restored_toggled :
    ¬ Database.Restored seedSite .seeded
      ((resetSite (.scripted []) (.scripted (.raised dataError)) "s").run
        ((Call.session (.scripted []) (.scripted (.raised dataError))
          (.operation (.toogleIsLinkable 1))).run .seeded).2).2 :=
  not_restored (.scripted []) (.scripted (.raised dataError)) (.scripted (.raised dataError)) "http://h/" "s"
    seedSite .empty .seeded _ Database.consistent_empty Database.run_initSite_seeded
    (.single ⟨_, .operation (.toogleIsLinkable 1), trivial, rfl⟩)

/-- The site of `http://h/`, reset as soon as it was created. -/
theorem not_restored_seeded :
    (initSite (.scripted []) (.scripted (.raised dataError)) "http://h/" "s").run .empty =
      (.ok seedSite, .seeded) ∧
    ¬ Database.Restored seedSite .seeded
      ((resetSite (.scripted []) (.scripted (.raised dataError)) "s").run .seeded).2 := by
  refine ⟨by rfl, fun hRestored => ?_⟩
  exact absurd hRestored.pages (by decide)

end Spidercheck
