import Spidercheck.Model.Integrity

/-! What `_run_plugins` leaves: the values of the page are the merged answers of
the plugins, one value for each name, and nothing that was there before. -/
namespace Spidercheck

open Text Execution Relational

variable {db db' : Database} {page : Page} {pk : Nat} {name value : Str}

section Answers

theorem names_set (d : Dict) (name value : Str) :
    (d.set name value).map (·.1) =
      if d.any (·.1 == name) then d.map (·.1) else d.map (·.1) ++ [name] := by
  unfold Dict.set
  split
  · rw [List.map_map]
    apply List.map_congr_left
    intro item _
    by_cases hName : item.1 = name <;> simp [hName]
  · simp

/-- Setting a name keeps the names of a dictionary distinct. -/
theorem nodup_set {d : Dict} (h : (d.map (·.1)).Nodup) (name value : Str) :
    ((d.set name value).map (·.1)).Nodup := by
  rw [names_set]
  split
  · exact h
  · next hNew =>
    have hOut : name ∉ d.map (·.1) := by simpa using hNew
    exact List.nodup_append.mpr ⟨h, List.nodup_singleton _, by
      rintro a ha b hb rfl
      exact hOut (List.mem_singleton.mp hb ▸ ha)⟩

theorem nodup_update {d : Dict} (h : (d.map (·.1)).Nodup) (other : Dict) :
    ((d.update other).map (·.1)).Nodup :=
  List.foldlRecOn (motive := fun acc : Dict => (acc.map (·.1)).Nodup) other _ h
    fun _ hAcc item _ => nodup_set hAcc item.1 item.2

/-- The merged answers have one value for each name. -/
theorem nodup_collect (page : Page) (headers : Headers) (body : Str) (plugins : List Plugin) :
    ((collect page headers body plugins).1.map (·.1)).Nodup := by
  apply List.foldlRecOn (motive := fun acc : Dict × List Str => (acc.1.map (·.1)).Nodup) plugins
  · exact List.nodup_nil
  · intro acc hAcc plugin _
    split
    · exact nodup_update hAcc _
    · exact hAcc
    · exact hAcc

end Answers

def Database.HasValue (db : Database) (pk : Nat) (name value : Str) : Prop :=
  ∃ v ∈ db.values, v.page = pk ∧ v.name = name ∧ v.value = value

/-- A returned row was found, or it was created, or it was found after a lost race. -/
theorem getOrCreate_returns {α : Type} {table : Table} {find : Database → Option α} {create : Session α}
    {row : α} {created : Bool}
    (hRun : (Session.getOrCreate table find create).run db = (.ok (row, created), db')) :
    (find db = some row ∧ db' = db) ∨ (find db = none ∧ create.run db = (.ok row, db')) ∨
      (find db = none ∧ find db' = some row ∧ ∃ e, create.run db = (.error e, db')) := by
  rw [Session.getOrCreate, Session.selectFrom, Program.run_select_bind] at hRun
  cases hFind : find db with
  | some found =>
      simp only [hFind] at hRun
      obtain ⟨⟨rfl, -⟩, rfl⟩ : (found = row ∧ _) ∧ db = db' := by simpa using hRun
      exact .inl ⟨rfl, rfl⟩
  | none =>
      simp only [hFind] at hRun
      rw [Program.run_attempt, Program.run_bind] at hRun
      rcases hCreate : create.run db with ⟨e | new, t⟩
      · simp only [hCreate] at hRun
        split at hRun
        · rw [Program.run_select_bind] at hRun
          cases hAgain : find t with
          | some found =>
              simp only [hAgain] at hRun
              obtain ⟨⟨rfl, -⟩, rfl⟩ : (found = row ∧ _) ∧ t = db' := by simpa using hRun
              exact .inr (.inr ⟨rfl, hAgain, e, rfl⟩)
          | none => simp [hAgain] at hRun
        · simp at hRun
      · simp only [hCreate, Program.run_pure] at hRun
        obtain ⟨⟨rfl, -⟩, rfl⟩ : (new = row ∧ _) ∧ t = db' := by simpa using hRun
        exact .inr (.inl ⟨rfl, rfl⟩)

/-- Saving a stored value under a new text. -/
theorem saveValue_returns {row : Value} (hRow : row ∈ db.values) {saved : Unit}
    (hRun : (Session.saveValue { row with value := value }).run db = (.ok saved, db')) :
    db' = { db with values := replace Value.idValue { row with value := value } db.values } := by
  have hTaken : db.values.any (·.idValue == row.idValue) = true :=
    List.any_eq_true.mpr ⟨row, hRow, by simp⟩
  rw [Session.saveValue, Program.run_bind, Program.run_statement, Database.updateValue, if_pos hTaken] at hRun
  cases hViolation : db.valueViolation { row with value := value } with
  | some e => simp [hViolation, accept] at hRun
  | none =>
      simp only [hViolation, accept] at hRun
      exact (Prod.mk.inj hRun).2.symm

/-- The names of the values of a page, with their texts. -/
theorem hasValue_replace (hDb : db.Consistent) {row : Value} (hRow : row ∈ db.values) (n x : Str) :
    Database.HasValue
        { db with values := replace Value.idValue { row with value := value } db.values } row.page n x ↔
      if n = row.name then x = value else db.HasValue row.page n x := by
  let new : Value := { row with value := value }
  by_cases hName : n = row.name
  · rw [if_pos hName]
    constructor
    · rintro ⟨v, hv, hPage, hSame, hText⟩
      rcases mem_replace.mp hv with ⟨rfl, -⟩ | ⟨hv, hOther⟩
      · exact hText.symm
      · have hKey : v.naturalKey = row.naturalKey := Prod.ext hPage (hSame.trans hName)
        exact absurd (congrArg Value.idValue (hDb.naturalKeys.eq hv hRow hKey)) hOther
    · rintro rfl
      exact ⟨new, mem_replace.mpr (.inl ⟨rfl, row, hRow, rfl⟩), rfl, hName.symm, rfl⟩
  · rw [if_neg hName]
    constructor
    · rintro ⟨v, hv, hPage, hSame, hText⟩
      rcases mem_replace.mp hv with ⟨rfl, -⟩ | ⟨hv, -⟩
      · exact absurd hSame.symm hName
      · exact ⟨v, hv, hPage, hSame, hText⟩
    · rintro ⟨v, hv, hPage, hSame, hText⟩
      refine ⟨v, mem_replace.mpr (.inr ⟨hv, ?_⟩), hPage, hSame, hText⟩
      intro hKey
      rw [hDb.values.eq hv hRow hKey] at hSame
      exact hName hSame.symm

/-- A created value is a new row without text. -/
theorem insertValue_returns {row : Value}
    (hRun : (Session.insertValue pk name []).run db = (.ok row, db')) :
    row.page = pk ∧ row.name = name ∧ db'.values = db.values ++ [row] ∧ db'.links = db.links ∧
      db'.pages = db.pages := by
  obtain ⟨rfl, -, rfl⟩ := Database.accept_eq_ok hRun
  exact ⟨rfl, rfl, rfl, rfl, rfl⟩

/-- A database in which one value of the page was set. -/
structure Upserted (pk : Nat) (name value : Str) (db db' : Database) : Prop where
  consistent : db'.Consistent
  pages : db'.pages = db.pages
  links : db'.links = db.links
  values : ∀ n x, db'.HasValue pk n x ↔ if n = name then x = value else db.HasValue pk n x

/-- What an `upsert` has done when it returns. -/
theorem upsert_returns (hDb : db.Consistent)
    (hRun : (Value.upsert page name value).run db = (.ok (), db')) :
    Upserted page.idPage name value db db' := by
  obtain ⟨⟨row, created⟩, t, hGet, hSave⟩ := (Program.run_bind_eq_ok _ _ _).mp hRun
  have hEnd : db'.Consistent := (growing_consistent.upsert page name value).of_run hRun hDb
  rcases getOrCreate_returns hGet with ⟨hFind, rfl⟩ | ⟨hFind, hCreate⟩ | ⟨hFind, hAgain, e, hCreate⟩
  · have hRow : row ∈ t.values := List.mem_of_find?_eq_some hFind
    obtain ⟨hPage, hName⟩ : row.page = page.idPage ∧ row.name = name := by
      simpa using List.find?_some hFind
    obtain rfl := saveValue_returns hRow hSave
    refine ⟨hEnd, rfl, rfl, ?_⟩
    intro n x
    rw [← hPage, hasValue_replace hDb hRow, hName]
  · obtain ⟨hPage, hName, hValues, hLinks, hPages⟩ := insertValue_returns hCreate
    have hRow : row ∈ t.values := hValues ▸ List.mem_append_right _ (List.mem_singleton_self row)
    have hMiddle : t.Consistent :=
      (growing_consistent.createValue page.idPage name []).of_run hCreate hDb
    obtain rfl := saveValue_returns hRow hSave
    refine ⟨hEnd, hPages, hLinks, ?_⟩
    intro n x
    rw [← hPage, hasValue_replace hMiddle hRow, hName]
    by_cases hOther : n = name
    · rw [if_pos hOther, if_pos hOther]
    · rw [if_neg hOther, if_neg hOther, Database.HasValue, Database.HasValue, hValues]
      constructor
      · rintro ⟨v, hv, hSame⟩
        rcases List.mem_append.mp hv with hv | hv
        · exact ⟨v, hv, hSame⟩
        · rw [List.mem_singleton.mp hv] at hSame
          exact absurd (hSame.2.1.symm.trans hName) hOther
      · rintro ⟨v, hv, hSame⟩
        exact ⟨v, List.mem_append_left _ hv, hSame⟩
  · -- a rejected row leaves the table as it was, without a value of that name
    have hSame : t = db := Database.accept_eq_error hCreate
    rw [hSame, hFind] at hAgain
    cases hAgain

/-- The loop sets the values of its items and leaves the others. -/
theorem upserts_return (items : Dict) (hNames : (items.map (·.1)).Nodup) (hDb : db.Consistent)
    (hRun : (items.forM fun item => Value.upsert page item.1 item.2).run db = (.ok (), db')) :
    db'.pages = db.pages ∧ db'.links = db.links ∧ ∀ n x, db'.HasValue page.idPage n x ↔
      (n, x) ∈ items ∨ (n ∉ items.map (·.1) ∧ db.HasValue page.idPage n x) := by
  induction items generalizing db with
  | nil =>
      obtain rfl : db = db' := (Prod.mk.inj hRun).2
      exact ⟨rfl, rfl, by simp⟩
  | cons item rest ih =>
      obtain ⟨hNew, hRest⟩ := List.nodup_cons.mp hNames
      obtain ⟨⟨⟩, t, hFirst, hLoop⟩ := (Program.run_bind_eq_ok _ _ _).mp hRun
      have hSet : Upserted page.idPage item.1 item.2 db t := upsert_returns hDb hFirst
      obtain ⟨hPages, hLinks, hValues⟩ := ih hRest hSet.consistent hLoop
      refine ⟨hPages.trans hSet.pages, hLinks.trans hSet.links, ?_⟩
      intro n x
      rw [hValues, hSet.values]
      obtain ⟨name, value⟩ := item
      by_cases hName : n = name
      · subst hName
        have hOut : (n, x) ∉ rest := fun hIn => hNew (List.mem_map.mpr ⟨(n, x), hIn, rfl⟩)
        simp [hOut, hNew]
      · simp [hName]

def Database.valuesElsewhere (db : Database) (pk : Nat) : List Value :=
  db.values.filter (·.page != pk)

/-- A database without the values of the page that the answers do not name. -/
structure Trimmed (pk : Nat) (items : Dict) (db kept : Database) : Prop where
  consistent : kept.Consistent
  pages : kept.pages = db.pages
  links : kept.links = db.links
  named : ∀ n x, kept.HasValue pk n x → n ∈ items.map (·.1)
  others : kept.valuesElsewhere pk = db.valuesElsewhere pk

def vanished (db : Database) (pk : Nat) (items : Dict) : List Str :=
  ((db.values.filter (·.page == pk)).map (·.name)).filter fun name => !items.any (·.1 == name)

/-- A value that is not removed has a name that the answers have. -/
theorem named_of_not_vanished {items : Dict} {v : Value} (hv : v ∈ db.values) (hPage : v.page = pk)
    (hKept : v.name ∉ vanished db pk items) : v.name ∈ items.map (·.1) := by
  have hOld : v.name ∈ (db.values.filter (·.page == pk)).map (·.name) :=
    List.mem_map.mpr ⟨v, List.mem_filter.mpr ⟨hv, by simpa using hPage⟩, rfl⟩
  by_contra hOut
  apply hKept
  refine List.mem_filter.mpr ⟨hOld, ?_⟩
  simp only [Bool.not_eq_true', List.any_eq_false, beq_iff_eq]
  intro item hItem hName
  exact hOut (List.mem_map.mpr ⟨item, hItem, hName⟩)

/-- The deletion of the vanished names trims the database. -/
theorem Database.Consistent.trimmed_delete (hDb : db.Consistent) (items : Dict) :
    Trimmed pk items db { db with values := db.values.filter fun v =>
      !(v.page == pk && (vanished db pk items).contains v.name) } where
  consistent := hDb.deleteValues _
  pages := rfl
  links := rfl
  named := by
    rintro n x ⟨v, hv, hPage, rfl, -⟩
    obtain ⟨hv, hKept⟩ := List.mem_filter.mp hv
    rw [hPage, beq_self_eq_true, Bool.true_and] at hKept
    apply named_of_not_vanished hv hPage
    intro hRemoved
    rw [List.contains_iff_mem.mpr hRemoved] at hKept
    cases hKept
  others := by
    -- only values of the page are deleted
    refine filter_filter_of fun v _ hOther => ?_
    have hNe : (v.page == pk) = false := by simpa using hOther
    simp [hNe]

theorem Database.Consistent.trimmed_self (hDb : db.Consistent) {items : Dict}
    (hNone : vanished db pk items = []) : Trimmed pk items db db where
  consistent := hDb
  pages := rfl
  links := rfl
  named := by
    rintro n x ⟨v, hv, hPage, rfl, -⟩
    exact named_of_not_vanished hv hPage (hNone ▸ List.not_mem_nil)
  others := rfl

def pluginsReport (collected : Dict × List Str) : Result Dict :=
  if collected.2 ≠ [] then .fail ("Error al ejecutar los plug-ins:\n" ++ joinFailures collected.2)
  else .success collected.1

/-- A run of the plugins is the loop over their answers from a trimmed database. -/
theorem run_runPlugins_eq (hDb : db.Consistent) (plugins : List Plugin) (page : Page) (headers : Headers)
    (body : Str) : ∃ kept, Trimmed page.idPage (collect page headers body plugins).1 db kept ∧
      (runPlugins plugins page headers body).run db =
        (((collect page headers body plugins).1.forM fun item => Value.upsert page item.1 item.2) >>=
          fun _ => pure (pluginsReport (collect page headers body plugins)) :
            Session (Result Dict)).run kept := by
  have hReport : (pure (pluginsReport (collect page headers body plugins)) : Session (Result Dict)) =
      if (collect page headers body plugins).2 ≠ [] then
        pure (.fail ("Error al ejecutar los plug-ins:\n" ++ joinFailures (collect page headers body plugins).2))
      else pure (.success (collect page headers body plugins).1) := by
    rw [pluginsReport]
    split <;> rfl
  rw [hReport]
  simp only [runPlugins, Session.selectFrom, Program.run_select_bind]
  split
  · exact ⟨_, hDb.trimmed_delete _, Program.run_bind_ok _ _ _ (by rfl)⟩
  · next hNone => exact ⟨db, hDb.trimmed_self (not_not.mp hNone), rfl⟩

/-- A run of the plugins that returns leaves their answers and no other values. -/
theorem runPlugins_returns (hDb : db.Consistent) {plugins : List Plugin} {headers : Headers} {body : Str}
    {phase : Result Dict}
    (hRun : (runPlugins plugins page headers body).run db = (.ok phase, db')) :
    db'.pages = db.pages ∧ db'.links = db.links ∧ ∀ n x, db'.HasValue page.idPage n x ↔
      (n, x) ∈ (collect page headers body plugins).1 := by
  obtain ⟨kept, hKept, hRunEq⟩ := run_runPlugins_eq hDb plugins page headers body
  rw [hRunEq] at hRun
  obtain ⟨⟨⟩, t, hLoop, hEnd⟩ := (Program.run_bind_eq_ok _ _ _).mp hRun
  obtain rfl := (Prod.mk.inj hEnd).2
  obtain ⟨hPages, hLinks, hValues⟩ :=
    upserts_return _ (nodup_collect page headers body plugins) hKept.consistent hLoop
  refine ⟨hPages.trans hKept.pages, hLinks.trans hKept.links, ?_⟩
  intro n x
  rw [hValues]
  constructor
  · rintro (hIn | ⟨hOut, hOld⟩)
    · exact hIn
    · exact absurd (hKept.named n x hOld) hOut
  · exact .inl

end Spidercheck
