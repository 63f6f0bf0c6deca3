import Spidercheck.Checks.Rejections

/-! What `_run_plugins` does for any plugins and any earlier values. The merged
answers give each name the last value that a plugin gave it, a plugin that
raises adds nothing but its failure, and only values of the page are touched. -/
namespace Spidercheck

open Text Execution Relational

variable {db db' : Database} {page : Page} {headers : Headers} {body name value n x : Str}
  {items : Dict} {plugins : List Plugin} {plugin : Plugin}

def lastOf (items : Dict) (name : Str) : Option Str :=
  (items.reverse.find? (·.1 == name)).map (·.2)

/-- The last value of two lists is that of the second one, if it has any. -/
theorem lastOf_append (first second : Dict) (name : Str) :
    lastOf (first ++ second) name = (lastOf second name).or (lastOf first name) := by
  rw [lastOf, List.reverse_append, List.find?_append, lastOf, lastOf]
  cases second.reverse.find? (·.1 == name) <;> rfl

theorem lastOf_singleton (item : Str × Str) (name : Str) :
    lastOf [item] name = if item.1 = name then some item.2 else none := by
  by_cases hName : item.1 = name
  · simp [lastOf, hName]
  · simp [lastOf, hName]

/-- Setting a name sets that name only. -/
theorem mem_set (d : Dict) : (n, x) ∈ d.set name value ↔ if n = name then x = value else (n, x) ∈ d := by
  unfold Dict.set
  split
  · next hKnown =>
    obtain ⟨known, hMem, hName⟩ : ∃ item ∈ d, item.1 = name := by simpa using hKnown
    by_cases hSame : n = name
    · subst hSame
      rw [if_pos rfl, List.mem_map]
      constructor
      · rintro ⟨item, -, hItem⟩
        by_cases hKey : item.1 = n
        · simpa [hKey, eq_comm] using hItem
        · rw [if_neg (by simpa using hKey)] at hItem
          exact absurd (congrArg Prod.fst hItem) hKey
      · rintro rfl
        exact ⟨known, hMem, if_pos (by simpa using hName)⟩
    · rw [if_neg hSame, List.mem_map]
      constructor
      · rintro ⟨item, hItem, hEq⟩
        by_cases hKey : item.1 = name
        · rw [if_pos (by simpa using hKey)] at hEq
          exact absurd (congrArg Prod.fst hEq).symm hSame
        · rw [if_neg (by simpa using hKey)] at hEq
          exact hEq ▸ hItem
      · exact fun hItem => ⟨(n, x), hItem, if_neg (by simpa using hSame)⟩
  · next hNew =>
    have hOut : ∀ y, (name, y) ∉ d := fun y hMem => hNew (List.any_eq_true.mpr ⟨_, hMem, by simp⟩)
    by_cases hSame : n = name
    · subst hSame
      simp [hOut]
    · simp [hSame]

/-- Later items win over earlier ones, and over what was there. -/
theorem mem_update (d other : Dict) : (n, x) ∈ d.update other ↔
    lastOf other n = some x ∨ (lastOf other n = none ∧ (n, x) ∈ d) := by
  induction other using List.reverseRecOn with
  | nil => simp [Dict.update, lastOf]
  | append_singleton rest item ih =>
      have hLast : d.update (rest ++ [item]) = (d.update rest).set item.1 item.2 := by
        simp [Dict.update, List.foldl_append]
      rw [hLast, mem_set, ih, lastOf_append, lastOf_singleton]
      by_cases hName : n = item.1
      · simp [hName, eq_comm]
      · simp [hName, Ne.symm hName]

def Plugin.answer (plugin : Plugin) (page : Page) (headers : Headers) (body : Str) : Dict :=
  match plugin.process page headers body with
  | .ok (some result) => result
  | .ok none => []
  | .error _ => []

def Plugin.Raises (plugin : Plugin) (page : Page) (headers : Headers) (body : Str) : Prop :=
  ∃ e, plugin.process page headers body = .error e

/-- The value of a name after all plugins: the last one that was given to it. -/
def answered (plugins : List Plugin) (page : Page) (headers : Headers) (body name : Str) : Option Str :=
  lastOf (plugins.flatMap (·.answer page headers body)) name

theorem collect_append (plugins : List Plugin) (plugin : Plugin) :
    collect page headers body (plugins ++ [plugin]) =
      let before := collect page headers body plugins
      match plugin.process page headers body with
      | .ok (some result) => (before.1.update result, before.2)
      | .ok none => before
      | .error e => (before.1, before.2 ++ [plugin.name ++ ": " ++ e.text]) := by
  rw [collect, List.foldl_append]
  rfl

/-- A plugin more overrides the names that it answers. -/
theorem answered_append (plugins : List Plugin) (plugin : Plugin) :
    answered (plugins ++ [plugin]) page headers body n =
      (lastOf (plugin.answer page headers body) n).or (answered plugins page headers body n) := by
  rw [answered, List.flatMap_append, lastOf_append, answered]
  simp

/-- The merged answers hold the last answer for each name. -/
theorem mem_collect (plugins : List Plugin) : (n, x) ∈ (collect page headers body plugins).1 ↔
    answered plugins page headers body n = some x := by
  induction plugins using List.reverseRecOn with
  | nil => simp [collect, answered, lastOf]
  | append_singleton rest plugin ih =>
      rw [collect_append, answered_append, Plugin.answer]
      cases hAnswer : plugin.process page headers body with
      | error e => simpa [lastOf] using ih
      | ok result =>
          cases result with
          | none => simpa [lastOf] using ih
          | some result =>
              simp only
              rw [mem_update, ih]
              cases lastOf result n with
              | none => simp
              | some y => simp

/-- A failure is reported for the plugins that raise, and for no others. -/
theorem failures_eq_nil_iff (plugins : List Plugin) : (collect page headers body plugins).2 = [] ↔
    ∀ plugin ∈ plugins, ¬ plugin.Raises page headers body := by
  induction plugins using List.reverseRecOn with
  | nil => simp [collect]
  | append_singleton rest plugin ih =>
      rw [collect_append, List.forall_mem_append, List.forall_mem_singleton, ← ih, Plugin.Raises]
      cases hAnswer : plugin.process page headers body with
      | error e => simp
      | ok result => cases result <;> simp

theorem valuesElsewhere_replace {row : Value} {pk : Nat} (hDb : db.Consistent) (hRow : row ∈ db.values)
    (hPage : row.page = pk) (value : Str) :
    ({ db with values := replace Value.idValue { row with value := value } db.values }).valuesElsewhere pk =
      db.valuesElsewhere pk := by
  refine filter_replace (by simp [hPage]) fun v hv hKey => ?_
  rw [hDb.values.eq hv hRow hKey]
  simp [hPage]

/-- An `upsert` leaves the values of other pages as they are. -/
theorem valuesElsewhere_upsert (hDb : db.Consistent)
    (hRun : (Value.upsert page name value).run db = (.ok (), db')) :
    db'.valuesElsewhere page.idPage = db.valuesElsewhere page.idPage := by
  obtain ⟨⟨row, created⟩, t, hGet, hSave⟩ := (Program.run_bind_eq_ok _ _ _).mp hRun
  rcases getOrCreate_returns hGet with ⟨hFind, rfl⟩ | ⟨hFind, hCreate⟩ | ⟨hFind, hAgain, e, hCreate⟩
  · have hRow : row ∈ t.values := List.mem_of_find?_eq_some hFind
    obtain ⟨hPage, -⟩ : row.page = page.idPage ∧ row.name = name := by
      simpa using List.find?_some hFind
    rw [saveValue_returns hRow hSave]
    exact valuesElsewhere_replace hDb hRow hPage value
  · obtain ⟨hPage, -, hValues, -, -⟩ := insertValue_returns hCreate
    have hRow : row ∈ t.values := hValues ▸ List.mem_append_right _ (List.mem_singleton_self row)
    have ht : t.Consistent := (growing_consistent.createValue page.idPage name []).of_run hCreate hDb
    rw [saveValue_returns hRow hSave, valuesElsewhere_replace ht hRow hPage, Database.valuesElsewhere,
      hValues]
    exact filter_append_singleton _ (by simp [hPage])
  · -- a rejected row leaves the table as it was, without a value of that name
    have hSame : t = db := Database.accept_eq_error hCreate
    rw [hSame, hFind] at hAgain
    cases hAgain

/-- The loop returns for values that fit, and leaves the values of other pages alone. -/
theorem run_upserts (items : Dict) (hDb : db.Consistent) (hPage : page ∈ db.pages)
    (hFits : ∀ item ∈ items, ValueFits item.1 item.2) :
    ∃ t, (items.forM fun item => Value.upsert page item.1 item.2).run db = (.ok (), t) ∧
      t.valuesElsewhere page.idPage = db.valuesElsewhere page.idPage := by
  induction items generalizing db with
  | nil => exact ⟨db, rfl, rfl⟩
  | cons item rest ih =>
      obtain ⟨hFirst, hRest⟩ := List.forall_mem_cons.mp hFits
      rcases run_upsert hDb hPage item.1 item.2 with ⟨-, t, hRun⟩ | ⟨hWide, -⟩
      · have hSet : Upserted page.idPage item.1 item.2 db t := upsert_returns hDb hRun
        obtain ⟨u, hLoop, hElse⟩ := ih hSet.consistent (hSet.pages ▸ hPage) hRest
        refine ⟨u, ?_, hElse.trans (valuesElsewhere_upsert hDb hRun)⟩
        show (Value.upsert page item.1 item.2 >>= fun _ => _).run db = _
        rw [Program.run_bind_ok _ _ _ hRun]
        exact hLoop
      · exact absurd hFirst hWide

/-- What a run of the plugins leaves and returns. -/
structure ValuesExact (db db' : Database) (page : Page) (headers : Headers) (body : Str)
    (plugins : List Plugin) (result : Result Dict) : Prop where
  values : ∀ n x, db'.HasValue page.idPage n x ↔ answered plugins page headers body n = some x
  once : Keyed Value.naturalKey db'.values
  others : db'.valuesElsewhere page.idPage = db.valuesElsewhere page.idPage
  failure : result.isFailure = true ↔ ∃ plugin ∈ plugins, plugin.Raises page headers body
  success : (∀ plugin ∈ plugins, ¬ plugin.Raises page headers body) → ∃ merged, result = .success merged ∧
    (merged.map (·.1)).Nodup ∧ ∀ n x, (n, x) ∈ merged ↔ answered plugins page headers body n = some x

/-- The plugins run to their end when all their values fit. -/
theorem run_runPlugins (hDb : db.Consistent) (hPage : page ∈ db.pages)
    (hFits : ∀ item ∈ (collect page headers body plugins).1, ValueFits item.1 item.2) :
    ∃ t, (runPlugins plugins page headers body).run db =
        (.ok (pluginsReport (collect page headers body plugins)), t) ∧
      t.valuesElsewhere page.idPage = db.valuesElsewhere page.idPage := by
  obtain ⟨kept, hKept, hRunEq⟩ := run_runPlugins_eq hDb plugins page headers body
  obtain ⟨t, hLoop, hOthers⟩ := run_upserts _ hKept.consistent (hKept.pages ▸ hPage) hFits
  refine ⟨t, ?_, hOthers.trans hKept.others⟩
  rw [hRunEq, Program.run_bind_ok _ _ _ hLoop]
  rfl

/-- For any plugins and any earlier values of the page, when all merged values fit
their columns. -/
theorem runPlugins_exact (db : Database) (page : Page) (headers : Headers) (body : Str)
    (plugins : List Plugin) (hDb : db.Consistent) (hPage : page ∈ db.pages)
    (hFits : ∀ n x, answered plugins page headers body n = some x → ValueFits n x) :
    ∃ result db', (runPlugins plugins page headers body).run db = (.ok result, db') ∧
      ValuesExact db db' page headers body plugins result := by
  have hItems : ∀ item ∈ (collect page headers body plugins).1, ValueFits item.1 item.2 :=
    fun item hItem => hFits item.1 item.2 ((mem_collect plugins).mp hItem)
  obtain ⟨db', hRun, hOthers⟩ := run_runPlugins hDb hPage hItems
  obtain ⟨-, -, hValues⟩ := runPlugins_returns hDb hRun
  have hEnd : db'.Consistent := (growing_consistent.runPlugins plugins page headers body).of_run hRun hDb
  have hRaised : (collect page headers body plugins).2 ≠ [] ↔
      ∃ plugin ∈ plugins, plugin.Raises page headers body := by
    rw [Ne, failures_eq_nil_iff]
    push Not
    exact Iff.rfl
  refine ⟨_, db', hRun, ?_⟩
  constructor
  · intro n x
    rw [hValues, mem_collect]
  · exact hEnd.naturalKeys
  · exact hOthers
  · rw [← hRaised, pluginsReport]
    split
    · next hSome => exact iff_of_true rfl hSome
    · next hNone => exact iff_of_false Bool.false_ne_true hNone
  · intro hQuiet
    refine ⟨(collect page headers body plugins).1, if_neg ?_, nodup_collect page headers body plugins, ?_⟩
    · exact not_not.mpr ((failures_eq_nil_iff plugins).mpr hQuiet)
    · exact fun n x => mem_collect plugins

def titles : List Plugin :=
  [{ name := "a", process := fun _ _ _ => .ok (some [("title", "old")]) },
    { name := "b", process := fun _ _ _ => .error dataError },
    { name := "c", process := fun _ _ _ => .ok (some [("title", "new"), ("version", "1")]) }]

theorem runPlugins_exact_titles :
    ∃ result db', (runPlugins titles seedPage [] []).run .seeded = (.ok result, db') ∧
      ValuesExact .seeded db' seedPage [] [] titles result := by
  refine runPlugins_exact .seeded seedPage [] [] titles Database.consistent_seeded (by decide) ?_
  intro n x hAnswer
  have hMerged : (collect seedPage [] [] titles).1 =
      [("title".toList, "new".toList), ("version".toList, "1".toList)] := by rfl
  have hItem := (mem_collect titles).mpr hAnswer
  rw [hMerged, List.mem_pair] at hItem
  rcases hItem with hItem | hItem
  · obtain ⟨rfl, rfl⟩ := Prod.mk.inj hItem
    exact ⟨by decide, by decide⟩
  · obtain ⟨rfl, rfl⟩ := Prod.mk.inj hItem
    exact ⟨by decide, by decide⟩

end Spidercheck
