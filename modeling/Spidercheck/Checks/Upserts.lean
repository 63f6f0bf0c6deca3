import Spidercheck.Checks.Values
import Spidercheck.Execution.Interference

/-! Values that are set at the same time. `get_or_create` looks a second time
where its row was created by another session in between, so that no `upsert` of
a value that fits fails, and any number of them end as if they had run one after
another. -/
namespace Spidercheck

open Text Execution Relational

/-- The second look of `get_or_create` may find the row that the first one missed. -/
theorem guarantees_getOrCreate {α : Type} {Others Own : Database → Database → Prop}
    {table : Table} {find : Database → Option α} {create : Session α} {s : Database}
    (Good : α → Database → Prop) (Failed : PyError → Database → Prop) {Raised : PyError → Database → Prop}
    (hFound : ∀ t, Others s t → Own t t ∧ ∀ row, find t = some row → Good row t)
    (hCreate : ∀ t, Others s t → find t = none → create.Guarantees Others Own (Ends Good Failed) t)
    (hOther : ∀ e t, Failed e t → e.kind ≠ .integrityError → Raised e t)
    (hAgain : ∀ e t u, Failed e t → e.kind = .integrityError → Others t u →
      Own u u ∧ (∀ row, find u = some row → Good row u) ∧ (find u = none → Raised e u)) :
    (Session.getOrCreate table find create).Guarantees Others Own
      (Ends (fun found => Good found.1) Raised) s := by
  have hLook : (Session.selectFrom table find).Guarantees Others Own
      (fun r t => r = .ok (find t) ∧ Others s t) s :=
    Program.guarantees_select fun t ht => ⟨(hFound t ht).1, rfl, ht⟩
  refine hLook.bind ?_ fun e t ht => by cases ht.1
  rintro found t ⟨hFind, hOthers⟩
  obtain rfl : found = find t := Except.ok.inj hFind
  cases hNone : find t with
  | some row => exact Program.guarantees_pure ((hFound t hOthers).2 row hNone)
  | none =>
      have hNew : (do return (← create, true) : Session (α × Bool)).Guarantees Others Own
          (Ends (fun found => Good found.1) Failed) t :=
        (hCreate t hOthers hNone).bind (fun _ _ hGood => Program.guarantees_pure hGood)
          fun _ _ hFailed => hFailed
      refine hNew.attempt (fun _ _ hGood => hGood) fun e u hFailed => ?_
      by_cases hKind : e.kind = .integrityError
      · rw [if_pos hKind]
        have hSecond : (Session.selectFrom table find).Guarantees Others Own
            (fun r v => ∃ found, r = .ok found ∧ (∀ row, found = some row → Good row v) ∧
              (found = none → Raised e v)) u := by
          refine Program.guarantees_select fun v hv => ?_
          obtain ⟨hOwn, hEnd⟩ := hAgain e u v hFailed hKind hv
          exact ⟨hOwn, _, rfl, hEnd⟩
        refine hSecond.bind ?_ fun e v hv => by
          obtain ⟨found, hFound, -⟩ := hv
          cases hFound
        rintro found v ⟨found, hSame, hGood, hRaised⟩
        obtain rfl := Except.ok.inj hSame
        cases found with
        | some row => exact Program.guarantees_pure (hGood row rfl)
        | none => exact Program.guarantees_raise (hRaised rfl)
      · rw [if_neg hKind]
        exact Program.guarantees_raise (hOther e u hFailed hKind)

/-- Values may have been set as somebody asked. -/
structure Revised (Asked : Nat × Str → Str → Prop) (db db' : Database) : Prop where
  consistent : db.Consistent → db'.Consistent
  pages : db'.pages = db.pages
  kept : ∀ v ∈ db.values, ∃ v' ∈ db'.values, v'.idValue = v.idValue ∧
    v'.naturalKey = v.naturalKey ∧ (v'.value = v.value ∨ Asked v.naturalKey v'.value)
  asked : ∀ v' ∈ db'.values, v' ∈ db.values ∨ ∃ x, Asked v'.naturalKey x

section Revised
variable {Asked : Nat × Str → Str → Prop} {s t u db db' : Database} {page : Page} {name value : Str}
  {row : Value}

theorem revised_reliance (Asked : Nat × Str → Str → Prop) : Reliance (Revised Asked) where
  refl s := ⟨id, rfl, fun v hv => ⟨v, hv, rfl, rfl, .inl rfl⟩, fun v hv => .inl hv⟩
  trans s t u h h' := by
    refine ⟨h'.consistent ∘ h.consistent, h'.pages.trans h.pages, fun v hv => ?_, fun v hv => ?_⟩
    · obtain ⟨v', hv', hId, hKey, hText⟩ := h.kept v hv
      obtain ⟨v'', hv'', hId', hKey', hText'⟩ := h'.kept v' hv'
      refine ⟨v'', hv'', hId'.trans hId, hKey'.trans hKey, ?_⟩
      rcases hText' with hSame | hAsked
      · rwa [hSame]
      · exact .inr (hKey ▸ hAsked)
    · rcases h'.asked v hv with hv | hAsked
      · exact h.asked v hv
      · exact .inr hAsked

/-- A row of `Value` in hand is stored, with some text. -/
def Value.Stored (row : Value) (db : Database) : Prop :=
  ∃ v ∈ db.values, v.idValue = row.idValue ∧ v.naturalKey = row.naturalKey

/-- A stored value stays stored, whatever the others set. -/
theorem Value.Stored.revised (h : row.Stored s) (hRevised : Revised Asked s t) : row.Stored t := by
  obtain ⟨v, hv, hId, hKey⟩ := h
  obtain ⟨v', hv', hId', hKey', -⟩ := hRevised.kept v hv
  exact ⟨v', hv', hId'.trans hId, hKey'.trans hKey⟩

def Value.named (page : Page) (name : Str) (db : Database) : Option Value :=
  db.values.find? fun v => v.page == page.idPage && v.name == name

theorem Value.named_eq_some (h : Value.named page name db = some row) :
    row ∈ db.values ∧ row.naturalKey = (page.idPage, name) := by
  refine ⟨List.mem_of_find?_eq_some h, ?_⟩
  have hEnds : row.page = page.idPage ∧ row.name = name := by simpa using List.find?_some h
  exact Prod.ext hEnds.1 hEnds.2

theorem Value.named_of_key (hRow : row ∈ db.values) (hKey : row.naturalKey = (page.idPage, name)) :
    ∃ found, Value.named page name db = some found := by
  obtain ⟨hPage, hName⟩ := Prod.mk.inj hKey
  refine Option.isSome_iff_exists.mp (List.find?_isSome.mpr ⟨row, hRow, ?_⟩)
  simp [hPage, hName]

/-- Only the natural key can be in the way of a new value that fits. -/
theorem insertValue_cases_of_fits (hDb : db.Consistent) (hPage : db.hasPage page.idPage = true)
    (hName : storable 64 name = true) :
    let row : Value := { idValue := db.nextValue, page := page.idPage, name := name, value := [] }
    ((∃ v ∈ db.values, v.naturalKey = row.naturalKey) ∧ db.insertValue row = (.error uniqueError, db)) ∨
      ((∀ v ∈ db.values, v.naturalKey ≠ row.naturalKey) ∧ db.insertValue row =
        (.ok row, { db with values := db.values ++ [row], nextValue := max db.nextValue (db.nextValue + 1) })) := by
  intro row
  have hFree : db.values.any (·.idValue == db.nextValue) = false := by
    rw [List.any_eq_false]
    intro v hv hEq
    have := hDb.valuesFresh v hv
    have : v.idValue = db.nextValue := by simpa using hEq
    omega
  have hFits : row.fits = true := by simpa [row, Value.fits] using hName
  have hInsert : db.insertValue row = accept (db.valueViolation row) db row
      { db with values := db.values ++ [row], nextValue := max db.nextValue (db.nextValue + 1) } := by
    show accept (if db.values.any (·.idValue == db.nextValue) then some uniqueError
      else db.valueViolation row) db row _ = _
    rw [hFree]
    rfl
  rw [hInsert]
  by_cases hTaken : ∃ v ∈ db.values, v.naturalKey = row.naturalKey
  · refine .inl ⟨hTaken, ?_⟩
    obtain ⟨v, hv, hKey⟩ := hTaken
    have hOther : v.idValue ≠ row.idValue := (hDb.valuesFresh v hv).ne
    have hClash : (db.values.any fun v => v.idValue != row.idValue && v.naturalKey == row.naturalKey) = true :=
      List.any_eq_true.mpr ⟨v, hv, by simp [hOther, hKey]⟩
    have hViolation : db.valueViolation row = some uniqueError := by
      simp only [Database.valueViolation, firstError, hFits, hClash]
      simp [row, hPage]
    rw [hViolation]
    rfl
  · have hNew : ∀ v ∈ db.values, v.naturalKey ≠ row.naturalKey := fun v hv hKey => hTaken ⟨v, hv, hKey⟩
    refine .inr ⟨hNew, ?_⟩
    rw [Database.valueViolation_eq_none.mpr
      ⟨hFits, Database.hasPage_iff.mp hPage, fun v hv _ => hNew v hv⟩]
    rfl

/-- `get_or_create` of a value ends with a stored row, whoever created it. -/
theorem guarantees_named (hDb : s.Consistent) (hPage : s.hasPage page.idPage = true)
    (hFits : ValueFits name value) (hAsked : Asked (page.idPage, name) value) :
    (Session.getOrCreate .value (Value.named page name) (Session.insertValue page.idPage name [])).Guarantees
      (Revised Asked) (Revised Asked)
      (fun r t => ∃ found, r = .ok found ∧ found.1.naturalKey = (page.idPage, name) ∧
        found.1.Stored t ∧ Revised Asked s t) s := by
  have hRely : Reliance (Revised Asked) := revised_reliance Asked
  have hPages (t : Database) (h : Revised Asked s t) : t.hasPage page.idPage = true := by
    rwa [Database.hasPage, h.pages]
  let Good (row : Value) (t : Database) : Prop :=
    row.naturalKey = (page.idPage, name) ∧ row.Stored t ∧ Revised Asked s t
  let Failed (e : PyError) (t : Database) : Prop :=
    e = uniqueError ∧ Revised Asked s t ∧ ∃ v ∈ t.values, v.naturalKey = (page.idPage, name)
  have hSound (t : Database) (ht : Revised Asked s t) (row : Value)
      (hFind : Value.named page name t = some row) : Good row t := by
    obtain ⟨hRow, hKey⟩ := Value.named_eq_some hFind
    exact ⟨hKey, ⟨row, hRow, rfl, rfl⟩, ht⟩
  have hGet : (Session.getOrCreate .value (Value.named page name)
      (Session.insertValue page.idPage name [])).Guarantees (Revised Asked) (Revised Asked)
      (Ends (fun found => Good found.1) fun _ _ => False) s := by
    refine guarantees_getOrCreate Good Failed (fun t ht => ⟨hRely.refl t, hSound t ht⟩) ?_ ?_ ?_
    · intro t ht _
      refine Program.guarantees_statement fun u hu => ?_
      have hSu : Revised Asked s u := hRely.trans s t u ht hu
      rcases insertValue_cases_of_fits (hSu.consistent hDb) (hPages u hSu) hFits.1 with
        ⟨hTaken, hInsert⟩ | ⟨hNew, hInsert⟩
      · rw [hInsert]
        exact ⟨hRely.refl u, rfl, hSu, hTaken⟩
      · have hEnd : (u.insertValue { idValue := u.nextValue, page := page.idPage, name := name, value := [] }).2.Consistent :=
          (hSu.consistent hDb).insertValue _
        rw [hInsert] at hEnd ⊢
        have hOwn : Revised Asked u { u with
            values := u.values ++ [{ idValue := u.nextValue, page := page.idPage, name := name, value := [] }]
            nextValue := max u.nextValue (u.nextValue + 1) } := by
          refine ⟨fun _ => hEnd, rfl, fun v hv => ?_, fun v hv => ?_⟩
          · exact ⟨v, List.mem_append_left _ hv, rfl, rfl, .inl rfl⟩
          · refine (List.mem_append.mp hv).imp id fun hv => ⟨value, ?_⟩
            rw [List.mem_singleton.mp hv]
            exact hAsked
        refine ⟨hOwn, rfl, ⟨_, List.mem_append_right _ (List.mem_singleton_self _), rfl, rfl⟩, ?_⟩
        exact hRely.trans s u _ hSu hOwn
    · rintro e t ⟨rfl, -⟩ hOther
      exact hOther rfl
    · -- the row that was in the way is still there
      rintro e t u ⟨-, ht, v, hv, hKey⟩ - hu
      refine ⟨hRely.refl u, hSound u (hRely.trans s t u ht hu), fun hNone => ?_⟩
      obtain ⟨v', hv', -, hKey', -⟩ := hu.kept v hv
      obtain ⟨row, hFind⟩ := Value.named_of_key hv' (hKey'.trans hKey)
      rw [hFind] at hNone
      cases hNone
  refine hGet.weaken fun r t ht => ?_
  cases r with
  | ok found => exact ⟨found, rfl, ht⟩
  | error e => exact ht.elim

/-- An `upsert` of a value that fits returns, and leaves a value that somebody
asked for under its key. -/
theorem guarantees_upsert (hDb : s.Consistent) (hPage : s.hasPage page.idPage = true)
    (hFits : ValueFits name value) (hAsked : Asked (page.idPage, name) value) :
    (Value.upsert page name value).Guarantees (Revised Asked) (Revised Asked)
      (fun r t => r = .ok () ∧ ∃ v ∈ t.values, v.naturalKey = (page.idPage, name) ∧
        Asked (page.idPage, name) v.value) s := by
  have hRely : Reliance (Revised Asked) := revised_reliance Asked
  refine (guarantees_named hDb hPage hFits hAsked).bind ?_ fun e t ht => by
    obtain ⟨found, hFound, -⟩ := ht
    cases hFound
  rintro found t ⟨found, hFound, hKey, hStored, ht⟩
  obtain rfl := Except.ok.inj hFound
  have hUpdate : (Program.statement { verb := .update, table := .value } fun db =>
      db.updateValue { found.1 with value := value } : Session Bool).Guarantees
      (Revised Asked) (Revised Asked) (fun r u => r = .ok true ∧
        ∃ v ∈ u.values, v.naturalKey = (page.idPage, name) ∧ Asked (page.idPage, name) v.value) t := by
    refine Program.guarantees_statement fun u hu => ?_
    have hSu : Revised Asked s u := hRely.trans s t u ht hu
    obtain ⟨v, hv, hId, hSame⟩ := hStored.revised hu
    have hRow : ({ found.1 with value := value } : Value) = { v with value := value } := by
      obtain ⟨hSamePage, hSameName⟩ := Prod.mk.inj hSame
      rw [Value.mk.injEq]
      exact ⟨hId.symm, hSamePage.symm, hSameName.symm, rfl⟩
    have hName : v.name = name := congrArg Prod.snd (hSame.trans hKey)
    have hTaken : u.values.any (·.idValue == v.idValue) = true :=
      List.any_eq_true.mpr ⟨v, hv, by simp⟩
    have hWidth : ({ v with value := value } : Value).fits = true :=
      valueFits_iff.mpr (by simpa [hName] using hFits)
    have hUpdated : u.updateValue { found.1 with value := value } =
        (.ok true, { u with values := replace Value.idValue { v with value := value } u.values }) := by
      rw [hRow, Database.updateValue, if_pos hTaken, valueViolation_of_stored (hSu.consistent hDb) hv,
        if_pos hWidth]
      rfl
    have hEnd := (hSu.consistent hDb).updateValue { found.1 with value := value }
    rw [hUpdated] at hEnd ⊢
    have hIn : ({ v with value := value } : Value) ∈ replace Value.idValue { v with value := value } u.values :=
      mem_replace.mpr (.inl ⟨rfl, v, hv, rfl⟩)
    have hVKey : v.naturalKey = (page.idPage, name) := hSame.trans hKey
    refine ⟨⟨fun _ => hEnd, rfl, fun other hOther => ?_, fun other hOther => ?_⟩, rfl,
      { v with value := value }, hIn, hVKey, hAsked⟩
    · by_cases hMine : other.idValue = v.idValue
      · obtain rfl : other = v := (hSu.consistent hDb).values.eq hOther hv hMine
        exact ⟨_, hIn, rfl, rfl, .inr (hVKey ▸ hAsked)⟩
      · exact ⟨other, mem_replace.mpr (.inr ⟨hOther, hMine⟩), rfl, rfl, .inl rfl⟩
    · rcases mem_replace.mp hOther with ⟨rfl, -⟩ | ⟨hOther, -⟩
      · exact .inr ⟨value, hVKey ▸ hAsked⟩
      · exact .inl hOther
  refine hUpdate.bind ?_ fun e u hu => by cases hu.1
  rintro matched u ⟨hMatched, hEnd⟩
  obtain rfl := Except.ok.inj hMatched
  exact Program.guarantees_pure ⟨rfl, hEnd⟩

/-- What an `upsert` leaves is revised only into what somebody asked for. -/
theorem steady_upsert (Asked : Nat × Str → Str → Prop) (key : Nat × Str) : Steady (Revised Asked)
    (fun r t => r = (.ok () : Except PyError Unit) ∧ ∃ v ∈ t.values, v.naturalKey = key ∧ Asked key v.value) := by
  rintro r t u ⟨rfl, v, hv, rfl, hText⟩ hu
  obtain ⟨v', hv', -, hKey, hSame | hAsked⟩ := hu.kept v hv
  · exact ⟨rfl, v', hv', hKey, hSame ▸ hText⟩
  · exact ⟨rfl, v', hv', hKey, hAsked⟩

end Revised

structure Request where
  page : Page
  name : Str
  value : Str

namespace Request

def key (r : Request) : Nat × Str := (r.page.idPage, r.name)

def session (r : Request) : Session Unit := Value.upsert r.page r.name r.value

def Admissible (r : Request) (db : Database) : Prop :=
  db.hasPage r.page.idPage = true ∧ ValueFits r.name r.value

def last (requests : List Request) (key : Nat × Str) : Option Request :=
  requests.reverse.find? (·.key == key)

theorem last_cons (r : Request) (requests : List Request) (key : Nat × Str) :
    last (r :: requests) key = (last requests key).or (if r.key = key then some r else none) := by
  rw [last, List.reverse_cons, List.find?_append, last]
  by_cases hKey : r.key = key <;> simp [hKey]

/-- The last request of two lists is that of the second one, if it has any. -/
theorem last_append (first second : List Request) (key : Nat × Str) :
    last (first ++ second) key = (last second key).or (last first key) := by
  rw [last, List.reverse_append, List.find?_append]
  rfl

theorem last_eq_some {requests : List Request} {key : Nat × Str} {r : Request}
    (h : last requests key = some r) : r ∈ requests ∧ r.key = key :=
  ⟨List.mem_reverse.mp (List.mem_of_find?_eq_some h), by simpa using List.find?_some h⟩

theorem last_eq_none {requests : List Request} {key : Nat × Str} :
    last requests key = none ↔ ∀ r ∈ requests, r.key ≠ key := by
  simp [last]

variable {db : Database}

/-- One request, with the values of all pages. -/
theorem run_session (r : Request) (hDb : db.Consistent) (h : r.Admissible db) :
    ∃ t, r.session.run db = (.ok (), t) ∧ t.Consistent ∧ t.pages = db.pages ∧
      ∀ pk n x, t.HasValue pk n x ↔
        if (pk, n) = r.key then x = r.value else db.HasValue pk n x := by
  obtain ⟨page, hPage, hId⟩ := Database.hasPage_iff.mp h.1
  have hSession : r.session = Value.upsert page r.name r.value := by
    unfold session Value.upsert
    rw [hId]
  rw [hSession, key, ← hId]
  rcases run_upsert hDb hPage r.name r.value with ⟨-, t, hRun⟩ | ⟨hWide, -⟩
  · have hSet : Upserted page.idPage r.name r.value db t := upsert_returns hDb hRun
    have hOthers := valuesElsewhere_upsert hDb hRun
    refine ⟨t, hRun, hSet.consistent, hSet.pages, fun pk n x => ?_⟩
    by_cases hMine : pk = page.idPage
    · subst hMine
      simpa using hSet.values n x
    · have hSame (d : Database) : d.HasValue pk n x ↔
          ∃ v ∈ d.valuesElsewhere page.idPage, v.page = pk ∧ v.name = n ∧ v.value = x := by
        constructor
        · rintro ⟨v, hv, rfl, hRest⟩
          exact ⟨v, List.mem_filter.mpr ⟨hv, by simpa using hMine⟩, rfl, hRest⟩
        · rintro ⟨v, hv, hRest⟩
          exact ⟨v, List.mem_of_mem_filter hv, hRest⟩
      rw [if_neg fun hKey => hMine (Prod.mk.inj hKey).1, hSame t, hSame db, hOthers]
  · exact absurd h.2 hWide

/-- The last request for a key decides. -/
theorem run_sessions (requests : List Request) (hDb : db.Consistent)
    (h : ∀ r ∈ requests, r.Admissible db) :
    ∃ t, (requests.forM session).run db = (.ok (), t) ∧ ∀ pk n x, t.HasValue pk n x ↔
      match last requests (pk, n) with
      | some r => x = r.value
      | none => db.HasValue pk n x := by
  induction requests generalizing db with
  | nil => exact ⟨db, rfl, fun _ _ _ => Iff.rfl⟩
  | cons r rest ih =>
      obtain ⟨t, hRun, ht, hPages, hValues⟩ := run_session r hDb (h r (List.mem_cons_self ..))
      obtain ⟨u, hRest, hEnd⟩ := ih ht fun r' hr' => by
        have hLater := h r' (List.mem_cons_of_mem _ hr')
        rwa [Admissible, Database.hasPage, hPages]
      refine ⟨u, (Program.run_bind_ok _ _ _ hRun).trans hRest, fun pk n x => ?_⟩
      rw [hEnd, last_cons]
      cases last rest (pk, n) with
      | some later => rfl
      | none =>
          simp only [hValues, Option.none_or]
          by_cases hKey : r.key = (pk, n)
          · simp [hKey]
          · simp [hKey, Ne.symm hKey]

end Request

section Stays
open Classical
variable {requests : List Request} {db : Database} {pk : Nat} {n x : Str} {r : Request}

noncomputable def Request.stays (db : Database) (r : Request) : Bool :=
  decide (db.HasValue r.page.idPage r.name r.value)

noncomputable def stayingLast (db : Database) (requests : List Request) : List Request :=
  requests.filter (fun r => !r.stays db) ++ requests.filter (·.stays db)

/-- The requests are only put into another order. -/
theorem perm_stayingLast : (stayingLast db requests).Perm requests := by
  have hPerm := List.filter_append_perm (fun r : Request => !r.stays db) requests
  simpa [stayingLast] using hPerm

/-- A request stays when its value is stored. -/
theorem Request.stays_iff (hKey : r.key = (pk, n)) :
    r.stays db = true ↔ db.HasValue pk n r.value := by
  obtain ⟨rfl, rfl⟩ := Prod.mk.inj hKey
  simp [Request.stays]

/-- When a request for the key has stayed, so has the last one in this order. -/
theorem hasValue_last (hr : r ∈ requests) (hKey : r.key = (pk, n)) (hStays : db.HasValue pk n r.value)
    {w : Request} (hLast : Request.last (stayingLast db requests) (pk, n) = some w) :
    db.HasValue pk n w.value := by
  cases hSome : Request.last (requests.filter (·.stays db)) (pk, n) with
  | none =>
      have hIn : r ∈ requests.filter (·.stays db) :=
        List.mem_filter.mpr ⟨hr, (Request.stays_iff hKey).mpr hStays⟩
      exact absurd hKey (Request.last_eq_none.mp hSome r hIn)
  | some staying =>
      have hIs : Request.last (stayingLast db requests) (pk, n) = some staying := by
        rw [stayingLast, Request.last_append, hSome]
        rfl
      obtain rfl : staying = w := Option.some.inj (hIs.symm.trans hLast)
      obtain ⟨hMem, hStayingKey⟩ := Request.last_eq_some hSome
      exact (Request.stays_iff hStayingKey).mp (List.mem_filter.mp hMem).2

end Stays

/-- A name that nobody asks for keeps its value. -/
theorem Revised.hasValue {Asked : Nat × Str → Str → Prop} {db db' : Database} (h : Revised Asked db db')
    {pk : Nat} {n x : Str} (hFree : ∀ y, ¬ Asked (pk, n) y) :
    db'.HasValue pk n x ↔ db.HasValue pk n x := by
  constructor
  · rintro ⟨v, hv, rfl, rfl, rfl⟩
    rcases h.asked v hv with hv | ⟨y, hy⟩
    · exact ⟨v, hv, rfl, rfl, rfl⟩
    · exact absurd hy (hFree y)
  · rintro ⟨v, hv, rfl, rfl, rfl⟩
    obtain ⟨v', hv', -, hKey, hSame | hy⟩ := h.kept v hv
    · exact ⟨v', hv', congrArg Prod.fst hKey, congrArg Prod.snd hKey, hSame⟩
    · exact absurd hy (hFree _)

/-- A page has one value of a name. -/
theorem Database.HasValue.unique {db : Database} (hDb : db.Consistent) {pk : Nat} {n x y : Str}
    (h : db.HasValue pk n x) (h' : db.HasValue pk n y) : x = y := by
  obtain ⟨v, hv, hPage, hName, rfl⟩ := h
  obtain ⟨v', hv', hPage', hName', rfl⟩ := h'
  have hKey : v.naturalKey = v'.naturalKey :=
    Prod.ext (hPage.trans hPage'.symm) (hName.trans hName'.symm)
  rw [hDb.naturalKeys.eq hv hv' hKey]

/-- The values that somebody of a list asks for. -/
def askedBy (requests : List Request) (key : Nat × Str) (x : Str) : Prop :=
  ∃ r ∈ requests, r.key = key ∧ r.value = x

/-- Sessions of a list of requests, beside each other, do what they are asked. -/
theorem together_upserts {requests : List Request} {db db' : Database}
    {rest : Fin requests.length → Session Unit} (hDb : db.Consistent)
    (hAdmissible : ∀ r ∈ requests, r.Admissible db)
    (h : Together (fun i => (requests.get i).session) db rest db') :
    Revised (askedBy requests) db db' ∧ ∀ i result, rest i = .done result → result = .ok () ∧
      ∃ v ∈ db'.values, v.naturalKey = (requests.get i).key ∧ askedBy requests (requests.get i).key v.value := by
  have hRely : Reliance (Revised (askedBy requests)) := revised_reliance _
  have hStart (i : Fin requests.length) := guarantees_upsert hDb
    (hAdmissible _ (List.get_mem requests i)).1 (hAdmissible _ (List.get_mem requests i)).2
    (show askedBy requests (requests.get i).key (requests.get i).value from
      ⟨_, List.get_mem requests i, rfl, rfl⟩)
  have hSteady (i : Fin requests.length) := steady_upsert (askedBy requests) (requests.get i).key
  refine ⟨h.relates (fun _ => hRely) hSteady (fun _ _ _ _ _ hOwn => hOwn) hStart hRely
    fun _ _ _ hOwn => hOwn, fun i result hDone => ?_⟩
  have hEnd := h.guarantees (fun _ => hRely) hSteady (fun _ _ _ _ _ hOwn => hOwn) hStart i
  rwa [hDone] at hEnd

/-- `upsert`s of values that fit, interleaved statement by statement: none of them
raises, and when all have returned the values are those of running them one after
another in some order. -/
theorem upserts_serialise (requests : List Request) {db db' : Database}
    {rest : Fin requests.length → Session Unit} (hDb : db.Consistent)
    (hAdmissible : ∀ r ∈ requests, r.Admissible db)
    (h : Together (fun i => (requests.get i).session) db rest db') :
    (∀ i r, rest i = .done r → r = .ok ()) ∧ ((∀ i, ∃ r, rest i = .done r) →
      ∃ (order : List Request) (t : Database), order.Perm requests ∧
        (order.forM Request.session).run db = (.ok (), t) ∧
        ∀ pk n x, db'.HasValue pk n x ↔ t.HasValue pk n x) := by
  obtain ⟨hTotal, hEnds⟩ := together_upserts hDb hAdmissible h
  refine ⟨fun i r hDone => (hEnds i r hDone).1, fun hAll => ?_⟩
  have hOrder : (stayingLast db' requests).Perm requests := perm_stayingLast
  obtain ⟨t, hRun, hValues⟩ := Request.run_sessions (stayingLast db' requests) hDb fun r hr =>
    hAdmissible r (hOrder.mem_iff.mp hr)
  refine ⟨_, t, hOrder, hRun, fun pk n x => ?_⟩
  rw [hValues]
  cases hLast : Request.last (stayingLast db' requests) (pk, n) with
  | none =>
      apply hTotal.hasValue
      rintro y ⟨r, hr, hKey, -⟩
      exact Request.last_eq_none.mp hLast r (hOrder.mem_iff.mpr hr) hKey
  | some w =>
      obtain ⟨hMem, hKey⟩ := Request.last_eq_some hLast
      obtain ⟨i, hi⟩ := List.get_of_mem (hOrder.mem_iff.mp hMem)
      obtain ⟨result, hDone⟩ := hAll i
      obtain ⟨-, v, hv, hVKey, r, hr, hRKey, hText⟩ := hEnds i result hDone
      rw [hi, hKey] at hVKey hRKey
      have hStored : db'.HasValue pk n r.value :=
        ⟨v, hv, congrArg Prod.fst hVKey, congrArg Prod.snd hVKey, hText.symm⟩
      have hWinner : db'.HasValue pk n w.value := hasValue_last hr hRKey hStored hLast
      constructor
      · exact fun hx => hx.unique (hTotal.consistent hDb) hWinner
      · rintro rfl
        exact hWinner

def rivals : List Request := [⟨seedPage, "title", "old"⟩, ⟨seedPage, "title", "new"⟩]

/-- Both sessions look before one of them creates the value. -/
theorem upserts_serialise_rivals : ∃ rest db',
    Together (fun i => (rivals.get i).session) .seeded rest db' ∧ (∀ i, ∃ r, rest i = .done r) ∧
    (∀ i r, rest i = .done r → r = .ok ()) ∧
    ∃ (order : List Request) (t : Database), order.Perm rivals ∧
      (order.forM Request.session).run .seeded = (.ok (), t) ∧
      ∀ pk n x, db'.HasValue pk n x ↔ t.HasValue pk n x := by
  have hStart : Together (fun i => (rivals.get i).session) Database.seeded
      (fun i => (rivals.get i).session) .seeded := .start
  have hLooks := (hStart.step (0 : Fin 2) (by rfl)).step (1 : Fin 2) (by rfl)
  obtain ⟨rest, db', hEnd, hDone⟩ := hLooks.completes
  have hAll : ∀ r ∈ rivals, r.Admissible .seeded := by
    intro r hr
    rcases List.mem_pair.mp hr with rfl | rfl
    · exact ⟨by decide, by decide, by decide⟩
    · exact ⟨by decide, by decide, by decide⟩
  obtain ⟨hOk, hSerial⟩ := upserts_serialise rivals Database.consistent_seeded hAll hEnd
  exact ⟨rest, db', hEnd, hDone, hOk, hSerial hDone⟩

end Spidercheck
