import Spidercheck.Model.Saving

/-! What every procedure maintains. A property of the database is growing when
each statement keeps it that never changes or deletes a page, provided that the
pages that are inserted are of a given kind; it is stable when the statements on
pages keep it too, provided that the rows have an allowed address. Whole
procedures then keep it, and their only obligation is about the rows they write. -/
namespace Spidercheck

open Text Url Execution Relational

abbrev Address := Nat × Str × Str

structure Growing (Inv : Database → Prop) (Inserts : Page → Prop) : Prop where
  insertPage : ∀ db stamp pk row, Inv db → Inserts { row with idPage := pk, createdAt := stamp pk } →
    Inv (db.insertPage stamp pk row).2
  insertLink : ∀ db fromPage toPage, Inv db → Inv (db.insertLink fromPage toPage).2
  insertValue : ∀ db row, Inv db → Inv (db.insertValue row).2
  updateValue : ∀ db row, Inv db → Inv (db.updateValue row).2
  deleteLinks : ∀ db doomed, Inv db → Inv (db.deleteLinks doomed)
  deleteValues : ∀ db doomed, Inv db → Inv (db.deleteValues doomed)

structure Stable (Inv : Database → Prop) (Allowed : Address → Prop) : Prop
    extends Growing Inv fun row => Allowed row.fullPath where
  updatePage : ∀ db row, Inv db → Allowed row.fullPath → Inv (db.updatePage row).2
  deletePages : ∀ db doomed, Inv db → Inv (db.deletePages doomed)

section Instances
variable {Inv Inv' : Database → Prop} {Allowed Allowed' : Address → Prop}

/-- The constraints are kept by every statement. -/
theorem stable_consistent : Stable Database.Consistent Allowed where
  insertPage _ stamp pk row h _ := h.insertPage stamp pk row
  updatePage _ row h _ := h.updatePage row
  insertLink _ fromPage toPage h := h.insertLink fromPage toPage
  insertValue _ row h := h.insertValue row
  updateValue _ row h := h.updateValue row
  deletePages _ doomed h := h.deletePages doomed
  deleteLinks _ doomed h := h.deleteLinks doomed
  deleteValues _ doomed h := h.deleteValues doomed

/-- No address is excepted. -/
theorem stable_consistent_all : Stable Database.Consistent fun _ => True :=
  stable_consistent

theorem growing_consistent : Growing Database.Consistent fun _ => True :=
  stable_consistent_all.toGrowing

/-- Two stable invariants together are stable. -/
theorem Stable.and (h : Stable Inv Allowed) (h' : Stable Inv' Allowed) :
    Stable (fun db => Inv db ∧ Inv' db) Allowed where
  insertPage db stamp pk row hInv hRow :=
    ⟨h.insertPage db stamp pk row hInv.1 hRow, h'.insertPage db stamp pk row hInv.2 hRow⟩
  updatePage db row hInv hRow := ⟨h.updatePage db row hInv.1 hRow, h'.updatePage db row hInv.2 hRow⟩
  insertLink db a b hInv := ⟨h.insertLink db a b hInv.1, h'.insertLink db a b hInv.2⟩
  insertValue db row hInv := ⟨h.insertValue db row hInv.1, h'.insertValue db row hInv.2⟩
  updateValue db row hInv := ⟨h.updateValue db row hInv.1, h'.updateValue db row hInv.2⟩
  deletePages db d hInv := ⟨h.deletePages db d hInv.1, h'.deletePages db d hInv.2⟩
  deleteLinks db d hInv := ⟨h.deleteLinks db d hInv.1, h'.deleteLinks db d hInv.2⟩
  deleteValues db d hInv := ⟨h.deleteValues db d hInv.1, h'.deleteValues db d hInv.2⟩

/-- The sites are written by `init_site` only. -/
theorem stable_sites (sites : List Site) : Stable (fun db => db.sites = sites) Allowed where
  insertPage _ _ _ _ h _ := Database.accept_preserves (·.sites = sites) h fun _ => h
  updatePage _ _ h _ := by
    unfold Database.updatePage
    split
    · exact Database.accept_preserves (·.sites = sites) h fun _ => h
    · exact h
  insertLink _ a b h := (Database.samePages_insertLink a b).sites.trans h
  insertValue _ row h := (Database.samePages_insertValue row).sites.trans h
  updateValue _ row h := (Database.samePages_updateValue row).sites.trans h
  deletePages _ _ h := h
  deleteLinks _ _ h := h
  deleteValues _ _ h := h

def Database.Addressed (Allowed : Address → Prop) (db : Database) : Prop :=
  ∀ p ∈ db.pages, Allowed p.fullPath

/-- Addresses stay allowed when only allowed ones are written. -/
theorem stable_addressed : Stable (Database.Addressed Allowed) Allowed where
  insertPage db stamp pk row h hRow := by
    intro p hp
    rcases Database.mem_pages_insertPage hp with hp | rfl
    · exact h p hp
    · exact hRow
  updatePage db row h hRow := by
    intro p hp
    rcases Database.mem_pages_updatePage hp with hp | rfl
    · exact h p hp
    · exact hRow
  insertLink _ a b h := fun p hp => h p ((Database.samePages_insertLink a b).pages ▸ hp)
  insertValue _ row h := fun p hp => h p ((Database.samePages_insertValue row).pages ▸ hp)
  updateValue _ row h := fun p hp => h p ((Database.samePages_updateValue row).pages ▸ hp)
  deletePages _ _ h := fun p hp => h p (List.mem_of_mem_filter hp)
  deleteLinks _ _ h := h
  deleteValues _ _ h := h

end Instances

theorem unpack_ioFailure (e : PyError) : ∃ e', (ioFailure e >>= TextResult.unpack) = .error e' := by
  unfold ioFailure
  split
  · exact ⟨_, rfl⟩
  · exact ⟨e, rfl⟩

/-- A text comes from the answer to the `GET` request. -/
theorem get_of_text {py : Platform} {get : GetOutcome} {url : Str} {text : Headers × Str}
    (h : (getTextFromUrl py get url >>= TextResult.unpack) = .ok text) :
    ∃ headers, get = .response headers (.ok text.2) := by
  have hFail (e : PyError) : (ioFailure e >>= TextResult.unpack) ≠ .ok text := by
    obtain ⟨e', hError⟩ := unpack_ioFailure e
    simp [hError]
  unfold getTextFromUrl at h
  split at h
  · exact absurd h (hFail _)
  · exact absurd h (hFail _)
  · exact absurd h (hFail _)
  · next headers body _ =>
      refine ⟨headers, ?_⟩
      split at h
      · simp only [ok_bind, TextResult.unpack, Except.ok.injEq] at h
        rw [← h]
      · simp only [ok_bind, TextResult.unpack, Except.ok.injEq] at h
        rw [← h]

section Select
variable {Inv : Database → Prop} {α : Type}

theorem maintains_selectFrom (table : Table) (f : Database → α) :
    (Session.selectFrom table f).Maintains Inv :=
  Program.maintains_select _ f

theorem maintains_siteOf (page : Page) : (siteOf page).Maintains Inv := by
  refine (maintains_selectFrom _ _).bind fun found => ?_
  cases found with
  | some site => exact Program.maintains_pure _
  | none => exact Program.maintains_raise _

end Select

namespace Growing
variable {Inv : Database → Prop} {Inserts : Page → Prop} {α : Type}

open Program

theorem saveValue (h : Growing Inv Inserts) (row : Value) :
    (Session.saveValue row).Maintains Inv := by
  refine (maintains_statement _ _ fun db hDb => h.updateValue db row hDb).bind fun matched => ?_
  cases matched with
  | true => exact maintains_pure _
  | false =>
      exact (maintains_statement _ _ fun db hDb => h.insertValue db row hDb).bind
        fun _ => maintains_pure _

theorem getOrCreate (table : Table) (find : Database → Option α) {create : Session α}
    (hCreate : create.Maintains Inv) : (Session.getOrCreate table find create).Maintains Inv := by
  refine (maintains_selectFrom table find).bind fun found => ?_
  cases found with
  | some row => exact maintains_pure _
  | none =>
      refine (hCreate.bind fun _ => maintains_pure _).attempt fun e => ?_
      split
      · refine (maintains_selectFrom table find).bind fun found => ?_
        cases found with
        | some row => exact maintains_pure _
        | none => exact maintains_raise _
      · exact maintains_raise _

theorem loadOrCreate (h : Growing Inv Inserts) (site : Site) (stamp : Nat → Time)
    {subpath params : Str} (hNew : ∀ pk, Inserts (site.newRow stamp subpath params pk)) :
    (site.loadOrCreate stamp subpath params).Maintains Inv := by
  refine (maintains_selectFrom _ _).bind fun found => ?_
  cases found with
  | some page => exact maintains_pure _
  | none =>
      refine Maintains.bind ?_ fun _ => maintains_pure _
      exact maintains_statement _ _ fun db hDb => h.insertPage db stamp _ _ hDb (hNew _)

/-- `add_page` writes at most the address of the URL that it was given. -/
theorem addPage (h : Growing Inv Inserts) (site : Site) (py : Platform) (stamp : Nat → Time)
    {url : Str} (hNew : ∀ info, urlparse py.netlocCheck url [] = some info →
      ∀ pk, Inserts (site.newRow stamp info.path info.query pk)) :
    (site.addPage py stamp url).Maintains Inv := by
  unfold Site.addPage
  cases hParse : urlparse py.netlocCheck url [] with
  | none => trivial
  | some info => exact h.loadOrCreate site stamp (hNew info hParse)

theorem addLink (h : Growing Inv Inserts) (site : Site) (page : Page) (py : Platform)
    (stamp : Nat → Time) (acc : Finset Nat) {url : Str}
    (hNew : ∀ info, urlparse py.netlocCheck url [] = some info →
      ∀ pk, Inserts (site.newRow stamp info.path info.query pk)) :
    (Spidercheck.addLink py stamp site page acc url).Maintains Inv := by
  refine (h.addPage site py stamp hNew).bind fun found => ?_
  obtain ⟨target, created⟩ := found
  simp only
  split
  · exact (getOrCreate _ _ (maintains_statement _ _ fun db hDb => h.insertLink db _ _ hDb)).bind
      fun _ => maintains_pure _
  · exact maintains_pure _

/-- A loop that only inserts allowed pages keeps the invariant. -/
theorem syncLinks (h : Growing Inv Inserts) (site : Site) (page : Page) (py : Platform)
    (stamp : Nat → Time) (links : Generator Str)
    (hNew : ∀ url ∈ links.yielded, ∀ info, urlparse py.netlocCheck url [] = some info →
      ∀ pk, Inserts (site.newRow stamp info.path info.query pk)) :
    (Spidercheck.syncLinks py stamp site page links).Maintains Inv := by
  refine (maintains_selectFrom _ _).bind fun before => ?_
  refine (maintains_foldlM links.yielded
    (fun acc url hUrl => h.addLink site page py stamp acc (hNew url hUrl)) ∅).bind fun after => ?_
  cases links.raised with
  | some e => exact maintains_raise _
  | none =>
      simp only
      split
      · exact (maintains_statement _ _ fun db hDb => h.deleteLinks db _ hDb).bind
          fun _ => maintains_pure _
      · exact maintains_pure _

theorem forM {Item : Type} (items : List Item) {body : Item → Session Unit}
    (h : ∀ item ∈ items, (body item).Maintains Inv) : (items.forM body).Maintains Inv := by
  induction items with
  | nil => exact maintains_pure _
  | cons item rest ih =>
      exact (h item (List.mem_cons_self ..)).bind fun _ =>
        ih fun other hOther => h other (List.mem_cons_of_mem _ hOther)

theorem createValue (h : Growing Inv Inserts) (pk : Nat) (name value : Str) :
    (Session.insertValue pk name value).Maintains Inv :=
  maintains_statement _ _ fun db hDb => h.insertValue db _ hDb

theorem upsert (h : Growing Inv Inserts) (page : Page) (name value : Str) :
    (Value.upsert page name value).Maintains Inv :=
  (getOrCreate _ _ (h.createValue page.idPage name [])).bind
    fun found => h.saveValue { found.1 with value := value }

theorem runPlugins (h : Growing Inv Inserts) (plugins : List Plugin) (page : Page)
    (headers : Headers) (body : Str) :
    (Spidercheck.runPlugins plugins page headers body).Maintains Inv := by
  refine (maintains_selectFrom _ _).bind fun before => ?_
  have hUpserts : ((collect page headers body plugins).1.forM fun item =>
      Value.upsert page item.1 item.2).Maintains Inv :=
    forM _ fun item _ => h.upsert page item.1 item.2
  simp only
  split
  · refine (maintains_statement _ _ fun db hDb => h.deleteValues db _ hDb).bind fun _ => ?_
    refine hUpserts.bind fun _ => ?_
    split <;> exact maintains_pure _
  · refine hUpserts.bind fun _ => ?_
    split <;> exact maintains_pure _

theorem updateLinks (h : Growing Inv Inserts) (py : Platform) (input : Input) (site : Site)
    (page : Page) (body : Str)
    (hNew : ∀ url ∈ (page.getAllValidLinks py site input.robots body).yielded,
      ∀ info, urlparse py.netlocCheck url [] = some info →
        ∀ pk, Inserts (site.newRow input.stamp info.path info.query pk)) :
    (Spidercheck.updateLinks py input site page body).Maintains Inv :=
  h.syncLinks site page py input.stamp _ hNew

end Growing

namespace Stable
variable {Inv : Database → Prop} {Allowed : Address → Prop}

open Program

theorem saveRow (h : Stable Inv Allowed) (stamp : Nat → Time) (row : Page)
    (hRow : Allowed row.fullPath) : (Session.savePage stamp row).Maintains Inv := by
  refine (maintains_statement _ _ fun db hDb => h.updatePage db row hDb hRow).bind fun matched => ?_
  cases matched with
  | true => exact maintains_pure _
  | false =>
      exact (maintains_statement _ _ fun db hDb => h.insertPage db stamp _ row hDb hRow).bind
        fun _ => maintains_pure _

theorem checkBody (h : Stable Inv Allowed) (py : Platform) (input : Input) (page : Page)
    (site : Site) (url : Str) (headers : Headers) (body : Str) (hPage : Allowed page.fullPath)
    (hNew : ∀ url ∈ (page.getAllValidLinks py site input.robots body).yielded,
      ∀ info, urlparse py.netlocCheck url [] = some info →
        Allowed (site.idSite, info.path, info.query)) :
    (Spidercheck.checkBody py input page site url headers body).Maintains Inv := by
  unfold Spidercheck.checkBody
  split
  · refine (h.updateLinks py input site page body fun url hUrl info hInfo _ =>
      hNew url hUrl info hInfo).bind fun changes => ?_
    exact (h.runPlugins input.plugins page headers body).bind fun _ => maintains_pure _
  · refine Maintains.bind ?_ fun _ => maintains_pure _
    exact h.saveRow input.stamp _ hPage

/-- A check writes the address of its page, and those of the links in the body. -/
theorem checkResponse (h : Stable Inv Allowed) (py : Platform) (input : Input) (page : Page)
    (site : Site) (url : Str) (value : Payload) (hPage : Allowed page.fullPath)
    (hNew : ∀ headers body, input.get = .response headers (.ok body) →
      ∀ found ∈ (page.getAllValidLinks py site input.robots body).yielded,
      ∀ info, urlparse py.netlocCheck found [] = some info →
        Allowed (site.idSite, info.path, info.query)) :
    (Spidercheck.checkResponse py input page site url value).Maintains Inv := by
  refine (maintains_liftExcept _).bind fun response => ?_
  refine (maintains_liftExcept _).bind fun sizeBytes => ?_
  refine (h.saveRow input.stamp (page.answered input response sizeBytes) hPage).bind fun _ => ?_
  split
  · refine (maintains_liftExcept _).bind fun isLocal => ?_
    split
    · refine maintains_liftExcept_bind fun text hText => ?_
      obtain ⟨answered, hGet⟩ := get_of_text hText
      refine h.checkBody py input _ site url text.1 text.2 hPage fun found hFound => ?_
      have hLinks : (page.answered input response sizeBytes).getAllValidLinks py site input.robots
          text.2 = page.getAllValidLinks py site input.robots text.2 :=
        Page.getAllValidLinks_congr py site (by rfl) (by rfl) _ _
      exact hNew answered text.2 hGet found (hLinks ▸ hFound)
    · exact (maintains_statement _ _ fun db hDb => h.deleteLinks db _ hDb).bind
        fun _ => maintains_pure _
  · exact maintains_pure _

theorem checkFailure (h : Stable Inv Allowed) (input : Input) (page : Page) (url message : Str)
    (code : Option Int) (hPage : Allowed page.fullPath) :
    (Spidercheck.checkFailure input page url message code).Maintains Inv := by
  refine (maintains_liftExcept _).bind fun status => ?_
  refine Maintains.bind ?_ fun _ => maintains_pure _
  exact h.saveRow input.stamp _ hPage

/-- A check keeps the invariant, if the pages of the links are allowed. -/
theorem checkAnswer (h : Stable Inv Allowed) (py : Platform) (input : Input) (page : Page)
    (site : Site) (url : Str) (answer : Result Payload) (hPage : Allowed page.fullPath)
    (hNew : ∀ headers body, input.get = .response headers (.ok body) →
      ∀ found ∈ (page.getAllValidLinks py site input.robots body).yielded,
      ∀ info, urlparse py.netlocCheck found [] = some info →
        Allowed (site.idSite, info.path, info.query)) :
    (Spidercheck.checkAnswer py input page site url answer).Maintains Inv := by
  cases answer with
  | failure message code => exact h.checkFailure input page url message code hPage
  | success value => exact h.checkResponse py input page site url value hPage hNew

theorem toogle (h : Stable Inv Allowed) (stamp : Nat → Time) (page : Page)
    (hPage : Allowed page.fullPath) : (Spidercheck.toogle stamp page).Maintains Inv := by
  unfold Spidercheck.toogle
  simp only
  split
  · refine (maintains_statement _ _ fun db hDb => h.deleteLinks db _ hDb).bind fun _ => ?_
    exact h.saveRow stamp _ hPage
  · exact h.saveRow stamp _ hPage

theorem deletePage (h : Stable Inv Allowed) (page : Page) :
    (Spidercheck.deletePage page).Maintains Inv :=
  maintains_statement _ _ fun db hDb => h.deletePages db _ hDb

theorem delete (h : Stable Inv Allowed) (page : Page) : (Spidercheck.delete page).Maintains Inv := by
  refine (maintains_selectFrom _ _).bind fun deletable => ?_
  cases deletable with
  | false => exact maintains_raise _
  | true => exact (maintains_siteOf page).bind fun _ => h.deletePage page

theorem expungePage (h : Stable Inv Allowed) (py : Platform) (acc : Site × Nat × List Str) (page : Page) :
    (Spidercheck.expungePage py acc page).Maintains Inv := by
  refine (maintains_siteOf page).bind fun site => (maintains_selectFrom _ _).bind fun deletable => ?_
  cases deletable with
  | false => exact maintains_liftExcept_bind fun _ _ => maintains_pure _
  | true => exact (h.deletePage page).bind fun _ => maintains_pure _

theorem siteExpunge (h : Stable Inv Allowed) (py : Platform) (site : Site) (idPages : List Nat) :
    (Spidercheck.siteExpunge py site idPages).Maintains Inv := by
  refine (maintains_selectFrom _ _).bind fun pages => ?_
  refine (maintains_foldlM pages (fun acc page _ => h.expungePage py acc page) _).bind fun _ => ?_
  exact maintains_pure _

/-- `reset_site` writes the address of the seed. -/
theorem reset (h : Stable Inv Allowed) (py : Platform) (input : Input) (site : Site)
    (hNew : ∀ info, urlparse py.netlocCheck site.path [] = some info →
      Allowed (site.idSite, info.path, info.query)) :
    (Spidercheck.reset py input site).Maintains Inv := by
  refine (maintains_selectFrom _ _).bind fun doomed => ?_
  refine (maintains_statement _ _ fun db hDb => h.deletePages db _ hDb).bind fun _ => ?_
  exact (h.addPage site py input.stamp fun info hInfo _ => hNew info hInfo).bind fun _ => maintains_pure _

end Stable

/-- `add_page` keeps the constraints and the sites. -/
theorem addPage_keeps (py : Platform) (stamp : Nat → Time) (site : Site) (url : Str) {db : Database}
    (h : db.Consistent) : ((site.addPage py stamp url).run db).2.Consistent ∧
      ((site.addPage py stamp url).run db).2.sites = db.sites := by
  have hStable : Stable (fun s => s.Consistent ∧ s.sites = db.sites) fun _ => True :=
    stable_consistent.and (stable_sites db.sites)
  exact (hStable.addPage site py stamp fun _ _ _ => trivial).run ⟨h, rfl⟩

end Spidercheck
