import Spidercheck.Graph.Pruning
import Spidercheck.Model.Saving

/-! Expunging pages of a site. The loop of `site_expunge` is one pass over the
graph of links: each deletion takes the links of its page along, and a page is
deleted when no links lead to it any more at its turn. -/
namespace Spidercheck

open Text Execution Relational Graph

variable {db db' : Database} {site : Site} {page : Page} {idPages : List Nat} {order : List Page}
  {gone : Set Nat} {l : Link}

namespace Database

def Linked (db : Database) (u v : Nat) : Prop := ∃ l ∈ db.links, l.fromTo = (u, v)

open Classical in
noncomputable def without (db : Database) (gone : Set Nat) : Database :=
  db.deletePages fun p => p.idPage ∈ gone

/-- Two deletions are one. -/
theorem deletePages_deletePages (db : Database) (first second : Page → Bool) :
    (db.deletePages first).deletePages second = db.deletePages fun p => first p || second p := by
  have hGone (pk : Nat) : (db.pages.any fun p => (first p || second p) && p.idPage == pk) =
      ((db.pages.any fun p => first p && p.idPage == pk) ||
        (db.pages.filter (!first ·)).any fun p => second p && p.idPage == pk) := by
    induction db.pages with
    | nil => rfl
    | cons p rest ih =>
        cases hFirst : first p with
        | true => simp [hFirst, ih, Bool.or_assoc]
        | false =>
            simp only [List.any_cons, ih, hFirst, List.filter_cons, Bool.false_or, Bool.false_and,
              Bool.not_false, if_true]
            exact Bool.or_left_comm ..
  simp only [deletePages, List.filter_filter, hGone, Bool.not_or]
  congr 1
  · exact List.filter_congr fun p _ => Bool.and_comm ..
  · refine List.filter_congr fun l _ => ?_
    simp only [Bool.and_assoc, Bool.and_comm, Bool.and_left_comm]
  · exact List.filter_congr fun v _ => Bool.and_comm ..
  · exact List.filter_congr fun s _ => Bool.and_comm ..

theorem without_empty (db : Database) : db.without ∅ = db := by
  have hNone : (db.pages.any fun _ => false) = false := by simp
  simp [without, deletePages, hNone]

/-- One more page goes. -/
theorem deletePages_without (db : Database) (gone : Set Nat) (pk : Nat) :
    (db.without gone).deletePages (·.idPage == pk) = db.without (insert pk gone) := by
  rw [without, deletePages_deletePages, without]
  refine congrArg db.deletePages (funext fun p => ?_)
  apply Bool.eq_iff_iff.mpr
  simp only [Bool.or_eq_true, decide_eq_true_eq, beq_iff_eq, Set.mem_insert_iff]
  exact or_comm

theorem mem_pages_without : page ∈ (db.without gone).pages ↔ page ∈ db.pages ∧ page.idPage ∉ gone := by
  simp [without, deletePages]

/-- The links between the pages that are left. -/
theorem Consistent.mem_links_without (hDb : db.Consistent) :
    l ∈ (db.without gone).links ↔ l ∈ db.links ∧ l.fromPage ∉ gone ∧ l.toPage ∉ gone := by
  have hGone {pk : Nat} (hPage : ∃ p ∈ db.pages, p.idPage = pk) :
      (∀ p ∈ db.pages, p.idPage ∈ gone → p.idPage ≠ pk) ↔ pk ∉ gone := by
    obtain ⟨p, hp, rfl⟩ := hPage
    constructor
    · exact fun h hGone => h p hp hGone rfl
    · rintro h q - hGone hEq
      exact h (hEq ▸ hGone)
  simp only [without, Database.deletePages, List.mem_filter, Bool.and_eq_true, Bool.not_eq_true',
    List.any_eq_false, decide_eq_true_eq, beq_iff_eq, not_and]
  refine and_congr_right fun hl => ?_
  rw [hGone (hDb.linkFrom l hl), hGone (hDb.linkTo l hl)]

theorem canBeDeleted_iff : db.canBeDeleted page = true ↔ ∀ l ∈ db.links, l.toPage ≠ page.idPage := by
  simp [canBeDeleted, List.countP_eq_zero]

/-- A page that is left can be deleted when all links to it start at pages that are gone. -/
theorem Consistent.canBeDeleted_without (hDb : db.Consistent) (hLeft : page.idPage ∉ gone) :
    (db.without gone).canBeDeleted page = true ↔ Bare db.Linked gone page.idPage := by
  rw [canBeDeleted_iff]
  constructor
  · rintro hNone u ⟨l, hl, hEnds⟩
    obtain ⟨rfl, hTo⟩ : l.fromPage = u ∧ l.toPage = page.idPage := Prod.mk.inj hEnds
    by_contra hFrom
    exact hNone l (hDb.mem_links_without.mpr ⟨hl, hFrom, hTo ▸ hLeft⟩) hTo
  · intro hBare l hl hTo
    obtain ⟨hl, hFrom, -⟩ := hDb.mem_links_without.mp hl
    exact hFrom (hBare l.fromPage ⟨l, hl, Prod.ext rfl hTo⟩)

end Database

theorem siteById_without {pk : Nat} : (db.without gone).siteById pk = db.siteById pk := rfl

/-- Formatting the page raises, as its URL cannot be built. -/
def Page.Raises (py : Platform) (db : Database) (page : Page) (e : PyError) : Prop :=
  ∃ site, db.siteById page.site = some site ∧ page.getFullUrl py site = .error e

section Turn

variable (py : Platform) (acc : Site × Nat × List Str)

/-- A page to which only pages that are gone link is deleted at its turn. -/
theorem run_expungePage_of_bare (hDb : db.Consistent) (hSite : db.siteById page.site = some site)
    (hLeft : page.idPage ∉ gone) (hBare : Bare db.Linked gone page.idPage) :
    (expungePage py acc page).run (db.without gone) =
      (.ok (site, acc.2.1 + 1, acc.2.2), db.without (insert page.idPage gone)) := by
  have hLoad : (siteOf page).run (db.without gone) = (.ok site, db.without gone) := run_siteOf hSite
  have hCan : (db.without gone).canBeDeleted page = true := (hDb.canBeDeleted_without hLeft).mpr hBare
  rw [expungePage, Program.run_bind_ok _ _ _ hLoad, Session.selectFrom, Program.run_select_bind, hCan,
    ← Database.deletePages_without]
  rfl

/-- Another page is kept, and the user is told so. -/
theorem run_expungePage_of_not_bare (hDb : db.Consistent) (hSite : db.siteById page.site = some site)
    (hLeft : page.idPage ∉ gone) (hLinked : ¬ Bare db.Linked gone page.idPage) :
    (expungePage py acc page).run (db.without gone) =
      ((expungeError py site page).map fun message => (site, acc.2.1, acc.2.2 ++ [message]),
        db.without gone) := by
  have hLoad : (siteOf page).run (db.without gone) = (.ok site, db.without gone) := run_siteOf hSite
  have hCan : (db.without gone).canBeDeleted page = false := by
    rw [← Bool.not_eq_true, hDb.canBeDeleted_without hLeft]
    exact hLinked
  rw [expungePage, Program.run_bind_ok _ _ _ hLoad, Session.selectFrom, Program.run_select_bind, hCan]
  cases expungeError py site page with
  | ok message => rfl
  | error e => rfl

theorem expungeError_eq_error {py : Platform} {e : PyError} :
    expungeError py site page = .error e ↔ page.getFullUrl py site = .error e := by
  cases h : page.getFullUrl py site <;> simp [expungeError, h]

end Turn

/-- The pages through which a walk from one database to another comes, with what it
returns or raises. It stops at a page that is kept there and cannot be formatted. -/
inductive Walk (py : Platform) (db' : Database) {Returned : Type} :
    List Page → Except PyError Returned → List Page → Prop where
  | whole (order : List Page) (value : Returned) : Walk py db' order (.ok value) order
  | stopped (walked : List Page) (page : Page) (rest : List Page) (e : PyError)
      (hStored : page ∈ db'.pages) (hKept : db'.canBeDeleted page = false) (hRaises : page.Raises py db' e) :
      Walk py db' (walked ++ page :: rest) (.error e) walked

namespace Walk

variable {py : Platform} {Returned : Type} {r : Except PyError Returned} {walked : List Page}

theorem cons (h : Walk py db' order r walked) (page : Page) :
    Walk py db' (page :: order) r (page :: walked) := by
  cases h with
  | whole order value => exact .whole _ value
  | stopped walked kept rest e hStored hKept hRaises =>
      exact .stopped (page :: walked) kept rest e hStored hKept hRaises

theorem isPrefix (h : Walk py db' order r walked) : walked <+: order := by
  cases h with
  | whole order value => exact List.prefix_refl _
  | stopped walked page rest e hStored hKept hRaises => exact List.prefix_append _ _

/-- Where every page can be formatted, a walk comes to its end. -/
theorem eq_of_not_raises (h : Walk py db' order r walked)
    (hNone : ∀ p ∈ order, ∀ e, ¬ p.Raises py db' e) : walked = order := by
  cases h with
  | whole order value => rfl
  | stopped walked page rest e hStored hKept hRaises =>
      exact absurd hRaises (hNone page (List.mem_append_right _ (List.mem_cons_self ..)) e)

end Walk

/-- The loop of `site_expunge` is a pass over the keys of the pages through which it
comes. The induction is on the pages that are still to have their turn. -/
theorem walk_foldlM (py : Platform) (hDb : db.Consistent) (hStored : ∀ p ∈ order, p ∈ db.pages)
    (hKeys : (order.map (·.idPage)).Nodup) (hLeft : ∀ p ∈ order, p.idPage ∉ gone)
    (acc : Site × Nat × List Str) :
    let ended := (order.foldlM (expungePage py) acc).run (db.without gone)
    ∃ walked, Walk py ended.2 order ended.1 walked ∧
      ended.2 = db.without (prune db.Linked gone (walked.map (·.idPage))) ∧
      ∃ value, (walked.foldlM (expungePage py) acc).run (db.without gone) = (.ok value, ended.2) := by
  induction order generalizing gone acc with
  | nil => exact ⟨[], .whole _ _, rfl, acc, rfl⟩
  | cons page rest ih =>
      obtain ⟨hNew, hRest⟩ := List.nodup_cons.mp hKeys
      obtain ⟨hPage, hOthers⟩ := List.forall_mem_cons.mp hStored
      obtain ⟨hHere, hLater⟩ := List.forall_mem_cons.mp hLeft
      obtain ⟨site, -, hSite⟩ := hDb.siteById hPage
      simp only [List.foldlM_cons]
      by_cases hBare : Bare db.Linked gone page.idPage
      · have hTurn := run_expungePage_of_bare py acc hDb hSite hHere hBare
        rw [Program.run_bind_ok _ _ _ hTurn]
        have hLater' : ∀ p ∈ rest, p.idPage ∉ insert page.idPage gone := fun p hp hIn =>
          hIn.elim (fun hSame => hNew (List.mem_map.mpr ⟨p, hp, hSame⟩)) (hLater p hp)
        obtain ⟨walked, hWalk, hEnd, value, hRun⟩ := ih hOthers hRest hLater' (site, acc.2.1 + 1, acc.2.2)
        refine ⟨page :: walked, hWalk.cons page, ?_, value, ?_⟩
        · rw [List.map_cons, prune_of_bare hBare]
          exact hEnd
        · rw [List.foldlM_cons, Program.run_bind_ok _ _ _ hTurn]
          exact hRun
      · have hTurn := run_expungePage_of_not_bare py acc hDb hSite hHere hBare
        cases hMessage : expungeError py site page with
        | error e =>
            rw [hMessage] at hTurn
            rw [Program.run_bind_error _ _ _ hTurn]
            refine ⟨[], ?_, rfl, acc, rfl⟩
            apply Walk.stopped [] page rest e (Database.mem_pages_without.mpr ⟨hPage, hHere⟩)
            · rw [← Bool.not_eq_true, hDb.canBeDeleted_without hHere]
              exact hBare
            · exact ⟨site, hSite, expungeError_eq_error.mp hMessage⟩
        | ok message =>
            rw [hMessage] at hTurn
            rw [Program.run_bind_ok _ _ _ hTurn]
            obtain ⟨walked, hWalk, hEnd, value, hRun⟩ :=
              ih hOthers hRest hLater (site, acc.2.1, acc.2.2 ++ [message])
            refine ⟨page :: walked, hWalk.cons page, ?_, value, ?_⟩
            · rw [List.map_cons, prune_of_not_bare hBare]
              exact hEnd
            · rw [List.foldlM_cons, Program.run_bind_ok _ _ _ hTurn]
              exact hRun

theorem mem_selected : page ∈ db.selected site idPages ↔
    page ∈ db.pages ∧ page.site = site.idSite ∧ page.idPage ∈ idPages := by
  simp [Database.selected, Database.pagesOf, and_assoc, and_comm]

/-- The loop over the selected pages, in any order. -/
theorem walk_expunge (py : Platform) (hDb : db.Consistent) (hOrder : order.Perm (db.selected site idPages)) :
    let ended := (expunge py site order).run db
    (order.map (·.idPage)).Nodup ∧ ∃ walked, Walk py ended.2 order ended.1 walked ∧
      ended.2 = db.without (prune db.Linked ∅ (walked.map (·.idPage))) ∧
      ∃ value, (expunge py site walked).run db = (.ok value, ended.2) := by
  have hKeys : (order.map (·.idPage)).Nodup := by
    refine (List.Perm.nodup_iff ((hOrder.trans (List.perm_insertionSort _ _)).map _)).mpr ?_
    exact (hDb.pages.filter _).filter _
  have hStored : ∀ p ∈ order, p ∈ db.pages := fun p hp => (mem_selected.mp (hOrder.subset hp)).1
  have hNone : ∀ p ∈ order, p.idPage ∉ (∅ : Set Nat) := fun p _ => Set.notMem_empty p.idPage
  have hWalk := walk_foldlM py hDb hStored hKeys hNone (site, 0, [])
  rw [Database.without_empty] at hWalk
  exact ⟨hKeys, hWalk⟩

/-- `site_expunge` leaves what its loop leaves, and makes its messages of what that returns. -/
theorem run_siteExpunge (py : Platform) (db : Database) (site : Site) (idPages : List Nat) :
    let ended := (expunge py site (db.selected site idPages)).run db
    (siteExpunge py site idPages).run db =
      (ended.1.map fun value => (expungeSuccess value.1 value.2.1, value.2.2), ended.2) := by
  simp only
  rw [siteExpunge, Session.selectFrom, Program.run_select_bind, Program.run_bind]
  split
  · next h => rw [h]; rfl
  · next h => rw [h]; rfl

/-- Only selected pages of the site were removed, and a link whose source is left
is left together with its target. -/
structure Undamaged (site : Site) (idPages : List Nat) (db db' : Database) : Prop where
  removed : ∀ p ∈ db.pages, p ∉ db'.pages → p.site = site.idSite ∧ p.idPage ∈ idPages
  links : ∀ l ∈ db.links, (∃ p ∈ db'.pages, p.idPage = l.fromPage) →
    l ∈ db'.links ∧ ∃ q ∈ db'.pages, q.idPage = l.toPage

/-- `site_expunge` walks through the selected pages, and in whatever order it does
and wherever it stops, what is left is undamaged. -/
theorem expunge_undamaged (py : Platform) (db : Database) (site : Site) (idPages : List Nat)
    (hDb : db.Consistent) :
    ((siteExpunge py site idPages).run db).2 = ((expunge py site (db.selected site idPages)).run db).2 ∧
      ∀ order : List Page, order.Perm (db.selected site idPages) →
        Undamaged site idPages db ((expunge py site order).run db).2 := by
  refine ⟨congrArg Prod.snd (run_siteExpunge py db site idPages), fun order hOrder => ?_⟩
  obtain ⟨-, walked, hWalk, hEnd, -⟩ := walk_expunge py hDb hOrder
  rw [hEnd]
  let gone : Set Nat := prune db.Linked ∅ (walked.map (·.idPage))
  have hClosed : Closed db.Linked gone := closed_empty.prune
  constructor
  · intro p hp hGone
    have hMem : p.idPage ∈ gone := by
      by_contra hLeft
      exact hGone (Database.mem_pages_without.mpr ⟨hp, hLeft⟩)
    rcases mem_of_prune hMem with hEmpty | hMem
    · exact absurd hEmpty (Set.notMem_empty p.idPage)
    · obtain ⟨q, hq, hKey⟩ := List.mem_map.mp hMem
      obtain ⟨hStored, hOf, hId⟩ := mem_selected.mp (hOrder.subset (hWalk.isPrefix.subset hq))
      rw [← hDb.pages.eq hStored hp hKey]
      exact ⟨hOf, hId⟩
  · rintro l hl ⟨p, hp, hFrom⟩
    obtain ⟨-, hLeft⟩ := Database.mem_pages_without.mp hp
    rw [hFrom] at hLeft
    -- a target that is gone would have taken its sources along
    have hTarget : l.toPage ∉ gone :=
      fun hGone => hLeft (hClosed l.toPage hGone l.fromPage ⟨l, hl, rfl⟩)
    obtain ⟨q, hq, hTo⟩ := hDb.linkTo l hl
    exact ⟨hDb.mem_links_without.mpr ⟨hl, hLeft, hTarget⟩, q,
      Database.mem_pages_without.mpr ⟨hq, hTo ▸ hTarget⟩, hTo⟩

def Database.chained : Database :=
  { seeded with
    pages := [seedPage, { Page.new 1 "/b" [] with idPage := 2, createdAt := 2 }]
    links := [{ idLink := 1, fromPage := 2, toPage := 1 }]
    nextPage := 3
    nextLink := 2 }

theorem Database.consistent_chained : Database.chained.Consistent := by
  constructor <;> simp [chained, seeded, empty, Keyed, seedSite, seedPage, Page.new, Page.fullPath]
  decide

theorem expunge_undamaged_chained :
    ((siteExpunge (.scripted []) seedSite [2, 7, 2]).run .chained).2 =
        ((expunge (.scripted []) seedSite (Database.chained.selected seedSite [2, 7, 2])).run .chained).2 ∧
      ∀ order : List Page, order.Perm (Database.chained.selected seedSite [2, 7, 2]) →
        Undamaged seedSite [2, 7, 2] .chained ((expunge (.scripted []) seedSite order).run .chained).2 :=
  expunge_undamaged (.scripted []) .chained seedSite [2, 7, 2] Database.consistent_chained

def NothingDeletable (order : List Page) (db : Database) : Prop :=
  ∀ p ∈ order, p ∈ db.pages → db.canBeDeleted p = false

/-- What a pass leaves, in terms of the graph. -/
theorem nothingDeletable_without (hDb : db.Consistent) (hStored : ∀ p ∈ order, p ∈ db.pages) :
    NothingDeletable order (db.without gone) ↔ Cleared db.Linked (order.map (·.idPage)) gone := by
  have hPage {p : Page} (hLeft : p.idPage ∉ gone) :
      (db.without gone).canBeDeleted p = false ↔ ∃ u, db.Linked u p.idPage ∧ u ∉ gone := by
    rw [← Bool.not_eq_true, hDb.canBeDeleted_without hLeft]
    simp [Bare]
  constructor
  · intro hNone v hv hLeft
    obtain ⟨p, hp, rfl⟩ := List.mem_map.mp hv
    exact (hPage hLeft).mp (hNone p hp (Database.mem_pages_without.mpr ⟨hStored p hp, hLeft⟩))
  · intro hCleared p hp hIn
    obtain ⟨-, hLeft⟩ := Database.mem_pages_without.mp hIn
    exact (hPage hLeft).mpr (hCleared p.idPage (List.mem_map.mpr ⟨p, hp, rfl⟩) hLeft)

/-- What a whole walk through the selected pages leaves, by the links to the orphaned ones. -/
theorem clears_without (hDb : db.Consistent) (hKeys : (order.map (·.idPage)).Nodup)
    (hOrder : order.Perm (db.selected site idPages)) :
    let db' := db.without (prune db.Linked ∅ (order.map (·.idPage)))
    (NothingDeletable order db' ↔ ∀ l ∈ db.links, Orphaned db.Linked (order.map (·.idPage)) l.toPage →
      Before (order.map (·.idPage)) l.fromPage l.toPage) ∧
    (NothingDeletable order db' → ∀ p ∈ db.pages, p ∉ db'.pages ↔
      Orphaned db.Linked ((db.selected site idPages).map (·.idPage)) p.idPage) := by
  have hStored : ∀ p ∈ order, p ∈ db.pages := fun p hp => (mem_selected.mp (hOrder.subset hp)).1
  have hLinks : (∀ u v, db.Linked u v → Orphaned db.Linked (order.map (·.idPage)) v →
        Before (order.map (·.idPage)) u v) ↔
      ∀ l ∈ db.links, Orphaned db.Linked (order.map (·.idPage)) l.toPage →
        Before (order.map (·.idPage)) l.fromPage l.toPage := by
    constructor
    · exact fun h l hl => h l.fromPage l.toPage ⟨l, hl, rfl⟩
    · rintro h u v ⟨l, hl, hEnds⟩
      obtain ⟨rfl, rfl⟩ : l.fromPage = u ∧ l.toPage = v := Prod.mk.inj hEnds
      exact h l hl
  simp only
  rw [nothingDeletable_without hDb hStored, cleared_prune_iff hKeys, hLinks]
  refine ⟨Iff.rfl, fun hBefore p hp => ?_⟩
  have hGone := prune_eq_orphaned hKeys (hLinks.mpr hBefore)
  rw [Database.mem_pages_without, hGone, Set.mem_ofPred_eq]
  have hSame : Orphaned db.Linked (order.map (·.idPage)) p.idPage ↔
      Orphaned db.Linked ((db.selected site idPages).map (·.idPage)) p.idPage :=
    ⟨fun h => h.mono (hOrder.map _).subset, fun h => h.mono (hOrder.map _).symm.subset⟩
  rw [hSame]
  simp [hp]

/-- After a walk through the selected pages each of them that is left has an
incoming link exactly when every link to an orphaned page comes from a page with
an earlier turn. Then the pages that were removed are the orphaned ones, whatever
the order. A walk that stops has come to a page that it keeps and cannot format,
and it leaves what a walk through the pages before that one leaves. -/
theorem expunge_clears_iff (py : Platform) (db : Database) (site : Site) (idPages : List Nat)
    (hDb : db.Consistent) :
    ((siteExpunge py site idPages).run db).2 = ((expunge py site (db.selected site idPages)).run db).2 ∧
      ∀ order : List Page, order.Perm (db.selected site idPages) →
        let ended := (expunge py site order).run db
        let keys := order.map (·.idPage)
        (∀ value, ended.1 = .ok value →
          (NothingDeletable order ended.2 ↔
            ∀ l ∈ db.links, Orphaned db.Linked keys l.toPage → Before keys l.fromPage l.toPage) ∧
          (NothingDeletable order ended.2 → ∀ p ∈ db.pages, p ∉ ended.2.pages ↔
            Orphaned db.Linked ((db.selected site idPages).map (·.idPage)) p.idPage)) ∧
        ∀ e, ended.1 = .error e → ∃ walked page rest value, order = walked ++ page :: rest ∧
          page ∈ ended.2.pages ∧ ended.2.canBeDeleted page = false ∧ page.Raises py db e ∧
          (expunge py site walked).run db = (.ok value, ended.2) := by
  refine ⟨congrArg Prod.snd (run_siteExpunge py db site idPages), fun order hOrder => ?_⟩
  obtain ⟨hKeys, walked, hWalk, hEnd, value, hRun⟩ := walk_expunge py hDb hOrder
  simp only
  generalize (expunge py site order).run db = ended at hWalk hEnd hRun ⊢
  obtain ⟨r, db'⟩ := ended
  cases hWalk with
  | whole order value =>
      exact ⟨fun _ _ => hEnd ▸ clears_without hDb hKeys hOrder, fun e hError => nomatch hError⟩
  | stopped walked page rest e hStored hKept hRaises =>
      refine ⟨fun _ hValue => (nomatch hValue), fun e' hError => ?_⟩
      obtain rfl := Except.error.inj hError
      have hHere : page.Raises py db e := by
        obtain ⟨host, hHost, hUrl⟩ := hRaises
        rw [show db' = db.without _ from hEnd, siteById_without] at hHost
        exact ⟨host, hHost, hUrl⟩
      exact ⟨walked, page, rest, value, rfl, hStored, hKept, hHere, hRun⟩

theorem expunge_clears_chained :
    ((siteExpunge (.scripted []) seedSite [2]).run .chained).2 =
        ((expunge (.scripted []) seedSite (Database.chained.selected seedSite [2])).run .chained).2 ∧
      ∀ order : List Page, order.Perm (Database.chained.selected seedSite [2]) →
        let ended := (expunge (.scripted []) seedSite order).run .chained
        let keys := order.map (·.idPage)
        (∀ value, ended.1 = .ok value →
          (NothingDeletable order ended.2 ↔ ∀ l ∈ Database.chained.links,
            Orphaned Database.chained.Linked keys l.toPage → Before keys l.fromPage l.toPage) ∧
          (NothingDeletable order ended.2 → ∀ p ∈ Database.chained.pages, p ∉ ended.2.pages ↔
            Orphaned Database.chained.Linked ((Database.chained.selected seedSite [2]).map (·.idPage))
              p.idPage)) ∧
        ∀ e, ended.1 = .error e → ∃ walked page rest value, order = walked ++ page :: rest ∧
          page ∈ ended.2.pages ∧ ended.2.canBeDeleted page = false ∧
          page.Raises (.scripted []) .chained e ∧
          (expunge (.scripted []) seedSite walked).run .chained = (.ok value, ended.2) :=
  expunge_clears_iff (.scripted []) .chained seedSite [2] Database.consistent_chained

/-- Both pages are selected. The older one has its turn first, when the newer one
still links to it, and it is left without incoming links. -/
theorem expunge_leaves_target :
    Database.chained.Consistent ∧ Database.chained.selected seedSite [1, 2] = Database.chained.pages ∧
      ¬ NothingDeletable (Database.chained.selected seedSite [1, 2])
        ((siteExpunge (.scripted []) seedSite [1, 2]).run .chained).2 := by
  refine ⟨Database.consistent_chained, by decide, fun hNone => ?_⟩
  exact absurd (hNone seedPage (by decide) (by decide)) (by decide)

/-- A site with a page that another one links to and that cannot be formatted. -/
def Database.blocked : Database :=
  { Database.seeded with
    pages := [seedPage, { Page.new 1 "//[" [] with idPage := 2, createdAt := 2 },
      { Page.new 1 "/b" [] with idPage := 3, createdAt := 3 }]
    links := [{ idLink := 1, fromPage := 1, toPage := 2 }]
    nextPage := 4
    nextLink := 2 }

/-- The walk stops there, and the page behind it stays although nothing links to it. -/
example : ∃ e, (siteExpunge (.scripted []) seedSite [2, 3]).run .blocked = (.error e, .blocked) ∧
    ¬ NothingDeletable (Database.blocked.selected seedSite [2, 3]) .blocked :=
  ⟨_, by rfl, by unfold NothingDeletable; decide⟩

end Spidercheck
