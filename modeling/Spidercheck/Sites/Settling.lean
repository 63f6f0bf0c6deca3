import Spidercheck.Graph.Anchors
import Spidercheck.Graph.Passes
import Spidercheck.Sites.Expunge

/-! Expunging again and again, and what the user is told. One call may leave pages
that could be deleted, but as many calls as there are selected pages leave none,
unless one of them stops at a page that cannot be formatted. -/
namespace Spidercheck

open Text Execution Relational Graph

variable {py : Platform} {db : Database} {site : Site} {page : Page} {idPages : List Nat}
  {order : List Page} {gone : Set Nat}

/-- A call of `site_expunge`, which may walk through its pages in any order. -/
def ExpungeRound (py : Platform) (site : Site) (idPages : List Nat) (db db' : Database) : Prop :=
  ∃ order : List Page, order.Perm (db.selected site idPages) ∧ db' = ((expunge py site order).run db).2

theorem expungeRound_siteExpunge (py : Platform) (db : Database) (site : Site) (idPages : List Nat) :
    ExpungeRound py site idPages db ((siteExpunge py site idPages).run db).2 :=
  ⟨db.selected site idPages, .refl _, congrArg Prod.snd (run_siteExpunge py db site idPages)⟩

def Printable (py : Platform) (site : Site) (idPages : List Nat) (db : Database) : Prop :=
  ∀ p ∈ db.selected site idPages, ∀ e, ¬ p.Raises py db e

theorem mem_selected_without : page ∈ (db.without gone).selected site idPages ↔
    page ∈ db.selected site idPages ∧ page.idPage ∉ gone := by
  simp only [mem_selected, Database.mem_pages_without]
  exact ⟨fun h => ⟨⟨h.1.1, h.2⟩, h.1.2⟩, fun h => ⟨⟨h.1.1, h.2⟩, h.1.2⟩⟩

/-- A further call goes on where the calls before it ended, for as far as it comes. -/
theorem prune_of_expungeRound (hDb : db.Consistent) {db' : Database}
    (h : ExpungeRound py site idPages (db.without gone) db') :
    ∃ turns, turns ⊆ (db.selected site idPages).map (·.idPage) ∧
      db' = db.without (prune db.Linked gone turns) ∧
      (Printable py site idPages db →
        ∀ pk ∈ (db.selected site idPages).map (·.idPage), pk ∉ gone → pk ∈ turns) := by
  obtain ⟨order, hOrder, rfl⟩ := h
  have hMem (p : Page) : p ∈ order ↔ p ∈ db.selected site idPages ∧ p.idPage ∉ gone :=
    hOrder.mem_iff.trans mem_selected_without
  have hKeys : (order.map (·.idPage)).Nodup := by
    refine (List.Perm.nodup_iff ((hOrder.trans (List.perm_insertionSort _ _)).map _)).mpr ?_
    exact ((hDb.deletePages _).pages.filter _).filter _
  have hStored : ∀ p ∈ order, p ∈ db.pages := fun p hp => (mem_selected.mp ((hMem p).mp hp).1).1
  obtain ⟨walked, hWalk, hEnd, -⟩ :=
    walk_foldlM py hDb hStored hKeys (fun p hp => ((hMem p).mp hp).2) (site, 0, [])
  have hState : ((expunge py site order).run (db.without gone)).2 =
      db.without (prune db.Linked gone (walked.map (·.idPage))) := hEnd
  refine ⟨walked.map (·.idPage), ?_, hState, fun hPrintable pk hpk hLeft => ?_⟩
  · intro pk hpk
    obtain ⟨p, hp, rfl⟩ := List.mem_map.mp hpk
    exact List.mem_map.mpr ⟨p, ((hMem p).mp (hWalk.isPrefix.subset hp)).1, rfl⟩
  · obtain ⟨p, hp, rfl⟩ := List.mem_map.mp hpk
    have hWhole : walked = order := by
      refine hWalk.eq_of_not_raises fun q hq e hRaises => ?_
      rw [hEnd] at hRaises
      exact hPrintable q ((hMem q).mp hq).1 e hRaises
    rw [hWhole]
    exact List.mem_map.mpr ⟨p, (hMem p).mpr ⟨hp, hLeft⟩, rfl⟩

section Calls

variable {states : Nat → Database} {n : Nat}

/-- Whatever the calls raise, only orphaned pages are ever removed. -/
theorem orphaned_of_expungeRounds (hDb : db.Consistent) (hStart : states 0 = db)
    (hRounds : ∀ k, ExpungeRound py site idPages (states k) (states (k + 1))) (k : Nat) :
    ∃ gone, (∀ pk ∈ gone, Orphaned db.Linked ((db.selected site idPages).map (·.idPage)) pk) ∧
      states k = db.without gone := by
  induction k with
  | zero => exact ⟨∅, fun pk hpk => absurd hpk (Set.notMem_empty pk), hStart.trans db.without_empty.symm⟩
  | succ k ih =>
      obtain ⟨gone, hGone, hState⟩ := ih
      obtain ⟨turns, hSub, hNext, -⟩ := prune_of_expungeRound hDb (hState ▸ hRounds k)
      exact ⟨_, orphaned_of_turns hGone hSub, hNext⟩

/-- After some calls for the same pages some of these are gone. -/
theorem progress_of_expungeRounds (hDb : db.Consistent) (hPrintable : Printable py site idPages db)
    (hStart : states 0 = db) (hRounds : ∀ k, ExpungeRound py site idPages (states k) (states (k + 1)))
    (k : Nat) : ∃ gone, Progress db.Linked ((db.selected site idPages).map (·.idPage)) k gone ∧
      states k = db.without gone := by
  induction k with
  | zero => exact ⟨∅, .start, hStart.trans db.without_empty.symm⟩
  | succ k ih =>
      obtain ⟨gone, hProgress, hState⟩ := ih
      obtain ⟨turns, hSub, hNext, hAll⟩ := prune_of_expungeRound hDb (hState ▸ hRounds k)
      exact ⟨_, hProgress.pass ⟨turns, hSub, hAll hPrintable, rfl⟩, hNext⟩

/-- After enough of them it is the orphaned ones that are. -/
theorem without_orphaned (hDb : db.Consistent) (hPrintable : Printable py site idPages db)
    (hStart : states 0 = db) (hRounds : ∀ k, ExpungeRound py site idPages (states k) (states (k + 1)))
    (hn : (db.selected site idPages).length ≤ n) :
    states n = db.without {pk | Orphaned db.Linked ((db.selected site idPages).map (·.idPage)) pk} := by
  obtain ⟨gone, hProgress, hState⟩ := progress_of_expungeRounds hDb hPrintable hStart hRounds n
  have hGone := hProgress.finish (by simpa using hn)
  exact hGone ▸ hState

end Calls

/-- Calls of `site_expunge` for the same pages, one after another, each in any
order: only orphaned pages are removed, whatever the calls raise. Where all the
pages can be formatted, after as many calls as there are selected pages just the
orphaned ones have been removed, with what cascades from them, and further calls
change nothing. -/
theorem expunge_settles (py : Platform) (db : Database) (site : Site) (idPages : List Nat)
    (hDb : db.Consistent) (states : Nat → Database) (hStart : states 0 = db)
    (hRounds : ∀ k, ExpungeRound py site idPages (states k) (states (k + 1))) (n : Nat) :
    (∃ gone, (∀ pk ∈ gone, Orphaned db.Linked ((db.selected site idPages).map (·.idPage)) pk) ∧
      states n = db.without gone) ∧
    (Printable py site idPages db → (db.selected site idPages).length ≤ n →
      states n = db.without {pk | Orphaned db.Linked ((db.selected site idPages).map (·.idPage)) pk} ∧
        NothingDeletable ((states n).selected site idPages) (states n)) := by
  refine ⟨orphaned_of_expungeRounds hDb hStart hRounds n, fun hPrintable hn => ?_⟩
  have hState := without_orphaned hDb hPrintable hStart hRounds hn
  refine ⟨hState, ?_⟩
  intro p hp _
  rw [hState, mem_selected_without] at hp
  rw [hState, ← Bool.not_eq_true, hDb.canBeDeleted_without hp.2]
  intro hBare
  exact hp.2 (.intro _ (List.mem_map.mpr ⟨p, hp.1, rfl⟩) hBare)

def Database.expungedTimes (k : Nat) : Database :=
  (fun db => ((siteExpunge (.scripted []) seedSite [1, 2]).run db).2)^[k] .chained

theorem printable_chained : Printable (.scripted []) seedSite [1, 2] .chained := by
  have hBoth : Database.chained.selected seedSite [1, 2] = Database.chained.pages := by decide
  rintro p hp e ⟨site, hSite, hUrl⟩
  rw [hBoth] at hp
  rcases List.mem_cons.mp hp with rfl | hLast
  · obtain rfl : seedSite = site := Option.some.inj hSite
    cases hUrl
  · obtain rfl := List.mem_singleton.mp hLast
    obtain rfl : seedSite = site := Option.some.inj hSite
    cases hUrl

/-- Two calls remove both of them. -/
theorem expunge_settles_chained :
    (Database.expungedTimes 2).pages = [] ∧
    Database.expungedTimes 2 = Database.chained.without {pk | Orphaned Database.chained.Linked
        ((Database.chained.selected seedSite [1, 2]).map (·.idPage)) pk} ∧
      NothingDeletable ((Database.expungedTimes 2).selected seedSite [1, 2]) (Database.expungedTimes 2) := by
  refine ⟨by decide, (expunge_settles (.scripted []) .chained seedSite [1, 2] Database.consistent_chained
    Database.expungedTimes rfl (fun k => ?_) 2).2 ?_ (by decide)⟩
  · have hNext : Database.expungedTimes (k + 1) =
        ((siteExpunge (.scripted []) seedSite [1, 2]).run (Database.expungedTimes k)).2 :=
      Function.iterate_succ_apply' ..
    rw [hNext]
    exact expungeRound_siteExpunge ..
  · exact printable_chained

/-- What no number of calls removes: the pages that can be reached by links from a
page that was not selected, or from a cycle of links. Where all selected pages can
be formatted, the others go. -/
theorem expunge_keeps (py : Platform) (db : Database) (site : Site) (idPages : List Nat)
    (hDb : db.Consistent) (states : Nat → Database) (hStart : states 0 = db)
    (hRounds : ∀ k, ExpungeRound py site idPages (states k) (states (k + 1))) (n : Nat) (page : Page)
    (hPage : page ∈ db.pages) :
    let Anchored := ∃ u, Relation.ReflTransGen db.Linked u page.idPage ∧
      (u ∉ (db.selected site idPages).map (·.idPage) ∨ Relation.TransGen db.Linked u u)
    (Anchored → page ∈ (states n).pages) ∧
      (Printable py site idPages db → (db.selected site idPages).length ≤ n →
        (page ∈ (states n).pages ↔ Anchored)) := by
  have hAnchored : (¬ Orphaned db.Linked ((db.selected site idPages).map (·.idPage)) page.idPage) ↔
      ∃ u, Relation.ReflTransGen db.Linked u page.idPage ∧
        (u ∉ (db.selected site idPages).map (·.idPage) ∨ Relation.TransGen db.Linked u u) :=
    (not_orphaned_iff db.Linked _ page.idPage).trans (exists_congr fun _ => and_comm)
  constructor
  · intro hLed
    obtain ⟨gone, hGone, hState⟩ := orphaned_of_expungeRounds hDb hStart hRounds n
    rw [hState, Database.mem_pages_without]
    exact ⟨hPage, fun hIn => hAnchored.mpr hLed (hGone page.idPage hIn)⟩
  · intro hPrintable hn
    rw [without_orphaned hDb hPrintable hStart hRounds hn, Database.mem_pages_without]
    exact (and_iff_right hPage).trans hAnchored

def Database.ring : Database :=
  { Database.chained with links := [⟨1, 1, 2⟩, ⟨2, 2, 1⟩], nextLink := 3 }

theorem Database.consistent_ring : Database.ring.Consistent := by
  constructor <;> simp [ring, chained, seeded, empty, Keyed, seedSite, seedPage, Page.new, Page.fullPath,
    Link.fromTo]
  decide

/-- No number of calls for both of them removes one, as they link to each other. -/
theorem expunge_keeps_ring :
    Relation.TransGen Database.ring.Linked 1 1 ∧ ∀ n, seedPage ∈
      ((fun db : Database => ((siteExpunge (.scripted []) seedSite [1, 2]).run db).2)^[n] .ring).pages := by
  have hThere : Database.ring.Linked 1 2 := ⟨⟨1, 1, 2⟩, by decide, rfl⟩
  have hBack : Database.ring.Linked 2 1 := ⟨⟨2, 2, 1⟩, by decide, rfl⟩
  have hCycle : Relation.TransGen Database.ring.Linked 1 1 := .tail (.single hThere) hBack
  refine ⟨hCycle, fun n => (expunge_keeps (.scripted []) .ring seedSite [1, 2] Database.consistent_ring
    (fun k => (fun db : Database => ((siteExpunge (.scripted []) seedSite [1, 2]).run db).2)^[k] .ring)
    rfl (fun k => ?_) n seedPage (by decide)).1 ⟨1, .refl, .inr hCycle⟩⟩
  rw [Function.iterate_succ_apply']
  exact expungeRound_siteExpunge ..

section Messages

open Classical in
noncomputable def leftOf (gone : Set Nat) (order : List Page) : List Page :=
  order.filter (·.idPage ∉ gone)

/-- The loop gives one message for each page that it leaves, and raises where one of
these cannot be formatted. -/
theorem run_expungePages (py : Platform) (gone : Set Nat) (counter : Nat) (errors : List Str)
    (hDb : db.Consistent) (hSite : site ∈ db.sites) (hOf : ∀ p ∈ order, p.site = site.idSite)
    (hKeys : (order.map (·.idPage)).Nodup) (hLeft : ∀ p ∈ order, p.idPage ∉ gone) :
    let gone' := prune db.Linked gone (order.map (·.idPage))
    match (leftOf gone' order).mapM (expungeError py site) with
    | .ok messages => ∃ more, more + (leftOf gone' order).length = order.length ∧
        (order.foldlM (expungePage py) (site, counter, errors)).run (db.without gone) =
          (.ok (site, counter + more, errors ++ messages), db.without gone')
    | .error e => ∃ t, (order.foldlM (expungePage py) (site, counter, errors)).run (db.without gone) =
        (.error e, t) := by
  induction order generalizing gone counter errors with
  | nil => exact ⟨0, rfl, by simp [prune]⟩
  | cons page rest ih =>
      obtain ⟨hNew, hRest⟩ := List.nodup_cons.mp hKeys
      obtain ⟨hPage, hOthers⟩ := List.forall_mem_cons.mp hLeft
      obtain ⟨hHere, hOfRest⟩ := List.forall_mem_cons.mp hOf
      have hFound : db.siteById page.site = some site := hHere ▸ hDb.sites.lookup_eq hSite
      simp only [List.map_cons, List.foldlM_cons]
      by_cases hBare : Bare db.Linked gone page.idPage
      · have hGone : page.idPage ∈ prune db.Linked (insert page.idPage gone) (rest.map (·.idPage)) :=
          subset_prune (Set.mem_insert _ _)
        rw [prune_of_bare hBare]
        have hFirst : leftOf (prune db.Linked (insert page.idPage gone) (rest.map (·.idPage))) (page :: rest) =
            leftOf (prune db.Linked (insert page.idPage gone) (rest.map (·.idPage))) rest := by
          simp [leftOf, hGone]
        have hTurn := run_expungePage_of_bare py (site, counter, errors) hDb hFound hPage hBare
        have hLater := ih (insert page.idPage gone) (counter + 1) errors
          hOfRest hRest fun p hp hIn => hIn.elim
            (fun hSame => hNew (List.mem_map.mpr ⟨p, hp, hSame⟩)) (hOthers p hp)
        rw [hFirst]
        cases hMessages : (leftOf (prune db.Linked (insert page.idPage gone) (rest.map (·.idPage))) rest).mapM
            (expungeError py site) with
        | error e =>
            simp only [hMessages] at hLater
            obtain ⟨t, hRun⟩ := hLater
            exact ⟨t, (Program.run_bind_ok _ _ _ hTurn).trans hRun⟩
        | ok messages =>
            simp only [hMessages] at hLater
            obtain ⟨more, hCount, hRun⟩ := hLater
            refine ⟨more + 1, by simp only [List.length_cons]; omega, ?_⟩
            rw [Program.run_bind_ok _ _ _ hTurn, hRun, Nat.add_assoc, Nat.add_comm 1]
      · have hStays : page.idPage ∉ prune db.Linked gone (rest.map (·.idPage)) := by
          intro hGone
          exact (mem_of_prune hGone).elim hPage hNew
        rw [prune_of_not_bare hBare]
        have hFirst : leftOf (prune db.Linked gone (rest.map (·.idPage))) (page :: rest) =
            page :: leftOf (prune db.Linked gone (rest.map (·.idPage))) rest := by
          simp [leftOf, hStays]
        have hTurn := run_expungePage_of_not_bare py (site, counter, errors) hDb hFound hPage hBare
        rw [hFirst, List.mapM_cons]
        cases hMessage : expungeError py site page with
        | error e =>
            rw [hMessage] at hTurn
            exact ⟨_, Program.run_bind_error _ _ _ hTurn⟩
        | ok message =>
            rw [hMessage] at hTurn
            have hLater := ih gone counter (errors ++ [message]) hOfRest hRest hOthers
            simp only [ok_bind]
            cases hMessages : (leftOf (prune db.Linked gone (rest.map (·.idPage))) rest).mapM
                (expungeError py site) with
            | error e =>
                simp only [hMessages] at hLater
                obtain ⟨t, hRun⟩ := hLater
                exact ⟨t, (Program.run_bind_ok _ _ _ hTurn).trans hRun⟩
            | ok messages =>
                simp only [hMessages] at hLater
                obtain ⟨more, hCount, hRun⟩ := hLater
                refine ⟨more, by simp only [List.length_cons]; omega, ?_⟩
                rw [Program.run_bind_ok _ _ _ hTurn, hRun]
                simp

/-- What `site_expunge` tells the user. The counter is the number of the selected
pages that were removed, and there is one error message for each of those that are
left, in their order. It raises where one of these cannot be formatted. -/
theorem siteExpunge_messages (py : Platform) (db : Database) (site : Site) (idPages : List Nat)
    (hDb : db.Consistent) (hSite : site ∈ db.sites) :
    let db' := ((siteExpunge py site idPages).run db).2
    let left := (db.selected site idPages).filter fun p => decide (p ∈ db'.pages)
    match left.mapM (expungeError py site) with
    | .ok errors => ∃ counter, counter + left.length = (db.selected site idPages).length ∧
        (siteExpunge py site idPages).run db = (.ok (expungeSuccess site counter, errors), db') ∧
        db' = db.without (prune db.Linked ∅ ((db.selected site idPages).map (·.idPage)))
    | .error e => ((siteExpunge py site idPages).run db).1 = .error e := by
  obtain ⟨order, hOrder⟩ : ∃ order, order = db.selected site idPages := ⟨_, rfl⟩
  simp only [run_siteExpunge]
  rw [← hOrder]
  have hPerm : order.Perm (db.selected site idPages) := hOrder ▸ .refl _
  have hSelected (p : Page) (hp : p ∈ order) : p ∈ db.pages ∧ p.site = site.idSite :=
    ⟨(mem_selected.mp (hPerm.subset hp)).1, (mem_selected.mp (hPerm.subset hp)).2.1⟩
  obtain ⟨hKeys, walked, hWalk, hEnd, value, hRun⟩ := walk_expunge py hDb hPerm
  have hWalkedKeys : (walked.map (·.idPage)).Nodup := (hWalk.isPrefix.sublist.map _).nodup hKeys
  have hTurns := run_expungePages py ∅ 0 [] hDb hSite
    (fun p hp => (hSelected p (hWalk.isPrefix.subset hp)).2) hWalkedKeys fun p _ => Set.notMem_empty p.idPage
  rw [Database.without_empty] at hTurns
  let gone := prune db.Linked ∅ (walked.map (·.idPage))
  have hLeft (pages : List Page) (hPages : ∀ p ∈ pages, p ∈ order) :
      pages.filter (fun p => decide (p ∈ (db.without gone).pages)) = leftOf gone pages := by
    refine List.filter_congr fun p hp => ?_
    rw [decide_eq_decide, Database.mem_pages_without, and_iff_right (hSelected p (hPages p hp)).1]
  -- the walk through the pages before the one where it stops has returned
  obtain ⟨messages, hMessages, more, hCount, hLoop⟩ : ∃ messages,
      (leftOf gone walked).mapM (expungeError py site) = .ok messages ∧
        ∃ more, more + (leftOf gone walked).length = walked.length ∧
          (expunge py site walked).run db = (.ok (site, 0 + more, [] ++ messages), db.without gone) := by
    cases hMessages : (leftOf gone walked).mapM (expungeError py site) with
    | ok messages =>
        simp only [gone, hMessages] at hTurns
        exact ⟨messages, rfl, hTurns⟩
    | error e =>
        simp only [gone, hMessages] at hTurns
        obtain ⟨t, hError⟩ := hTurns
        cases hError.symm.trans hRun
  generalize hEnded : (expunge py site order).run db = ended at hWalk hEnd ⊢
  obtain ⟨r, db'⟩ := ended
  obtain rfl : db' = db.without gone := hEnd
  cases hWalk with
  | whole order value =>
      obtain ⟨rfl, -⟩ : (site, 0 + more, [] ++ messages) = value ∧ True := by
        simpa [hLoop] using hEnded
      simp only [hLeft order fun p hp => hp, hMessages]
      exact ⟨more, hCount, by simp [Except.map], rfl⟩
  | stopped walked page rest e hStored hKept hRaises =>
      have hError : expungeError py site page = .error e := by
        obtain ⟨host, hHost, hUrl⟩ := hRaises
        have hOf := (hSelected page (List.mem_append_right _ (List.mem_cons_self ..))).2
        have hSame : db.siteById page.site = some site := hOf ▸ hDb.sites.lookup_eq hSite
        obtain rfl := Option.some.inj (hSame.symm.trans hHost)
        exact expungeError_eq_error.mpr hUrl
      rw [List.filter_append, List.filter_cons_of_pos (by simpa using hStored),
        hLeft walked fun p hp => List.mem_append_left _ hp, List.mapM_append, hMessages]
      simp [hError, Except.map]

theorem expungeError_seedPage : expungeError (.scripted []) seedSite seedPage =
    .ok "La página http://h/ no ha podido ser borrada" := by
  have hUrl : seedPage.getFullUrl (.scripted []) seedSite = .ok "http://h/" := by rfl
  have hText : ("La página " ++ "http://h/" ++ " no ha podido ser borrada" : Str) =
      "La página http://h/ no ha podido ser borrada" := by decide +kernel
  rw [← hText, expungeError, hUrl]
  rfl

/-- The newer page of the chained site goes, and the user is told of the older one. -/
theorem siteExpunge_messages_chained :
    ∃ counter, counter + 1 = 2 ∧ (siteExpunge (.scripted []) seedSite [1, 2]).run .chained =
      (.ok (expungeSuccess seedSite counter, ["La página http://h/ no ha podido ser borrada"]),
        ((siteExpunge (.scripted []) seedSite [1, 2]).run .chained).2) ∧
      ((siteExpunge (.scripted []) seedSite [1, 2]).run .chained).2 = Database.chained.without
        (prune Database.chained.Linked ∅ ((Database.chained.selected seedSite [1, 2]).map (·.idPage))) := by
  have hExact := siteExpunge_messages (.scripted []) .chained seedSite [1, 2]
    Database.consistent_chained (by decide)
  have hLeft : (Database.chained.selected seedSite [1, 2]).filter (fun p => decide
      (p ∈ ((siteExpunge (.scripted []) seedSite [1, 2]).run .chained).2.pages)) = [seedPage] := by rfl
  simp only [hLeft, List.mapM_cons, List.mapM_nil, expungeError_seedPage] at hExact
  exact hExact

end Messages

end Spidercheck
