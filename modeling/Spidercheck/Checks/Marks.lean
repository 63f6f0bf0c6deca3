import Spidercheck.Model.Calls

/-! The two marks of a check. A row says by its flag and by its time whether it
was checked, and every session that writes rows, from fresh ones or from stale
copies, writes rows whose marks agree. -/
namespace Spidercheck

open Text Execution Relational

/-- `is_checked` and `checked_at` say the same, and an unchecked page took no time. -/
def Page.MarksAgree (p : Page) : Prop :=
  (p.isChecked = false ↔ p.checkedAt = epoch) ∧ (p.isChecked = false → p.checkTime = 0)

/-- A check at a time other than the epoch sets both marks. -/
theorem marksAgree_rechecked {page row : Page} {now : Time} (hClock : now ≠ epoch)
    (h : page.Rechecked now row) : row.MarksAgree := by
  rw [h]
  constructor
  · constructor
    · intro hFlag
      cases hFlag
    · intro hTime
      exact absurd hTime hClock
  · intro hFlag
    cases hFlag

/-- The marks of a new page agree. -/
theorem marksAgree_new (site : Nat) (subpath params : Str) (status : Int) (pk : Nat) (at' : Time) :
    Page.MarksAgree { Page.new site subpath params with
      status := status, idPage := pk, createdAt := at' } :=
  ⟨⟨fun _ => rfl, fun _ => rfl⟩, fun _ => rfl⟩

def Database.Marked (db : Database) : Prop := ∀ p ∈ db.pages, p.MarksAgree

namespace Database
variable {db : Database}

/-- Inserting a row whose marks agree keeps them in agreement everywhere. -/
theorem Marked.insertPage (h : db.Marked) (stamp : Nat → Time) (pk : Nat) {row : Page}
    (hRow : Page.MarksAgree { row with idPage := pk, createdAt := stamp pk }) :
    (db.insertPage stamp pk row).2.Marked := by
  intro p hp
  rcases mem_pages_insertPage hp with hp | rfl
  · exact h p hp
  · exact hRow

theorem Marked.updatePage (h : db.Marked) {row : Page} (hRow : row.MarksAgree) :
    (db.updatePage row).2.Marked := by
  intro p hp
  rcases mem_pages_updatePage hp with hp | rfl
  · exact h p hp
  · exact hRow

theorem Marked.same {db' : Database} (h : db.Marked) (hSame : db.SamePages db') : db'.Marked := by
  intro p hp
  rw [hSame.pages] at hp
  exact h p hp

end Database

/-- Sessions have rows in hand whose marks agree. Nothing else need be known. -/
def marking : OpenDiscipline Unit where
  Holds _ db := db.Marked
  Knows _ page := page.MarksAgree
  Hosts _ _ := True
  Owns _ _ := True
  Clock now := now ≠ epoch
  Joins _ _ := True
  knowsLasting _ _ _ _ h := h
  hostsLasting _ _ _ _ h := h
  ownsLasting _ _ _ _ h := h
  checked _ _ _ _ _ hClock hRow := marksAgree_rechecked hClock hRow
  joinsChecked _ _ _ _ _ _ := trivial
  siteOf _ _ _ _ _ _ _ := trivial
  found _ db _ page hDb _ hPage _ := hDb page hPage
  insertPage w db site stamp subpath params status hDb _ := by
    refine ⟨w, le_rfl, hDb.insertPage stamp db.nextPage (marksAgree_new ..), fun row hRow => ?_⟩
    obtain ⟨rfl, -⟩ := Database.accept_eq_ok (Prod.ext hRow rfl)
    exact marksAgree_new ..
  savePage _ db stamp row hDb hRow := ⟨hDb.updatePage hRow, hDb.insertPage stamp row.idPage hRow⟩
  insertLink _ _ page target hDb _ _ _ :=
    hDb.same (Database.samePages_insertLink page.idPage target.idPage)
  insertValue _ _ _ _ _ hDb _ := ⟨hDb.same (Database.samePages_insertValue _), fun _ _ => trivial⟩
  foundValue _ _ _ _ _ _ _ _ := trivial
  saveValue _ _ _ _ hDb _ :=
    ⟨hDb.same (Database.samePages_updateValue _), hDb.same (Database.samePages_insertValue _)⟩
  deletePages _ _ _ hDb _ := fun p hp => hDb p (List.mem_of_mem_filter hp)
  deleteLinks _ _ _ hDb _ := hDb.same ⟨rfl, rfl, rfl⟩
  deleteValues _ _ _ hDb _ := hDb.same ⟨rfl, rfl, rfl⟩
  loaded _ _ page hDb hPage := hDb page hPage
  stored _ _ _ _ _ := trivial
  insertSite w _ _ _ hDb :=
    ⟨w, le_rfl, Database.accept_preserves Database.Marked hDb fun _ => hDb, fun _ _ => trivial⟩

/-- Whatever sessions run, and in whatever order their statements come, a page
is unchecked exactly when its time is the epoch, and then its check took no time. -/
theorem marks_agree (py : Platform) (pool : List (Session Unit)) (db : Database)
    (h : Concurrent (Call.Opens py (· ≠ epoch)) .empty pool db) :
    ∀ p ∈ db.pages, (p.isChecked = false ↔ p.checkedAt = epoch) ∧
      (p.isChecked = false → p.checkTime = 0) := by
  have hSecure (p : Session Unit) (hOpens : Call.Opens py (· ≠ epoch) p) (w : Unit) (_ : () ≤ w) :
      marking.Keeps Discipline.Any w p := by
    obtain ⟨input, call, hClock, rfl⟩ := hOpens
    apply OpenDiscipline.call hClock
    · exact OpenDiscipline.follows_of_free (fun _ _ _ _ => trivial) call
    · exact fun _ _ _ _ hPage => hPage
  have hStart : marking.Holds () .empty := fun p hp => nomatch hp
  obtain ⟨w, -, hDb, -⟩ := h.holds hSecure hStart
  exact hDb

def Call.alone (call : Call) : Session Unit :=
  call.session (.scripted []) (.scripted (.raised dataError))

/-- A check of the seed page, which is not reached. -/
def timedOut : Call :=
  .operation (.checkPage 1 fun _ _ => .ok (.failure "timed out" (some (-1))))

def switch : Call := .operation (.toogleIsLinkable 1)

/-- The switch comes between the loading and the saving of a check. -/
theorem marks_agree_overlapped :
    let page : Page := { seedPage with
      status := -1, isChecked := true, checkedAt := 10, errorMessage := "timed out" }
    (page.isChecked = false ↔ page.checkedAt = epoch) ∧ (page.isChecked = false → page.checkTime = 0) := by
  have hOpens (call : Call) : Call.Opens (.scripted []) (· ≠ epoch) call.alone := ⟨_, _, by decide, rfl⟩
  have hBegun : Concurrent (Call.Opens (.scripted []) (· ≠ epoch)) Database.empty
      ([] ++ (Call.operation (.initSite "http://h/" "s")).alone :: []) .empty := .opened .start (hOpens _)
  have hCheck := Concurrent.opened hBegun.runs (hOpens timedOut)
  have hLoaded := (show Concurrent _ _ ([] ++ timedOut.alone :: _) _ from hCheck).step
  have hOverlap := Concurrent.opened hLoaded (hOpens switch)
  have hSwitched := (show Concurrent _ _ ([] ++ switch.alone :: _) _ from hOverlap).runs
  have hSaved := (show Concurrent _ _ ([_] ++ _ :: _) _ from hSwitched).runs
  exact marks_agree _ _ _ hSaved _ (by decide)

end Spidercheck
