import Mathlib.Logic.Function.Basic
import Mathlib.Data.List.Basic

/-! Two readers of one iterator. What one of them has read and the other has not is
kept for the other, so each of them reads all items in their order. -/
namespace Sharing

variable {Item Source Error : Type}

inductive Answer (Item Error : Type) where
  | item (x : Item)
  | stop
  | raised (e : Error)
  deriving DecidableEq, Repr

def Answer.items : Answer Item Error → List Item
  | .item x => [x]
  | _ => []

/-- The next answer of an iterator, which may go on after it has stopped or raised. -/
abbrev Iterator (Item Source Error : Type) := Source → Answer Item Error × Source

inductive Reader where
  | first
  | second
  deriving DecidableEq, Repr

def Reader.other : Reader → Reader
  | .first => .second
  | .second => .first

theorem Reader.other_ne (r : Reader) : r.other ≠ r := by cases r <;> decide

theorem Reader.eq_other (r r' : Reader) (h : r' ≠ r) : r' = r.other := by
  cases r <;> cases r' <;> simp_all [Reader.other]

/-- The iterator, and for each reader what the other one has read ahead of it. -/
structure Shared (Item Source : Type) where
  source : Source
  pending : Reader → List Item

namespace Shared

def fresh (source : Source) : Shared Item Source := { source := source, pending := fun _ => [] }

/-- A reader takes what is kept for it, and asks the iterator when there is nothing. -/
def next (pull : Iterator Item Source Error) (r : Reader) (s : Shared Item Source) :
    Answer Item Error × Shared Item Source :=
  match s.pending r with
  | x :: rest => (.item x, { s with pending := Function.update s.pending r rest })
  | [] => match pull s.source with
    | (.item x, source) =>
        (.item x, { source := source, pending := Function.update s.pending r.other (s.pending r.other ++ [x]) })
    | (answer, source) => (answer, { s with source := source })

end Shared

inductive Gives (pull : Iterator Item Source Error) (start : Source) : List Item → Source → Prop where
  | none : Gives pull start [] start
  | more {items : List Item} {source : Source} (h : Gives pull start items source) :
      Gives pull start (items ++ (pull source).1.items) (pull source).2

section Tally
variable {pull : Iterator Item Source Error} {start : Source} {items : List Item}
  {read : Reader → List Item} {s : Shared Item Source} {r : Reader}

/-- What the iterator has given is, for each reader, what it has read and what is kept
for it; and nothing is kept for one of them. -/
structure Tally (pull : Iterator Item Source Error) (start : Source) (items : List Item)
    (read : Reader → List Item) (s : Shared Item Source) : Prop where
  gives : Gives pull start items s.source
  whole : ∀ r, read r ++ s.pending r = items
  ahead : ∃ r, s.pending r = []

theorem tally_fresh (pull : Iterator Item Source Error) (start : Source) :
    Tally pull start [] (fun _ => []) (.fresh start) :=
  ⟨.none, fun _ => rfl, .first, rfl⟩

/-- The iterator is asked only where nothing is kept for the reader. -/
theorem next_of_pending {x : Item} {rest : List Item} (h : s.pending r = x :: rest) :
    s.next pull r = (.item x, { s with pending := Function.update s.pending r rest }) := by
  rw [Shared.next, h]

theorem next_of_bare (h : s.pending r = []) : s.next pull r = ((pull s.source).1,
    { source := (pull s.source).2,
      pending := Function.update s.pending r.other (s.pending r.other ++ (pull s.source).1.items) }) := by
  rw [Shared.next, h]
  cases pull s.source with
  | mk answer source =>
      cases answer with
      | item x => rfl
      | stop => simp [Answer.items]
      | raised e => simp [Answer.items]

/-- One `next`: the reader has read its answer, and the other one nothing more. -/
theorem Tally.next (h : Tally pull start items read s) (r : Reader) :
    ∃ items', Tally pull start items'
      (Function.update read r (read r ++ (s.next pull r).1.items)) (s.next pull r).2 := by
  cases hPending : s.pending r with
  | cons x rest =>
      have hOther : s.pending r.other = [] := by
        obtain ⟨r', hBare⟩ := h.ahead
        have hNe : r' ≠ r := by
          rintro rfl
          rw [hPending] at hBare
          cases hBare
        exact r.eq_other r' hNe ▸ hBare
      rw [next_of_pending hPending]
      refine ⟨items, h.gives, fun r' => ?_, r.other, ?_⟩
      · by_cases hSame : r' = r
        · subst hSame
          simp [Answer.items, ← h.whole r', hPending]
        · simp [Function.update_of_ne hSame, h.whole r']
      · simp [Function.update_of_ne r.other_ne, hOther]
  | nil =>
      rw [next_of_bare hPending]
      refine ⟨items ++ (pull s.source).1.items, .more h.gives, fun r' => ?_, r, ?_⟩
      · by_cases hSame : r' = r
        · subst hSame
          simp [Function.update_of_ne r'.other_ne.symm, hPending, ← h.whole r']
        · rw [r.eq_other r' hSame]
          simp [Function.update_of_ne r.other_ne, ← h.whole r.other, List.append_assoc]
      · simp [Function.update_of_ne r.other_ne.symm, hPending]

end Tally

end Sharing
