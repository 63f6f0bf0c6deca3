import Mathlib.Data.List.Count
import Mathlib.Data.List.Pairwise
import Mathlib.Tactic.Common

/-! Bounded bypass and arrival order for a scheduler that serves one item after
another. A queue is a rotation when it never serves an item that is behind a
waiting one, and every item that is served goes behind those that wait. Several
queues may share the items, and a step of one of them moves the item for all. -/
namespace Scheduling

variable {State Event Queue Item : Type}

/-- A run with the events of its steps. -/
inductive Steps (step : State → Event → State → Prop) : State → List Event → State → Prop where
  | refl (s : State) : Steps step s [] s
  | cons {s t u : State} {event : Event} {trace : List Event} (head : step s event t)
      (tail : Steps step t trace u) : Steps step s (event :: trace) u

/-- A run seen through a view of its events. -/
theorem Steps.map {Other : Type} {step : State → Event → State → Prop} {s t : State}
    {trace : List Event} (view : Event → Other) (h : Steps step s trace t) :
    Steps (fun s other t => ∃ event, view event = other ∧ step s event t) s (trace.map view) t := by
  induction h with
  | refl => exact .refl _
  | cons head tail ih => exact .cons ⟨_, rfl, head⟩ ih

/-- Every step of a run starts where an invariant of the steps holds. -/
theorem Steps.strengthen {step : State → Event → State → Prop} {Inv : State → Prop}
    (hStep : ∀ s event t, Inv s → step s event t → Inv t) {s t : State} {trace : List Event}
    (h : Steps step s trace t) (hs : Inv s) :
    Steps (fun s event t => Inv s ∧ step s event t) s trace t := by
  induction h with
  | refl => exact .refl _
  | cons head tail ih => exact .cons ⟨hs, head⟩ (ih (hStep _ _ _ hs head))

/-- What every step promises of its event holds of all events of a run. -/
theorem Steps.forall_mem {step : State → Event → State → Prop} {P : Event → Prop}
    (hStep : ∀ s event t, step s event t → P event) {s t : State} {trace : List Event}
    (h : Steps step s trace t) : ∀ event ∈ trace, P event := by
  induction h with
  | refl => simp
  | cons head tail ih => exact List.forall_mem_cons.mpr ⟨hStep _ _ _ head, ih⟩

/-- One queue of a scheduler whose events name the queue and the item it serves. -/
structure Rotation (step : State → Queue × Item → State → Prop) (queue : Queue)
    (Waiting : State → Item → Prop) (Behind : State → Item → Item → Prop) : Prop where
  /-- The queue does not serve an item behind a waiting one. -/
  picks : ∀ s p t q, step s (queue, p) t → Waiting s q → ¬ Behind s q p
  /-- An item that any queue served is behind the waiting ones. -/
  sent : ∀ s c p t q, step s (c, p) t → Waiting s q → q ≠ p → Behind t q p
  /-- An item waits until it is served. -/
  waits : ∀ s c p t q, step s (c, p) t → Waiting s q → q ≠ p → Waiting t q
  /-- What is behind a waiting item stays behind it while neither is served. -/
  keeps : ∀ s c r t q p, step s (c, r) t → Waiting s q → q ≠ r → p ≠ r → Behind s q p → Behind t q p

namespace Rotation
variable {step : State → Queue × Item → State → Prop} {queue : Queue}
  {Waiting : State → Item → Prop} {Behind : State → Item → Item → Prop}
  {s t : State} {trace : List (Queue × Item)} {p q : Item}

/-- An item behind a waiting one is not served before it. -/
theorem notMem_of_behind (h : Rotation step queue Waiting Behind) (run : Steps step s trace t)
    (hWaiting : Waiting s q) (hUnserved : ∀ event ∈ trace, event.2 ≠ q) (hBehind : Behind s q p) :
    (queue, p) ∉ trace := by
  induction run with
  | refl => exact List.not_mem_nil
  | @cons s t u event trace head tail ih =>
      obtain ⟨c, r⟩ := event
      have hNe : q ≠ r := (hUnserved (c, r) (List.mem_cons_self ..)).symm
      have hRest := fun hBehind' => ih (h.waits s c r t q head hWaiting hNe)
        (fun event hEvent => hUnserved event (List.mem_cons_of_mem _ hEvent)) hBehind'
      rw [List.mem_cons, not_or]
      constructor
      · rintro ⟨⟩
        exact h.picks s p t q head hWaiting hBehind
      · by_cases hr : p = r
        · subst hr
          exact hRest (h.sent s c p t q head hWaiting hNe)
        · exact hRest (h.keeps s c r t q p head hWaiting hNe hr hBehind)

/-- Bounded bypass: while an item waits, its queue serves every other item at
most once. -/
theorem bypass [DecidableEq Queue] [DecidableEq Item] (h : Rotation step queue Waiting Behind)
    (run : Steps step s trace t) (hWaiting : Waiting s q)
    (hUnserved : ∀ event ∈ trace, event.2 ≠ q) (p : Item) : trace.count (queue, p) ≤ 1 := by
  induction run with
  | refl => simp
  | @cons s t u event trace head tail ih =>
      obtain ⟨c, r⟩ := event
      have hNe : q ≠ r := (hUnserved (c, r) (List.mem_cons_self ..)).symm
      have hWaits := h.waits s c r t q head hWaiting hNe
      have hRest : ∀ event ∈ trace, event.2 ≠ q :=
        fun event hEvent => hUnserved event (List.mem_cons_of_mem _ hEvent)
      by_cases hEvent : (c, r) = (queue, p)
      · -- from here on the item is behind the waiting one
        cases hEvent
        have hNone := h.notMem_of_behind tail hWaits hRest (h.sent s queue p t q head hWaiting hNe)
        simp [List.count_eq_zero.mpr hNone]
      · rw [List.count_cons_of_ne hEvent]
        exact ih hWaits hRest

end Rotation

/-! Arrival order. A bound is above a key when everything that is still to be
served has a larger key. -/
section Arrival
variable {Key : Type} [LT Key]

/-- Services come in increasing order when each leaves only larger keys behind. -/
theorem Steps.sorted {step : State → Event → State → Prop} (key : Event → Option Key)
    (Above : State → Key → Prop)
    (hKeep : ∀ s event t k, step s event t → Above s k → Above t k)
    (hServe : ∀ s event t k, step s event t → key event = some k → Above t k)
    (hAbove : ∀ s event t k k', step s event t → Above s k → key event = some k' → k < k')
    {s t : State} {trace : List Event} (run : Steps step s trace t) :
    (trace.filterMap key).Pairwise (· < ·) ∧
      ∀ k, Above s k → ∀ k' ∈ trace.filterMap key, k < k' := by
  induction run with
  | refl => simp
  | @cons s t u event trace head tail ih =>
      obtain ⟨hSorted, hBound⟩ := ih
      cases hKey : key event with
      | none =>
          rw [List.filterMap_cons_none hKey]
          exact ⟨hSorted, fun k hk => hBound k (hKeep s event t k head hk)⟩
      | some first =>
          rw [List.filterMap_cons_some hKey]
          constructor
          · exact List.pairwise_cons.mpr ⟨hBound first (hServe s event t first head hKey), hSorted⟩
          · intro k hk k' hk'
            rcases List.mem_cons.mp hk' with rfl | hk'
            · exact hAbove s event t k k' head hk hKey
            · exact hBound k (hKeep s event t k head hk) k' hk'

end Arrival

end Scheduling
