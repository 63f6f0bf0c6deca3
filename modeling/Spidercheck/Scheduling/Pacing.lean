import Spidercheck.Scheduling.Rotation
import Mathlib.Algebra.Order.BigOperators.Group.List
import Mathlib.Tactic.Linarith

/-! How often a paced service can happen. Its item is served again only when more
than a gap has passed since its last service of any kind. In some time there are
then no more services than gaps that fit into it, and one. -/
namespace Scheduling

variable {State Event Item : Type}

/-- A service that keeps a gap, on a clock. -/
structure Paced (step : State → Event → State → Prop) (clock last : State → ℤ) (Serves : Event → Bool)
    (gap : ℤ) : Prop where
  /-- The last service is in the past. -/
  past : ∀ s e t, step s e t → last s ≤ clock s ∧ last t ≤ clock t
  forward : ∀ s e t, step s e t → last s ≤ last t ∧ clock s ≤ clock t
  spaced : ∀ s e t, step s e t → Serves e = true → last s + gap ≤ last t ∧ clock s ≤ last t

namespace Paced
variable {step : State → Event → State → Prop} {clock last : State → ℤ} {Serves : Event → Bool}
  {gap : ℤ} {s t : State} {trace : List Event}

/-- Every service moves the time of the last one by a gap. -/
theorem last_add (h : Paced step clock last Serves gap) (run : Steps step s trace t) :
    last s + trace.countP Serves * gap ≤ last t := by
  induction run with
  | refl => simp
  | @cons s t u event trace head tail ih =>
      rw [List.countP_cons]
      split
      · next hServes =>
        obtain ⟨hSpaced, -⟩ := h.spaced s event t head hServes
        push_cast
        linarith
      · obtain ⟨hForward, -⟩ := h.forward s event t head
        simp only [Nat.add_zero]
        linarith

/-- The last service is never in the future. -/
theorem last_le (h : Paced step clock last Serves gap) (run : Steps step s trace t)
    (hs : last s ≤ clock s) : last t ≤ clock t := by
  induction run with
  | refl => exact hs
  | cons head _ ih => exact ih (h.past _ _ _ head).2

/-- The first service needs no gap before it; the others come a gap after another. -/
theorem bound (h : Paced step clock last Serves gap) (hGap : 0 ≤ gap) (run : Steps step s trace t)
    (hs : last s ≤ clock s) : trace.countP Serves * gap ≤ clock t - clock s + gap := by
  induction run with
  | refl => simpa using hGap
  | @cons s t u event trace head tail ih =>
      have hPast := (h.past s event t head).2
      rw [List.countP_cons]
      split
      · next hServes =>
        obtain ⟨-, hNow⟩ := h.spaced s event t head hServes
        have hLater := (h.last_add tail).trans (h.last_le tail hPast)
        push_cast
        linarith
      · obtain ⟨-, hForward⟩ := h.forward s event t head
        have hRest := ih hPast
        simp only [Nat.add_zero]
        linarith

end Paced

/-- What is counted by its keys is counted by each key of a list that has them all. -/
theorem countP_le_sum {Key : Type} [DecidableEq Key] (Counts : Event → Bool) (key : Event → Key)
    (keys : List Key) (trace : List Event) (h : ∀ e ∈ trace, Counts e = true → key e ∈ keys) :
    trace.countP Counts ≤ (keys.map fun k => trace.countP fun e => Counts e && key e == k).sum := by
  induction trace with
  | nil => simp
  | cons e trace ih =>
      have hRest := ih fun e' he' => h e' (List.mem_cons_of_mem _ he')
      simp only [List.countP_cons]
      rw [List.sum_map_add]
      refine Nat.add_le_add hRest ?_
      split
      · next hCounts =>
        have hMem := h e (List.mem_cons_self ..) hCounts
        have hOne : 1 ∈ keys.map fun k => if (Counts e && key e == k) = true then 1 else 0 :=
          List.mem_map.mpr ⟨key e, hMem, by simp [hCounts]⟩
        exact List.single_le_sum (by simp) _ hOne
      · exact Nat.zero_le _

end Scheduling
