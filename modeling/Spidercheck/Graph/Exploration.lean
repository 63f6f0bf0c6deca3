import Mathlib.Data.Set.Card
import Mathlib.Logic.Relation

/-! Exploration of a directed graph from some seeds. A vertex is known when it is a
seed, or when an edge leads to it from a vertex that was expanded; expanding a
known vertex makes its successors known. Vertices may be expanded in any order,
and again. What is known can always be reached, and it is all that can be reached
as soon as every known vertex is expanded. -/
namespace Graph

variable {Vertex : Type} {Edge : Vertex → Vertex → Prop} {seeds known expanded : Set Vertex}
  {u v : Vertex}

def Reach (Edge : Vertex → Vertex → Prop) (seeds : Set Vertex) : Set Vertex :=
  {v | ∃ s ∈ seeds, Relation.ReflTransGen Edge s v}

theorem subset_reach : seeds ⊆ Reach Edge seeds := fun s hs => ⟨s, hs, .refl⟩

/-- What a reachable vertex leads to is reachable. -/
theorem Reach.step (h : u ∈ Reach Edge seeds) (hEdge : Edge u v) : v ∈ Reach Edge seeds := by
  obtain ⟨s, hs, hPath⟩ := h
  exact ⟨s, hs, hPath.tail hEdge⟩

/-- A set that holds the seeds and all successors of its vertices holds all that can be reached. -/
theorem reach_subset {closed : Set Vertex} (hSeeds : seeds ⊆ closed)
    (hStep : ∀ u ∈ closed, ∀ v, Edge u v → v ∈ closed) : Reach Edge seeds ⊆ closed := by
  rintro v ⟨s, hs, hPath⟩
  induction hPath with
  | refl => exact hSeeds hs
  | tail _ hEdge ih => exact hStep _ ih _ hEdge

structure Explored (Edge : Vertex → Vertex → Prop) (seeds known expanded : Set Vertex) : Prop where
  seeded : seeds ⊆ known
  reached : known ⊆ Reach Edge seeds
  within : expanded ⊆ known
  followed : ∀ u ∈ expanded, ∀ v, Edge u v → v ∈ known

/-- At the start the seeds are known and nothing is expanded. -/
theorem explored_seeds : Explored Edge seeds seeds ∅ where
  seeded := subset_rfl
  reached := subset_reach
  within := Set.empty_subset _
  followed _ hu := absurd hu (Set.notMem_empty _)

namespace Explored

/-- One step: a known vertex is expanded. -/
theorem expand (h : Explored Edge seeds known expanded) (hu : u ∈ known) :
    Explored Edge seeds (known ∪ {v | Edge u v}) (insert u expanded) where
  seeded := h.seeded.trans Set.subset_union_left
  reached := by
    rintro v (hv | hEdge)
    · exact h.reached hv
    · exact Reach.step (h.reached hu) hEdge
  within := Set.insert_subset (Set.mem_union_left _ hu) (h.within.trans Set.subset_union_left)
  followed w hw v hEdge := by
    rcases hw with rfl | hw
    · exact Set.mem_union_right _ hEdge
    · exact Set.mem_union_left _ (h.followed w hw v hEdge)

/-- Nothing is left to expand. -/
theorem complete (h : Explored Edge seeds known expanded) (hAll : known ⊆ expanded) :
    known = Reach Edge seeds :=
  h.reached.antisymm (reach_subset h.seeded fun u hu v hEdge => h.followed u (hAll hu) v hEdge)

/-- The number of vertices that are still to be expanded, known or not. -/
noncomputable def remaining (Edge : Vertex → Vertex → Prop) (seeds expanded : Set Vertex) : Nat :=
  (Reach Edge seeds \ expanded).ncard

/-- A vertex that is expanded for the first time is one less to expand. -/
theorem remaining_insert (hFinite : (Reach Edge seeds).Finite) (h : Explored Edge seeds known expanded)
    (hu : u ∈ known) (hNew : u ∉ expanded) :
    remaining Edge seeds (insert u expanded) + 1 = remaining Edge seeds expanded := by
  have hMem : u ∈ Reach Edge seeds \ expanded := ⟨h.reached hu, hNew⟩
  have hRest : Reach Edge seeds \ insert u expanded = (Reach Edge seeds \ expanded) \ {u} := by
    rw [Set.sdiff_sdiff, Set.insert_eq, Set.union_comm]
  rw [remaining, remaining, hRest, Set.ncard_sdiff_singleton_add_one hMem hFinite.sdiff]

theorem remaining_insert_le (hFinite : (Reach Edge seeds).Finite) :
    remaining Edge seeds (insert u expanded) ≤ remaining Edge seeds expanded :=
  Set.ncard_le_ncard (Set.sdiff_subset_sdiff_right (Set.subset_insert u expanded)) hFinite.sdiff

/-- When nothing is left, everything that can be reached is known and expanded. -/
theorem eq_reach_of_remaining (hFinite : (Reach Edge seeds).Finite)
    (h : Explored Edge seeds known expanded) (hNone : remaining Edge seeds expanded = 0) :
    known = Reach Edge seeds ∧ expanded = Reach Edge seeds := by
  have hSub : Reach Edge seeds ⊆ expanded :=
    Set.sdiff_eq_empty.mp ((Set.ncard_eq_zero hFinite.sdiff).mp hNone)
  exact ⟨h.reached.antisymm (hSub.trans h.within), (h.within.trans h.reached).antisymm hSub⟩

/-- When every known vertex is expanded, nothing is left. -/
theorem remaining_of_complete (h : Explored Edge seeds known expanded) (hAll : known ⊆ expanded) :
    remaining Edge seeds expanded = 0 := by
  rw [remaining, ← h.complete hAll, Set.sdiff_eq_empty.mpr hAll, Set.ncard_empty]

end Explored

end Graph
