import Spidercheck.Graph.Pruning
import Mathlib.Data.Finset.Card

/-! Passes one after another. A pass may leave vertices that could go, but it takes
at least one of them; so after as many passes as there are vertices all orphaned
ones are gone, whatever the order of each pass. -/
namespace Graph

variable {Vertex : Type} {Edge : Vertex → Vertex → Prop} {gone gone' : Set Vertex}
  {order turns : List Vertex} {v : Vertex} {k : Nat}

theorem Bare.mono (h : Bare Edge gone v) (hSub : gone ⊆ gone') : Bare Edge gone' v :=
  fun u hEdge => hSub (h u hEdge)

/-- A vertex that could go at once goes in every pass over it. -/
theorem mem_prune_of_bare (hv : v ∈ turns) (hBare : Bare Edge gone v) : v ∈ prune Edge gone turns := by
  obtain ⟨left, right, rfl⟩ := List.append_of_mem hv
  rw [prune_append, prune_of_bare (hBare.mono subset_prune)]
  exact subset_prune (Set.mem_insert v _)

/-- One more pass, over all vertices of the list that are left. -/
def Pass (Edge : Vertex → Vertex → Prop) (order : List Vertex) (gone gone' : Set Vertex) : Prop :=
  ∃ turns, turns ⊆ order ∧ (∀ v ∈ order, v ∉ gone → v ∈ turns) ∧ gone' = prune Edge gone turns

/-- Only orphaned vertices go, wherever the turns end. -/
theorem orphaned_of_turns (hGone : ∀ v ∈ gone, Orphaned Edge order v) (hSub : turns ⊆ order) :
    ∀ v ∈ prune Edge gone turns, Orphaned Edge order v := by
  apply prune_induct (fun now => ∀ v ∈ now, Orphaned Edge order v) hGone
  intro now v hv hNow hBare w hw
  rcases hw with rfl | hw
  · exact .intro w (hSub hv) fun u hEdge => hNow u (hBare u hEdge)
  · exact hNow w hw

/-- A pass takes orphans only. -/
theorem orphaned_of_pass (hGone : ∀ v ∈ gone, Orphaned Edge order v)
    (hPass : Pass Edge order gone gone') : ∀ v ∈ gone', Orphaned Edge order v := by
  obtain ⟨turns, hSub, -, rfl⟩ := hPass
  exact orphaned_of_turns hGone hSub

theorem subset_pass (hPass : Pass Edge order gone gone') : gone ⊆ gone' := by
  obtain ⟨turns, -, -, rfl⟩ := hPass
  exact subset_prune

/-- Where no vertex of the list could go, all orphaned ones have gone. -/
theorem Cleared.orphaned (h : Cleared Edge order gone) (hv : Orphaned Edge order v) : v ∈ gone := by
  induction hv with
  | intro v hv _ ih =>
      by_contra hLeft
      obtain ⟨u, hEdge, hu⟩ := h v hv hLeft
      exact hu (ih u hEdge)

/-- Where the orphans are gone and nothing else can go, they are all that has gone. -/
theorem Cleared.eq_orphaned (h : Cleared Edge order gone) (hGone : ∀ v ∈ gone, Orphaned Edge order v) :
    gone = {v | Orphaned Edge order v} :=
  Set.Subset.antisymm hGone fun _ hv => h.orphaned hv

open Classical in
/-- The state of `k` passes: they are done, or they have taken a vertex each. -/
structure Progress (Edge : Vertex → Vertex → Prop) (order : List Vertex) (k : Nat) (gone : Set Vertex) :
    Prop where
  sound : ∀ v ∈ gone, Orphaned Edge order v
  count : gone = {v | Orphaned Edge order v} ∨ k ≤ (order.toFinset.filter (· ∈ gone)).card

theorem Progress.start : Progress Edge order 0 ∅ :=
  ⟨fun v hv => absurd hv (Set.notMem_empty v), .inr (Nat.zero_le _)⟩

/-- One more pass takes one more vertex, unless all are done. -/
theorem Progress.pass (h : Progress Edge order k gone) (hPass : Pass Edge order gone gone') :
    Progress Edge order (k + 1) gone' := by
  classical
  have hSound := orphaned_of_pass h.sound hPass
  have hSub := subset_pass hPass
  refine ⟨hSound, ?_⟩
  by_cases hCleared : Cleared Edge order gone
  · have hAll := hCleared.eq_orphaned h.sound
    exact .inl (Set.Subset.antisymm hSound (hAll ▸ hSub))
  · -- some vertex could go at once, and the pass takes it
    obtain ⟨v, hv, hLeft, hBare⟩ : ∃ v ∈ order, v ∉ gone ∧ Bare Edge gone v := by
      simp only [Cleared] at hCleared
      push Not at hCleared
      exact hCleared
    have hTaken : v ∈ gone' := by
      obtain ⟨turns, -, hTurns, rfl⟩ := hPass
      exact mem_prune_of_bare (hTurns v hv hLeft) hBare
    rcases h.count with hDone | hCount
    · have hOrphaned : Orphaned Edge order v := hSound v hTaken
      exact absurd (hDone ▸ hOrphaned) hLeft
    · have hMore : order.toFinset.filter (· ∈ gone) ⊂ order.toFinset.filter (· ∈ gone') := by
        refine Finset.ssubset_iff_subset_ne.mpr ⟨?_, fun hSame => ?_⟩
        · exact Finset.monotone_filter_right _ fun w _ hw => hSub hw
        · have hIn : v ∈ order.toFinset.filter (· ∈ gone') :=
            Finset.mem_filter.mpr ⟨List.mem_toFinset.mpr hv, hTaken⟩
          exact hLeft (Finset.mem_filter.mp (hSame ▸ hIn)).2
      exact .inr (hCount.trans_lt (Finset.card_lt_card hMore))

/-- As many passes as there are vertices take all orphaned ones. -/
theorem Progress.finish (h : Progress Edge order k gone) (hk : order.length ≤ k) :
    gone = {v | Orphaned Edge order v} := by
  classical
  rcases h.count with hDone | hCount
  · exact hDone
  · have hAll : order.toFinset.filter (· ∈ gone) = order.toFinset := by
      refine Finset.eq_of_subset_of_card_le (Finset.filter_subset _ _) ?_
      exact (List.toFinset_card_le order).trans (hk.trans hCount)
    refine Cleared.eq_orphaned (fun v hv hLeft => ?_) h.sound
    have hIn : v ∈ order.toFinset.filter (· ∈ gone) := by
      rw [hAll]
      exact List.mem_toFinset.mpr hv
    exact absurd (Finset.mem_filter.mp hIn).2 hLeft

end Graph
