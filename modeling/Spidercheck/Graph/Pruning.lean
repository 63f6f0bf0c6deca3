import Mathlib.Data.Set.Insert
import Mathlib.Data.List.Nodup

/-! One pass over the vertices of a directed graph, in which a vertex goes when
all edges into it start at vertices that are gone. Which vertices go depends on
the order, but only up to what could go in some order: those are the orphaned
vertices, and a pass takes all of them exactly when it leaves none that could go. -/
namespace Graph

variable {Vertex : Type} {Edge : Vertex → Vertex → Prop} {gone : Set Vertex}
  {order rest : List Vertex} {u v : Vertex}

def Bare (Edge : Vertex → Vertex → Prop) (gone : Set Vertex) (v : Vertex) : Prop :=
  ∀ u, Edge u v → u ∈ gone

open Classical in
/-- The vertices that are gone after a pass. -/
noncomputable def prune (Edge : Vertex → Vertex → Prop) (gone : Set Vertex) :
    List Vertex → Set Vertex
  | [] => gone
  | v :: rest => prune Edge (if Bare Edge gone v then insert v gone else gone) rest

theorem prune_of_bare (h : Bare Edge gone v) :
    prune Edge gone (v :: rest) = prune Edge (insert v gone) rest := by
  rw [prune, if_pos h]

theorem prune_of_not_bare (h : ¬ Bare Edge gone v) :
    prune Edge gone (v :: rest) = prune Edge gone rest := by
  rw [prune, if_neg h]

/-- A pass goes on where it was interrupted. -/
theorem prune_append : prune Edge gone (order ++ rest) = prune Edge (prune Edge gone order) rest := by
  induction order generalizing gone with
  | nil => rfl
  | cons v order ih => exact ih

/-- What holds of a vertex that goes, once it holds of all that went before, holds of all. -/
theorem prune_induct (P : Set Vertex → Prop) (hGone : P gone)
    (hStep : ∀ gone, ∀ v ∈ order, P gone → Bare Edge gone v → P (insert v gone)) :
    P (prune Edge gone order) := by
  induction order generalizing gone with
  | nil => exact hGone
  | cons v rest ih =>
      have hRest : ∀ gone, ∀ w ∈ rest, P gone → Bare Edge gone w → P (insert w gone) :=
        fun gone w hw => hStep gone w (List.mem_cons_of_mem _ hw)
      by_cases hBare : Bare Edge gone v
      · rw [prune_of_bare hBare]
        exact ih (hStep gone v (List.mem_cons_self ..) hGone hBare) hRest
      · rw [prune_of_not_bare hBare]
        exact ih hGone hRest

/-- What was gone stays gone. -/
theorem subset_prune : gone ⊆ prune Edge gone order :=
  prune_induct (gone ⊆ ·) subset_rfl fun _ v _ h _ => h.trans (Set.subset_insert v _)

theorem mem_of_prune (h : v ∈ prune Edge gone order) : v ∈ gone ∨ v ∈ order := by
  have hAll : ∀ w ∈ prune Edge gone order, w ∈ gone ∨ w ∈ order := by
    apply prune_induct (fun now => ∀ w ∈ now, w ∈ gone ∨ w ∈ order)
    · exact fun w hw => .inl hw
    · intro now v hv h _ w hw
      rcases hw with rfl | hw
      · exact .inr hv
      · exact h w hw
  exact hAll v h

def Closed (Edge : Vertex → Vertex → Prop) (gone : Set Vertex) : Prop :=
  ∀ v ∈ gone, Bare Edge gone v

theorem closed_empty : Closed Edge ∅ := fun _ hv => absurd hv (Set.notMem_empty _)

/-- An edge that starts at a vertex that is left ends at one. -/
theorem Closed.prune (h : Closed Edge gone) : Closed Edge (prune Edge gone order) := by
  apply prune_induct (Closed Edge) h
  intro now v _ hNow hBare w hw u hEdge
  rcases hw with rfl | hw
  · exact Set.mem_insert_of_mem _ (hBare u hEdge)
  · exact Set.mem_insert_of_mem _ (hNow w hw u hEdge)

/-- The vertex could go in some order of the vertices of a list: it is one of
them, and so are all that lead to it, without a cycle. -/
inductive Orphaned (Edge : Vertex → Vertex → Prop) (order : List Vertex) : Vertex → Prop where
  | intro (v : Vertex) (hv : v ∈ order) (hSources : ∀ u, Edge u v → Orphaned Edge order u) :
      Orphaned Edge order v

theorem Orphaned.mem (h : Orphaned Edge order v) : v ∈ order := by
  cases h with
  | intro _ hv _ => exact hv

/-- Who could go does not depend on the order. -/
theorem Orphaned.mono {order' : List Vertex} (h : Orphaned Edge order v) (hSub : order ⊆ order') :
    Orphaned Edge order' v := by
  induction h with
  | intro v hv _ ih => exact .intro v (hSub hv) ih

/-- Only orphaned vertices go. -/
theorem orphaned_of_prune (h : v ∈ prune Edge ∅ order) : Orphaned Edge order v := by
  have hAll : ∀ w ∈ prune Edge ∅ order, Orphaned Edge order w := by
    apply prune_induct (fun now => ∀ w ∈ now, Orphaned Edge order w)
    · exact fun w hw => absurd hw (Set.notMem_empty w)
    · intro now v hv h hBare w hw
      rcases hw with rfl | hw
      · exact .intro w hv fun u hEdge => h u (hBare u hEdge)
      · exact h w hw
  exact hAll v h

def Before (order : List Vertex) (u v : Vertex) : Prop :=
  ∃ left right, order = left ++ v :: right ∧ u ∈ left

/-- A vertex of a list without repetitions goes at its turn or never. -/
theorem mem_prune_iff {left right : List Vertex} (hNodup : (left ++ v :: right).Nodup) :
    v ∈ prune Edge ∅ (left ++ v :: right) ↔ Bare Edge (prune Edge ∅ left) v := by
  obtain ⟨-, hRight, hDisjoint⟩ := List.nodup_append.mp hNodup
  have hLeft : v ∉ prune Edge ∅ left := by
    intro hGone
    rcases mem_of_prune hGone with hEmpty | hMem
    · exact hEmpty
    · exact hDisjoint v hMem v (List.mem_cons_self ..) rfl
  rw [prune_append]
  by_cases hBare : Bare Edge (prune Edge ∅ left) v
  · rw [prune_of_bare hBare]
    exact iff_of_true (subset_prune (Set.mem_insert v _)) hBare
  · rw [prune_of_not_bare hBare]
    refine iff_of_false (fun hGone => ?_) hBare
    rcases mem_of_prune hGone with hGone | hMem
    · exact hLeft hGone
    · exact (List.nodup_cons.mp hRight).1 hMem

/-- What goes in the whole pass and stands in its first part goes in that part. -/
theorem mem_prune_left {left right : List Vertex} (hNodup : (left ++ right).Nodup) (hLeft : u ∈ left)
    (h : u ∈ prune Edge ∅ (left ++ right)) : u ∈ prune Edge ∅ left := by
  rw [prune_append] at h
  rcases mem_of_prune h with hGone | hRight
  · exact hGone
  · exact absurd rfl ((List.nodup_append.mp hNodup).2.2 u hLeft u hRight)

/-- A pass in which all edges between orphaned vertices lead to later ones takes all of them. -/
theorem mem_prune_of_before (hNodup : order.Nodup)
    (hBefore : ∀ u v, Edge u v → Orphaned Edge order v → Before order u v)
    (h : Orphaned Edge order v) : v ∈ prune Edge ∅ order := by
  induction h with
  | intro v hv hSources ih =>
      obtain ⟨left, right, rfl⟩ := List.append_of_mem hv
      refine (mem_prune_iff hNodup).mpr fun u hEdge => ?_
      obtain ⟨left', right', hSplit, hu⟩ := hBefore u v hEdge (.intro v hv hSources)
      have hGone := ih u hEdge
      rw [hSplit] at hGone
      obtain ⟨-, hRight, hDisjoint⟩ := List.nodup_append.mp hNodup
      have hNotLeft : v ∉ left := fun hMem => hDisjoint v hMem v (List.mem_cons_self ..) rfl
      have hNotRight : v ∉ right := (List.nodup_cons.mp hRight).1
      have hSame : left = left' :=
        ((List.append_cons_inj_of_notMem hNotLeft hNotRight).mp hSplit).1
      exact hSame ▸ mem_prune_left (hSplit ▸ hNodup) hu hGone

/-- Every vertex of the pass that is left has an edge from one that is left. -/
def Cleared (Edge : Vertex → Vertex → Prop) (order : List Vertex) (gone : Set Vertex) : Prop :=
  ∀ v ∈ order, v ∉ gone → ∃ u, Edge u v ∧ u ∉ gone

/-- A pass leaves nothing that could go exactly when every edge into an orphaned
vertex comes from a vertex with an earlier turn. -/
theorem cleared_prune_iff (hNodup : order.Nodup) : Cleared Edge order (prune Edge ∅ order) ↔
    ∀ u v, Edge u v → Orphaned Edge order v → Before order u v := by
  constructor
  · intro hCleared u v hEdge hv
    have hAll : ∀ w, Orphaned Edge order w → w ∈ prune Edge ∅ order := by
      intro w hw
      induction hw with
      | intro w hw _ ih =>
          by_contra hLeft
          obtain ⟨x, hEdge, hx⟩ := hCleared w hw hLeft
          exact hx (ih x hEdge)
    have hGone := hAll v hv
    obtain ⟨left, right, rfl⟩ := List.append_of_mem hv.mem
    have hSource := (mem_prune_iff hNodup).mp hGone u hEdge
    rcases mem_of_prune hSource with hEmpty | hMem
    · exact absurd hEmpty (Set.notMem_empty u)
    · exact ⟨left, right, rfl, hMem⟩
  · intro hBefore v hv hLeft
    by_contra hNone
    push Not at hNone
    apply hLeft
    apply mem_prune_of_before hNodup hBefore
    exact .intro v hv fun u hEdge => orphaned_of_prune (hNone u hEdge)

/-- Then the pass takes the orphaned vertices and no others. -/
theorem prune_eq_orphaned (hNodup : order.Nodup)
    (hBefore : ∀ u v, Edge u v → Orphaned Edge order v → Before order u v) :
    prune Edge ∅ order = {v | Orphaned Edge order v} :=
  Set.Subset.antisymm (fun _ => orphaned_of_prune) fun _ => mem_prune_of_before hNodup hBefore

end Graph
