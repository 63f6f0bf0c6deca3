import Spidercheck.Graph.Exploration
import Spidercheck.Graph.Pruning
import Mathlib.Data.Fintype.Card

/-! What is kept for ever. Taking vertices by the edges into them alone is as good
as looking for those that nothing outside leads to, but for cycles: no cycle goes,
nor what can be reached from one. -/
namespace Graph

variable {Vertex : Type} {Edge : Vertex → Vertex → Prop} {order : List Vertex} {u v : Vertex}

def Anchor (Edge : Vertex → Vertex → Prop) (order : List Vertex) (u : Vertex) : Prop :=
  u ∉ order ∨ Relation.TransGen Edge u u

/-- All that leads to an orphaned vertex is orphaned. -/
theorem Orphaned.of_path (h : Orphaned Edge order v) (hPath : Relation.ReflTransGen Edge u v) :
    Orphaned Edge order u := by
  induction hPath using Relation.ReflTransGen.head_induction_on with
  | refl => exact h
  | head hEdge _ ih =>
      cases ih with
      | intro _ _ hSources => exact hSources _ hEdge

/-- An orphan lies on no cycle. -/
theorem Orphaned.not_cycle (h : Orphaned Edge order v) : ¬ Relation.TransGen Edge v v := by
  induction h with
  | intro v _ _ ih =>
      -- the last vertex of a cycle before `v` lies on a cycle too
      intro hCycle
      obtain ⟨u, hPath, hEdge⟩ := Relation.TransGen.tail'_iff.mp hCycle
      exact ih u hEdge (.head' hEdge hPath)

/-- An orphan is no anchor. -/
theorem Orphaned.not_anchor (h : Orphaned Edge order v) : ¬ Anchor Edge order v := by
  rintro (hOut | hCycle)
  · exact hOut h.mem
  · exact h.not_cycle hCycle

/-- Without cycles the finitely many vertices that lead to one can be put in order. -/
theorem orphaned_of_not_anchor (h : ∀ u, Relation.ReflTransGen Edge u v → ¬ Anchor Edge order u) :
    Orphaned Edge order v := by
  let Above := {u // Relation.ReflTransGen Edge u v}
  let Earlier : Above → Above → Prop := fun u w => Relation.TransGen Edge u w
  have hFinite : Finite Above := by
    refine Set.Finite.to_subtype (order.finite_toSet.subset fun u hu => ?_)
    exact not_not.mp fun hOut => h u hu (.inl hOut)
  have hTrans : IsTrans Above Earlier := ⟨fun _ _ _ => Relation.TransGen.trans⟩
  have hIrrefl : Std.Irrefl Earlier := ⟨fun u hCycle => h u u.2 (.inr hCycle)⟩
  have hAll : ∀ w : Above, Orphaned Edge order w := by
    intro w
    induction w using (Finite.wellFounded_of_trans_of_irrefl Earlier).induction with
    | _ w ih =>
        have hIn : (w : Vertex) ∈ order := not_not.mp fun hOut => h w w.2 (.inl hOut)
        refine Orphaned.intro w.val hIn fun u hEdge => ?_
        exact ih ⟨u, .head hEdge w.2⟩ (.single hEdge)
  exact hAll ⟨v, .refl⟩

/-- The vertices that are not orphaned are those that can be reached from an anchor. -/
theorem not_orphaned_iff (Edge : Vertex → Vertex → Prop) (order : List Vertex) (v : Vertex) :
    ¬ Orphaned Edge order v ↔ v ∈ Reach Edge {u | Anchor Edge order u} := by
  constructor
  · intro hLeft
    by_contra hNone
    exact hLeft (orphaned_of_not_anchor fun u hPath hAnchor => hNone ⟨u, hAnchor, hPath⟩)
  · rintro ⟨u, hAnchor, hPath⟩ hOrphaned
    exact (hOrphaned.of_path hPath).not_anchor hAnchor

end Graph
