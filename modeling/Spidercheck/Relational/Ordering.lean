import Mathlib.Data.List.Sort

/-! Rows in the order of a key. Rows with equal keys stay in the order in which
they are stored. -/
namespace Relational

variable {Row Key : Type} [LinearOrder Key] {key : Row → Key} {p : Row → Bool} {row : Row} {rows : List Row}

def orderBy (key : Row → Key) (rows : List Row) : List Row :=
  rows.insertionSort fun a b => key a ≤ key b

instance totalKey : Std.Total fun a b : Row => key a ≤ key b := ⟨fun a b => le_total (key a) (key b)⟩

instance transKey : IsTrans Row fun a b => key a ≤ key b := ⟨fun _ _ _ => le_trans⟩

theorem mem_orderBy : row ∈ orderBy key rows ↔ row ∈ rows := List.mem_insertionSort _

theorem orderBy_cons : orderBy key (row :: rows) =
    (orderBy key rows).orderedInsert (fun a b => key a ≤ key b) row := rfl

theorem orderedInsert_of_le (h : ∀ other ∈ rows, key row ≤ key other) :
    rows.orderedInsert (fun a b => key a ≤ key b) row = row :: rows := by
  cases rows with
  | nil => rfl
  | cons other rows => exact List.orderedInsert_cons_of_le _ rows (h other (List.mem_cons_self ..))

/-- A row that is left out leaves the others as they are. -/
theorem filter_orderedInsert (h : rows.Pairwise fun a b => key a ≤ key b) :
    (rows.orderedInsert (fun a b => key a ≤ key b) row).filter p =
      if p row then (rows.filter p).orderedInsert (fun a b => key a ≤ key b) row else rows.filter p := by
  induction rows with
  | nil => cases hRow : p row <;> simp [hRow]
  | cons other rows ih =>
      obtain ⟨hFirst, hSorted⟩ := List.pairwise_cons.mp h
      by_cases hLe : key row ≤ key other
      · rw [List.orderedInsert_cons_of_le _ rows hLe, List.filter_cons]
        split
        · rw [orderedInsert_of_le]
          intro later hLater
          rcases List.mem_cons.mp (List.mem_filter.mp hLater).1 with rfl | hLater
          · exact hLe
          · exact le_trans hLe (hFirst later hLater)
        · rfl
      · rw [List.orderedInsert_of_not_le _ rows hLe, List.filter_cons, ih hSorted, List.filter_cons]
        cases hRow : p row <;> cases hOther : p other
        all_goals simp [hLe]

/-- The rows come in the order of the key. -/
theorem sorted_orderBy : (orderBy key rows).Pairwise fun a b => key a ≤ key b :=
  List.pairwise_insertionSort _ rows

/-- Rows may be selected before they are ordered or after that. -/
theorem filter_orderBy : (orderBy key rows).filter p = orderBy key (rows.filter p) := by
  induction rows with
  | nil => rfl
  | cons row rows ih =>
      rw [orderBy_cons, filter_orderedInsert sorted_orderBy, List.filter_cons, ih]
      split
      · rw [orderBy_cons]
      · rfl

end Relational
