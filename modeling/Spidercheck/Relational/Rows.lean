import Mathlib.Data.List.Basic
import Mathlib.Data.List.Nodup
import Mathlib.Tactic.Common

/-! Tables as lists of rows with a key. A table is keyed when no two rows have
the same key; then a row can be looked up, replaced and removed by its key. -/
namespace Relational

variable {Row Key : Type} {key : Row → Key} {rows : List Row} {row other : Row} {k : Key}

def Keyed (key : Row → Key) (rows : List Row) : Prop := (rows.map key).Nodup

/-- Rows with one key are one row. -/
theorem Keyed.eq (h : Keyed key rows) (hRow : row ∈ rows) (hOther : other ∈ rows)
    (hKey : key row = key other) : row = other :=
  List.inj_on_of_nodup_map h hRow hOther hKey

theorem Keyed.filter (h : Keyed key rows) (p : Row → Bool) : Keyed key (rows.filter p) :=
  h.sublist (List.filter_sublist.map key)

theorem Keyed.append_singleton (h : Keyed key rows) (hNew : ∀ r ∈ rows, key r ≠ key row) :
    Keyed key (rows ++ [row]) := by
  rw [Keyed, List.map_append, List.nodup_append]
  refine ⟨h, by simp, ?_⟩
  intro a ha b hb
  obtain ⟨r, hr, rfl⟩ := List.mem_map.mp ha
  obtain rfl : b = key row := by simpa using hb
  exact hNew r hr

section Lookup
variable [DecidableEq Key]

instance : Decidable (Keyed key rows) := inferInstanceAs (Decidable (rows.map key).Nodup)

def lookup (key : Row → Key) (k : Key) (rows : List Row) : Option Row :=
  rows.find? fun r => key r = k

/-- `UPDATE … WHERE key = …`: put `row` in the place of the row with its key. -/
def replace (key : Row → Key) (row : Row) (rows : List Row) : List Row :=
  rows.map fun r => if key r = key row then row else r

/-- A row is found under its key. -/
theorem Keyed.lookup_eq (h : Keyed key rows) (hRow : row ∈ rows) :
    lookup key (key row) rows = some row := by
  cases hFind : lookup key (key row) rows with
  | none => simpa using List.find?_eq_none.mp hFind row hRow
  | some found =>
      have hKey : key found = key row := by simpa using List.find?_some hFind
      rw [h.eq (List.mem_of_find?_eq_some hFind) hRow hKey]

theorem mem_of_lookup (h : lookup key k rows = some row) : row ∈ rows ∧ key row = k :=
  ⟨List.mem_of_find?_eq_some h, by simpa using List.find?_some h⟩

theorem lookup_eq_none : lookup key k rows = none ↔ ∀ r ∈ rows, key r ≠ k := by
  simp [lookup]

/-- At most one row has a given key. -/
theorem Keyed.filter_eq (h : Keyed key rows) :
    rows.filter (fun r => key r = k) = (lookup key k rows).toList := by
  induction rows with
  | nil => rfl
  | cons row rest ih =>
      have hRest : Keyed key rest := List.Nodup.of_cons h
      by_cases hKey : key row = k
      · have hNone : ∀ r ∈ rest, key r ≠ k := by
          intro r hr hEq
          exact (List.nodup_cons.mp h).1 (List.mem_map.mpr ⟨r, hr, hEq.trans hKey.symm⟩)
        simpa [lookup, hKey] using hNone
      · simpa [lookup, hKey] using ih hRest

/-- Replacing a row leaves the keys as they are. -/
theorem map_key_replace : (replace key row rows).map key = rows.map key := by
  simp only [replace, List.map_map]
  apply List.map_congr_left
  intro r _
  by_cases h : key r = key row <;> simp [h]

theorem Keyed.replace (h : Keyed key rows) : Keyed key (replace key row rows) := by
  rw [Keyed, map_key_replace]
  exact h

/-- The rows after a replacement. -/
theorem mem_replace :
    other ∈ replace key row rows ↔
      (other = row ∧ ∃ r ∈ rows, key r = key row) ∨ (other ∈ rows ∧ key other ≠ key row) := by
  simp only [Relational.replace, List.mem_map]
  constructor
  · rintro ⟨r, hr, rfl⟩
    by_cases h : key r = key row
    · exact .inl ⟨by simp [h], r, hr, h⟩
    · exact .inr (by simpa [h] using hr)
  · rintro (⟨rfl, r, hr, h⟩ | ⟨hOther, h⟩)
    · exact ⟨r, hr, by simp [h]⟩
    · exact ⟨other, hOther, by simp [h]⟩

/-- What all rows have stays so when the row that replaces one of them has it. -/
theorem forall_mem_replace {P : Row → Prop} (h : ∀ r ∈ rows, P r)
    (hRow : ∀ r ∈ rows, key r = key row → P row) : ∀ r ∈ replace key row rows, P r := by
  intro other hOther
  rcases mem_replace.mp hOther with ⟨rfl, r, hr, hKey⟩ | ⟨hOther, -⟩
  · exact hRow r hr hKey
  · exact h other hOther

/-- A replaced row keeps another key unique when no other row has its value. -/
theorem Keyed.replace_of {Other : Type} {other : Row → Other} (hKey : Keyed key rows)
    (hOther : Keyed other rows) (hNew : ∀ r ∈ rows, key r ≠ key row → other r ≠ other row) :
    Keyed other (Relational.replace key row rows) := by
  rw [Keyed, Relational.replace, List.map_map]
  refine List.Nodup.map_on ?_ hKey.of_map
  intro a ha b hb hEq
  by_cases hKeyA : key a = key row <;> by_cases hKeyB : key b = key row
  · exact hKey.eq ha hb (hKeyA.trans hKeyB.symm)
  · exact absurd (by simpa [hKeyA, hKeyB] using hEq.symm) (hNew b hb hKeyB)
  · exact absurd (by simpa [hKeyA, hKeyB] using hEq) (hNew a ha hKeyA)
  · exact hOther.eq ha hb (by simpa [hKeyA, hKeyB] using hEq)

/-- The last replacement of a row wins. -/
theorem replace_replace (h : key other = key row) :
    replace key row (replace key other rows) = replace key row rows := by
  simp only [Relational.replace, List.map_map]
  refine List.map_congr_left fun r _ => ?_
  by_cases hKey : key r = key other
  · simp [hKey, h]
  · simp [hKey, h ▸ hKey]

/-- A selection does not see a replacement inside what it leaves out. -/
theorem filter_replace {p : Row → Bool} (hRow : p row = false)
    (h : ∀ r ∈ rows, key r = key row → p r = false) :
    (replace key row rows).filter p = rows.filter p := by
  induction rows with
  | nil => rfl
  | cons r rest ih =>
      have hRest := ih fun r' hr' => h r' (List.mem_cons_of_mem _ hr')
      by_cases hKey : key r = key row
      · have hOut : p r = false := h r (List.mem_cons_self ..) hKey
        simpa [Relational.replace, hKey, hRow, hOut] using hRest
      · cases hIn : p r with
        | true => simpa [Relational.replace, hKey, hIn] using hRest
        | false => simpa [Relational.replace, hKey, hIn] using hRest

end Lookup

/-- A selection does not see a deletion outside of it. -/
theorem filter_filter_of {p keep : Row → Bool} (h : ∀ r ∈ rows, p r = true → keep r = true) :
    (rows.filter keep).filter p = rows.filter p := by
  rw [List.filter_filter]
  refine List.filter_congr fun r hr => ?_
  cases hIn : p r with
  | true => simp [h r hr hIn]
  | false => simp

/-- A selection does not see a new row outside of it. -/
theorem filter_append_singleton (p : Row → Bool) (hRow : p row = false) :
    (rows ++ [row]).filter p = rows.filter p := by
  simp [hRow]

end Relational
