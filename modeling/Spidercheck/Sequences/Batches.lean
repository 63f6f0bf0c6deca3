import Spidercheck.Sequences.Generator

/-! `batch`: a sequence in tuples of one size. The two loops share an iterator, and
the inner one ends in the middle of a tuple when the iterator does. -/
namespace Spidercheck

open Generator

variable {α : Type}

/-- How the inner loop ends, with the items that it has collected. -/
inductive Filled (α : Type) where
  /-- `next` raised `StopIteration`. -/
  | stopped (chunk : List α)
  /-- The range is at its end, and the iterator goes on with the rest. -/
  | full (chunk rest : List α)
  deriving DecidableEq, Repr

/-- `for i in range(size): chunk.append(next(iterable))`, with the turns that are left. -/
def fillChunk : Nat → List α → List α → Filled α
  | 0, chunk, iterable => .full chunk iterable
  | _ + 1, chunk, [] => .stopped chunk
  | i + 1, chunk, item :: iterable => fillChunk i (chunk ++ [item]) iterable

/-- A turn of the loop in `batch`. It yields nothing when the range is empty. -/
def batchTurn (size : Int) (iterable : List α) : Turn (List α) (Option (List α)) :=
  match fillChunk size.toNat [] iterable with
  | .stopped chunk => if chunk = [] then .done else .last (some chunk)
  | .full chunk rest => .next (if chunk = [] then none else some chunk) rest

/-- `batch(iterable, size)`, in a number of turns. -/
def batch (size : Int) (fuel : Nat) (iterable : List α) : Option (List (List α)) :=
  runSome (batchTurn size) fuel iterable

/-- The inner loop takes as many items as it is asked for, or all. -/
theorem fillChunk_eq (n : Nat) (chunk t : List α) : fillChunk n chunk t =
    if n ≤ t.length then .full (chunk ++ t.take n) (t.drop n) else .stopped (chunk ++ t) := by
  induction n generalizing chunk t with
  | zero => simp [fillChunk]
  | succ n ih =>
      cases t with
      | nil => simp [fillChunk]
      | cons item t => simp [fillChunk, ih]

/-- With a positive size each turn yields a slice. -/
theorem batchTurn_eq {size : Int} (h : 1 ≤ size) (t : List α) :
    batchTurn size t = (sliceTurn size.toNat t).map some := by
  rw [batchTurn, fillChunk_eq, sliceTurn]
  by_cases hEnough : size.toNat ≤ t.length
  · have hNonempty : t.take size.toNat ≠ [] := by
      intro hNil
      have hLength := congrArg List.length hNil
      rw [List.length_take, List.length_nil] at hLength
      omega
    simp [hEnough, hNonempty, Turn.map]
  · rw [if_neg hEnough, if_neg hEnough]
    by_cases hEmpty : t = [] <;> simp [hEmpty, Turn.map]

/-- `batch` yields the slices. -/
theorem batch_eq_run {size : Int} (h : 1 ≤ size) (fuel : Nat) (t : List α) :
    batch size fuel t = run (sliceTurn size.toNat) fuel t := by
  have hTurns : batchTurn size = fun t : List α => (sliceTurn size.toNat t).map some :=
    funext (batchTurn_eq h)
  rw [batch, hTurns, runSome_map_some]

/-- The loop ends for every positive size. -/
theorem exists_batch (sequence : List α) {size : Int} (h : 1 ≤ size) :
    ∃ fuel batches, batch size fuel sequence = some batches := by
  obtain ⟨batches, fuel, hRun⟩ := ends_sliceTurn (n := size.toNat) (by omega) sequence
  exact ⟨fuel, batches, by rw [batch_eq_run h, hRun]⟩

structure Batched (sequence : List α) (size : Int) (batches : List (List α)) : Prop where
  nonempty : ∀ tuple ∈ batches, tuple ≠ []
  lossless : batches.flatten = sequence
  full : ∀ tuple ∈ batches.dropLast, tuple.length = size
  last : ∀ tuple ∈ batches.getLast?, 1 ≤ tuple.length ∧ tuple.length ≤ size
  exact : ∀ k : Nat, sequence.length = k * size → batches.length = k

/-- With a positive size the generator ends. Its tuples make up the sequence, each but the
last one is full, the last one is not empty, and there are no more than are needed. -/
theorem batch_batched (sequence : List α) (size : Int) (h : 1 ≤ size) :
    (∃ fuel batches, batch size fuel sequence = some batches) ∧
      ∀ fuel batches, batch size fuel sequence = some batches → Batched sequence size batches := by
  have hSize : 1 ≤ size.toNat := by omega
  have hNat : (size.toNat : Int) = size := by omega
  refine ⟨exists_batch sequence h, fun fuel batches hRun => ?_⟩
  rw [batch_eq_run h] at hRun
  have hYields : Yields (sliceTurn size.toNat) sequence batches := ⟨fuel, hRun⟩
  have hBounds {tuple : List α} (hMem : tuple ∈ batches) := bounds_of_yields hSize hYields hMem
  refine ⟨?_, (cuts_sliceTurn size.toNat).flatten_eq hYields, ?_, ?_, ?_⟩
  · intro tuple hMem
    exact List.length_pos_iff.mp (hBounds hMem).1
  · intro tuple hMem
    rw [full_of_yields hYields hMem, hNat]
  · intro tuple hMem
    have hLast := hBounds (List.mem_of_getLast? hMem)
    omega
  · intro k hExact
    rw [← hNat] at hExact
    exact count_of_yields hSize hYields (by exact_mod_cast hExact)

theorem batch_batched_seven :
    (∃ fuel batches, batch 3 fuel [1, 2, 3, 4, 5, 6, 7] = some batches) ∧
      ∀ fuel batches, batch 3 fuel [1, 2, 3, 4, 5, 6, 7] = some batches →
        Batched [1, 2, 3, 4, 5, 6, 7] 3 batches :=
  batch_batched [1, 2, 3, 4, 5, 6, 7] 3 (by decide)

example : batch 3 3 [1, 2, 3, 4, 5, 6, 7] = some [[1, 2, 3], [4, 5, 6], [7]] := by decide

end Spidercheck
