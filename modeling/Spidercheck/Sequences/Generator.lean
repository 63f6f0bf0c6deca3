import Mathlib.Data.List.Infix

/-! Generators: a loop that yields an item in each turn. A loop that needs more turns
than it is given has no result, so that one that goes on for ever has none at all. -/
namespace Generator

variable {State Item : Type}

/-- What one turn of the loop does. -/
inductive Turn (State Item : Type) where
  | done
  | last (item : Item)
  | next (item : Item) (state : State)
  deriving DecidableEq, Repr

def run (turn : State → Turn State Item) : ℕ → State → Option (List Item)
  | 0, _ => none
  | fuel + 1, s => match turn s with
    | .done => some []
    | .last item => some [item]
    | .next item s' => (run turn fuel s').map (item :: ·)

def Yields (turn : State → Turn State Item) (s : State) (items : List Item) : Prop :=
  ∃ fuel, run turn fuel s = some items

def Ends (turn : State → Turn State Item) (s : State) : Prop := ∃ items, Yields turn s items

section Rules
variable {turn : State → Turn State Item} {s s' : State} {item : Item} {items items' : List Item}

theorem Yields.of_done (h : turn s = .done) : Yields turn s [] := ⟨1, by rw [run, h]⟩

theorem Yields.of_last (h : turn s = .last item) : Yields turn s [item] := ⟨1, by rw [run, h]⟩

/-- The items of a turn and of the rest. -/
theorem Yields.of_next (h : turn s = .next item s') (hRest : Yields turn s' items) :
    Yields turn s (item :: items) := by
  obtain ⟨fuel, hRun⟩ := hRest
  exact ⟨fuel + 1, by simp [run, h, hRun]⟩

/-- What a generator yields begins with what its first turn yields. -/
theorem Yields.cases (h : Yields turn s items) :
    (turn s = .done ∧ items = []) ∨ (∃ item, turn s = .last item ∧ items = [item]) ∨
      ∃ item s' rest, turn s = .next item s' ∧ items = item :: rest ∧ Yields turn s' rest := by
  obtain ⟨fuel, hRun⟩ := h
  cases fuel with
  | zero => cases hRun
  | succ fuel =>
      rw [run] at hRun
      cases hTurn : turn s with
      | done =>
          rw [hTurn] at hRun
          exact .inl ⟨rfl, (Option.some.inj hRun).symm⟩
      | last item =>
          rw [hTurn] at hRun
          exact .inr (.inl ⟨item, rfl, (Option.some.inj hRun).symm⟩)
      | next item s' =>
          rw [hTurn] at hRun
          obtain ⟨rest, hRest, rfl⟩ := Option.map_eq_some_iff.mp hRun
          exact .inr (.inr ⟨item, s', rest, rfl, rfl, fuel, hRest⟩)

/-- A turn that leads back to its own state is repeated for ever. -/
theorem not_ends_of_loop (h : turn s = .next item s) : ¬ Ends turn s := by
  rintro ⟨items, fuel, hRun⟩
  induction fuel generalizing items with
  | zero => cases hRun
  | succ fuel ih =>
      rw [run, h] at hRun
      obtain ⟨rest, hRest, -⟩ := Option.map_eq_some_iff.mp hRun
      exact ih rest hRest

/-- A generator ends when each turn makes its state smaller. -/
theorem ends_of_measure (size : State → ℕ)
    (hStep : ∀ s item s', turn s = .next item s' → size s' < size s) (s : State) : Ends turn s := by
  induction hSize : size s using Nat.strong_induction_on generalizing s with
  | _ n ih =>
      cases hTurn : turn s with
      | done => exact ⟨[], .of_done hTurn⟩
      | last item => exact ⟨[item], .of_last hTurn⟩
      | next item s' =>
          obtain ⟨items, hRest⟩ := ih (size s') (hSize ▸ hStep s item s' hTurn) s' rfl
          exact ⟨item :: items, .of_next hTurn hRest⟩

end Rules

section Silent
variable {Other : Type} {turn : State → Turn State Item} {s : State}

def Turn.map (f : Item → Other) : Turn State Item → Turn State Other
  | .done => .done
  | .last item => .last (f item)
  | .next item s => .next (f item) s

/-- The items of a loop that may yield none in a turn. -/
def runSome (turn : State → Turn State (Option Item)) (fuel : ℕ) (s : State) : Option (List Item) :=
  (run turn fuel s).map fun items => items.filterMap id

/-- Mapping the items of the turns maps those of the run. -/
theorem run_map (f : Item → Other) (fuel : ℕ) (s : State) :
    run (fun s => (turn s).map f) fuel s = (run turn fuel s).map (List.map f) := by
  induction fuel generalizing s with
  | zero => rfl
  | succ fuel ih =>
      rw [run, run]
      cases turn s with
      | done => rfl
      | last item => rfl
      | next item s' =>
          show (run (fun s => (turn s).map f) fuel s').map (f item :: ·) = _
          rw [ih, Option.map_map, Option.map_map]
          rfl

/-- A loop that yields an item in each turn. -/
theorem runSome_map_some (fuel : ℕ) (s : State) :
    runSome (fun s => (turn s).map some) fuel s = run turn fuel s := by
  rw [runSome, run_map, Option.map_map]
  simp [Function.comp_def, List.filterMap_map]

end Silent

section Pieces
variable {α : Type} {turn : List α → Turn (List α) (List α)} {t more : List α} {pieces pieces' : List (List α)}

/-- Each turn takes its piece from the front and leaves the rest; the last one takes all. -/
structure Cuts (turn : List α → Turn (List α) (List α)) : Prop where
  done : ∀ t, turn t = .done → t = []
  last : ∀ t piece, turn t = .last piece → piece = t
  next : ∀ t piece rest, turn t = .next piece rest → t = piece ++ rest

/-- The pieces make up the list. -/
theorem Cuts.flatten_eq (hCuts : Cuts turn) (h : Yields turn t pieces) : pieces.flatten = t := by
  induction pieces generalizing t with
  | nil =>
      obtain ⟨hTurn, -⟩ | ⟨_, -, hItems⟩ | ⟨_, _, _, -, hItems, -⟩ := h.cases
      · exact (hCuts.done t hTurn).symm
      · cases hItems
      · cases hItems
  | cons piece pieces ih =>
      obtain ⟨-, hItems⟩ | ⟨_, hTurn, hItems⟩ | ⟨_, _, _, hTurn, hItems, hRest⟩ := h.cases
      · cases hItems
      · cases hItems
        simpa using hCuts.last t _ hTurn
      · cases hItems
        rw [List.flatten_cons, ih hRest, ← hCuts.next t _ _ hTurn]

/-- A piece that is followed by others was taken in a turn from what was left. -/
theorem Cuts.turn_of_mem (hCuts : Cuts turn) {front back : List (List α)} {piece : List α}
    (h : Yields turn t (front ++ piece :: back)) :
    turn (piece ++ back.flatten) = .next piece back.flatten ∨ (turn piece = .last piece ∧ back = []) := by
  induction front generalizing t with
  | nil =>
      obtain ⟨-, hItems⟩ | ⟨_, hTurn, hItems⟩ | ⟨_, _, _, hTurn, hItems, hRest⟩ := h.cases
      · cases hItems
      · cases hItems
        obtain rfl := hCuts.last t _ hTurn
        exact .inr ⟨hTurn, rfl⟩
      · cases hItems
        rw [hCuts.flatten_eq hRest, ← hCuts.next t _ _ hTurn]
        exact .inl hTurn
  | cons first front ih =>
      obtain ⟨-, hItems⟩ | ⟨_, -, hItems⟩ | ⟨_, _, _, -, hItems, hRest⟩ := h.cases
      · cases hItems
      · simp at hItems
      · cases hItems
        exact ih hRest

/-- All pieces but the last are followed by others. -/
theorem exists_of_mem_dropLast {piece : List α} (h : piece ∈ pieces.dropLast) :
    ∃ front back, pieces = front ++ piece :: back ∧ back ≠ [] := by
  obtain ⟨front, back, hSplit⟩ := List.append_of_mem h
  have hNonempty : pieces ≠ [] := by
    rintro rfl
    cases h
  refine ⟨front, back ++ [pieces.getLast hNonempty], ?_, by simp⟩
  rw [← List.cons_append, ← List.append_assoc, ← hSplit, List.dropLast_append_getLast]

/-- More text behind the list leaves the turns as they are. -/
def Stable (turn : List α → Turn (List α) (List α)) : Prop :=
  ∀ t piece rest more, turn t = .next piece rest → turn (t ++ more) = .next piece (rest ++ more)

/-- All pieces but the last are pieces of every longer list. -/
theorem Stable.dropLast_isPrefix (hStable : Stable turn) (h : Yields turn t pieces)
    (h' : Yields turn (t ++ more) pieces') : pieces.dropLast <+: pieces' := by
  induction pieces generalizing t pieces' with
  | nil => exact List.nil_prefix
  | cons piece pieces ih =>
      obtain ⟨-, hItems⟩ | ⟨_, -, hItems⟩ | ⟨_, rest, _, hTurn, hItems, hRest⟩ := h.cases
      · cases hItems
      · cases hItems
        exact List.nil_prefix
      · cases hItems
        have hTurn' := hStable t piece rest more hTurn
        obtain ⟨hDone, -⟩ | ⟨_, hLast, -⟩ | ⟨_, _, _, hNext, rfl, hRest'⟩ := h'.cases
        · cases hDone.symm.trans hTurn'
        · cases hLast.symm.trans hTurn'
        · cases hNext.symm.trans hTurn'
          cases pieces with
          | nil => exact List.nil_prefix
          | cons second pieces =>
              rw [List.dropLast_cons_of_ne_nil (List.cons_ne_nil _ _), List.prefix_cons_inj]
              exact ih hRest hRest'

end Pieces

section Slices
variable {α : Type} {t piece rest : List α} {pieces : List (List α)} {n : ℕ}

/-- The first items of a list, as long as there are enough, and then the rest. -/
def sliceTurn (n : ℕ) (t : List α) : Turn (List α) (List α) :=
  if n ≤ t.length then .next (t.take n) (t.drop n) else if t = [] then .done else .last t

/-- The three things that a turn can do. -/
theorem sliceTurn_cases (n : ℕ) (t : List α) :
    (n ≤ t.length ∧ sliceTurn n t = .next (t.take n) (t.drop n)) ∨
    (t.length < n ∧ t = [] ∧ sliceTurn n t = .done) ∨ (t.length < n ∧ t ≠ [] ∧ sliceTurn n t = .last t) := by
  unfold sliceTurn
  by_cases hEnough : n ≤ t.length
  · exact .inl ⟨hEnough, if_pos hEnough⟩
  · have hShort := Nat.lt_of_not_le hEnough
    by_cases hEmpty : t = []
    · exact .inr (.inl ⟨hShort, hEmpty, by rw [if_neg hEnough, if_pos hEmpty]⟩)
    · exact .inr (.inr ⟨hShort, hEmpty, by rw [if_neg hEnough, if_neg hEmpty]⟩)

theorem next_of_sliceTurn (h : sliceTurn n t = .next piece rest) :
    n ≤ t.length ∧ piece = t.take n ∧ rest = t.drop n := by
  obtain ⟨hEnough, hNext⟩ | ⟨-, -, hDone⟩ | ⟨-, -, hLast⟩ := sliceTurn_cases n t
  · cases h.symm.trans hNext
    exact ⟨hEnough, rfl, rfl⟩
  · cases h.symm.trans hDone
  · cases h.symm.trans hLast

theorem last_of_sliceTurn (h : sliceTurn n t = .last piece) : t.length < n ∧ t ≠ [] ∧ piece = t := by
  obtain ⟨-, hNext⟩ | ⟨-, -, hDone⟩ | ⟨hShort, hNonempty, hLast⟩ := sliceTurn_cases n t
  · cases h.symm.trans hNext
  · cases h.symm.trans hDone
  · cases h.symm.trans hLast
    exact ⟨hShort, hNonempty, rfl⟩

theorem cuts_sliceTurn (n : ℕ) : Cuts (sliceTurn n : List α → Turn (List α) (List α)) where
  done t h := by
    obtain ⟨-, hNext⟩ | ⟨-, hEmpty, -⟩ | ⟨-, -, hLast⟩ := sliceTurn_cases n t
    · cases h.symm.trans hNext
    · exact hEmpty
    · cases h.symm.trans hLast
  last _ _ h := (last_of_sliceTurn h).2.2
  next t piece rest h := by
    obtain ⟨-, rfl, rfl⟩ := next_of_sliceTurn h
    exact (List.take_append_drop n t).symm

theorem ends_sliceTurn (hSize : 1 ≤ n) (t : List α) : Ends (sliceTurn n) t := by
  refine ends_of_measure List.length (fun t piece rest h => ?_) t
  obtain ⟨hEnough, -, rfl⟩ := next_of_sliceTurn h
  rw [List.length_drop]
  omega

/-- A slice that others follow is full, and the last one is full or what was left. -/
theorem length_of_yields {front back : List (List α)}
    (h : Yields (sliceTurn n) t (front ++ piece :: back)) :
    piece.length = n ∨ (piece.length < n ∧ piece ≠ [] ∧ back = []) := by
  obtain hNext | ⟨hLast, hBack⟩ := (cuts_sliceTurn n).turn_of_mem h
  · left
    obtain ⟨hEnough, hPiece, -⟩ := next_of_sliceTurn hNext
    rw [hPiece, List.length_take, Nat.min_eq_left hEnough]
  · obtain ⟨hShort, hNonempty, -⟩ := last_of_sliceTurn hLast
    exact .inr ⟨hShort, hNonempty, hBack⟩

theorem bounds_of_yields (hSize : 1 ≤ n) (h : Yields (sliceTurn n) t pieces) (hMem : piece ∈ pieces) :
    1 ≤ piece.length ∧ piece.length ≤ n := by
  obtain ⟨front, back, rfl⟩ := List.append_of_mem hMem
  obtain hFull | ⟨hShort, hNonempty, -⟩ := length_of_yields h
  · omega
  · exact ⟨List.length_pos_iff.mpr hNonempty, hShort.le⟩

theorem full_of_yields (h : Yields (sliceTurn n) t pieces) (hMem : piece ∈ pieces.dropLast) :
    piece.length = n := by
  obtain ⟨front, back, rfl, hBack⟩ := exists_of_mem_dropLast hMem
  obtain hFull | ⟨-, -, hNil⟩ := length_of_yields h
  · exact hFull
  · exact absurd hNil hBack

theorem length_flatten_of_full (h : ∀ piece ∈ pieces, piece.length = n) :
    pieces.flatten.length = pieces.length * n := by
  induction pieces with
  | nil => simp
  | cons piece pieces ih =>
      have hRest := ih fun other hOther => h other (List.mem_cons_of_mem piece hOther)
      rw [List.flatten_cons, List.length_append, h piece (List.mem_cons_self ..), hRest, List.length_cons,
        Nat.succ_mul, Nat.add_comm]

/-- There are no more slices than are needed. -/
theorem count_of_yields {k : ℕ} (hSize : 1 ≤ n) (h : Yields (sliceTurn n) t pieces)
    (hExact : t.length = k * n) : pieces.length = k := by
  rw [← (cuts_sliceTurn n).flatten_eq h] at hExact
  rcases List.eq_nil_or_concat' pieces with rfl | ⟨front, piece, rfl⟩
  · have hZero : 0 = k * n := hExact
    rcases Nat.mul_eq_zero.mp hZero.symm with hNone | hNone
    · exact hNone.symm
    · omega
  · have hMem : piece ∈ front ++ [piece] := by simp
    obtain ⟨hPositive, hFits⟩ := bounds_of_yields hSize h hMem
    have hFront : front.flatten.length = front.length * n :=
      length_flatten_of_full fun first hFirst => full_of_yields h (by simpa using hFirst)
    rw [List.flatten_append, List.length_append, hFront, List.flatten_singleton] at hExact
    -- the last slice holds at least one item and at most as many as the size
    have hLower : front.length < k := by
      apply Nat.lt_of_mul_lt_mul_right (a := n)
      omega
    have hUpper : k ≤ front.length + 1 := by
      apply Nat.le_of_mul_le_mul_right (c := n) _ hSize
      rw [Nat.succ_mul]
      omega
    rw [List.length_append, List.length_singleton]
    omega

end Slices

end Generator
