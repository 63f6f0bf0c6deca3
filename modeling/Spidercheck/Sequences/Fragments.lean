import Spidercheck.Sequences.Generator
import Spidercheck.Text.Basic

/-! `text_as_fragments`: a text in pieces of similar sizes, cut at the ends of lines
or at blanks where there are some. -/
namespace Spidercheck

open Text Generator

/-- Where an index of Python points in a text of that length: negative ones count from the end. -/
def clampIndex (length : Nat) (i : Int) : Nat :=
  min (if i < 0 then i + length else i).toNat length

def sliceTo (text : Str) (idx : Int) : Str := text.take (clampIndex text.length idx)

def sliceFrom (text : Str) (idx : Int) : Str := text.drop (clampIndex text.length idx)

/-- Where a search begins: negative starts count from the end, but not beyond the front. -/
def searchStart (length : Nat) (start : Int) : Nat := (if start < 0 then start + length else start).toNat

def findFrom (text : Str) (c : Char) (start : Int) : Int :=
  match (text.drop (searchStart text.length start)).findIdx? (· == c) with
  | some i => searchStart text.length start + i
  | none => -1

section TextAsFragments
variable (meanBlockSize maxBlockSize : Int)

def cutIndex (text : Str) : Int :=
  let idx := findFrom text '\n' meanBlockSize
  let idx := if idx = -1 ∨ idx > maxBlockSize then findFrom text ' ' meanBlockSize else idx
  if idx = -1 ∨ idx > maxBlockSize then maxBlockSize else idx

/-- A turn of the loop in `text_as_fragments`. -/
def fragmentTurn (text : Str) : Turn Str Str :=
  if text = [] then .done
  else if text.length ≤ maxBlockSize then .last text
  else
    let idx := cutIndex meanBlockSize maxBlockSize text
    .next (sliceTo text idx) (sliceFrom text idx)

/-- `text_as_fragments`, in a number of turns. -/
def textAsFragments (fuel : Nat) (text : Str) : Option (List Str) :=
  run (fragmentTurn meanBlockSize maxBlockSize) fuel text

end TextAsFragments

section Find
variable {text : Str} {c : Char} {start : Int} {n : Nat}

/-- The place of the first such character from the start on. -/
structure FirstFrom (text : Str) (c : Char) (start n : Nat) : Prop where
  le : start ≤ n
  found : text[n]? = some c
  first : ∀ k, start ≤ k → k < n → text[k]? ≠ some c

/-- `find` gives the first place, or that there is none. -/
theorem findFrom_cases (text : Str) (c : Char) (start : Int) :
    (∃ n : Nat, findFrom text c start = n ∧ FirstFrom text c (searchStart text.length start) n) ∨
    (findFrom text c start = -1 ∧ ∀ k, searchStart text.length start ≤ k → text[k]? ≠ some c) := by
  unfold findFrom
  generalize searchStart text.length start = begin
  cases hFind : (text.drop begin).findIdx? (· == c) with
  | some i =>
      left
      obtain ⟨hLength, hFound, hFirst⟩ := List.findIdx?_eq_some_iff_getElem.mp hFind
      refine ⟨begin + i, by simp, ⟨Nat.le_add_right .., ?_, ?_⟩⟩
      · rw [← List.getElem?_drop, List.getElem?_eq_getElem hLength]
        exact congrArg some (beq_iff_eq.mp hFound)
      · intro k hStart hBefore hSame
        obtain ⟨j, rfl⟩ := Nat.exists_eq_add_of_le hStart
        have hSmall : j < i := by omega
        rw [← List.getElem?_drop, List.getElem?_eq_getElem (by omega), Option.some.injEq] at hSame
        exact hFirst j hSmall (beq_iff_eq.mpr hSame)
  | none =>
      right
      refine ⟨rfl, fun k hStart hSame => ?_⟩
      obtain ⟨j, rfl⟩ := Nat.exists_eq_add_of_le hStart
      rw [← List.getElem?_drop] at hSame
      have hNone := List.findIdx?_eq_none_iff.mp hFind c (List.mem_of_getElem? hSame)
      simp at hNone

end Find

section Cut
variable {text more : Str} {c : Char} {mean n n' : Nat} {max : Int}

def Missing (text : Str) (c : Char) (mean : Nat) (max : Int) : Prop :=
  ∀ k, mean ≤ k → k ≤ max → text[k]? ≠ some c

/-- The text is to be cut just before the first end of a line in the window,
else just before the first blank in it, else behind it. -/
def CutBefore (text : Str) (mean : Nat) (max : Int) (n : Nat) : Prop :=
  (n ≤ max ∧ FirstFrom text '\n' mean n) ∨
  (Missing text '\n' mean max ∧ n ≤ max ∧ FirstFrom text ' ' mean n) ∨
  (Missing text '\n' mean max ∧ Missing text ' ' mean max ∧ n = max)

/-- More text behind leaves the first place as it is. -/
theorem FirstFrom.append (h : FirstFrom text c mean n) : FirstFrom (text ++ more) c mean n := by
  obtain ⟨hLength, -⟩ := List.getElem?_eq_some_iff.mp h.found
  refine ⟨h.le, ?_, fun k hStart hBefore => ?_⟩
  · rw [List.getElem?_append_left hLength, h.found]
  · rw [List.getElem?_append_left (by omega)]
    exact h.first k hStart hBefore

theorem Missing.append (h : Missing text c mean max) (hLength : max < text.length) :
    Missing (text ++ more) c mean max := by
  intro k hStart hWindow
  rw [List.getElem?_append_left (by omega)]
  exact h k hStart hWindow

/-- Text behind the window does not move the cut. -/
theorem CutBefore.append (h : CutBefore text mean max n) (hLength : max < text.length) :
    CutBefore (text ++ more) mean max n := by
  rcases h with ⟨hWindow, hLine⟩ | ⟨hNoLine, hWindow, hBlank⟩ | ⟨hNoLine, hNoBlank, hMax⟩
  · exact .inl ⟨hWindow, hLine.append⟩
  · exact .inr (.inl ⟨hNoLine.append hLength, hWindow, hBlank.append⟩)
  · exact .inr (.inr ⟨hNoLine.append hLength, hNoBlank.append hLength, hMax⟩)

/-- There is one first place. -/
theorem FirstFrom.unique (h : FirstFrom text c mean n) (h' : FirstFrom text c mean n') : n = n' := by
  rcases Nat.lt_trichotomy n n' with hLess | hSame | hMore
  · exact absurd h.found (h'.first n h.le hLess)
  · exact hSame
  · exact absurd h'.found (h.first n' h'.le hMore)

theorem Missing.not_first (h : Missing text c mean max) (hWindow : n ≤ max) : ¬ FirstFrom text c mean n :=
  fun hFirst => h n hFirst.le hWindow hFirst.found

/-- There is one cut. -/
theorem CutBefore.unique (h : CutBefore text mean max n) (h' : CutBefore text mean max n') : n = n' := by
  rcases h with ⟨hWindow, hLine⟩ | ⟨hNoLine, hWindow, hBlank⟩ | ⟨hNoLine, hNoBlank, hMax⟩
  all_goals rcases h' with ⟨hWindow', hLine'⟩ | ⟨hNoLine', hWindow', hBlank'⟩ | ⟨hNoLine', hNoBlank', hMax'⟩
  · exact hLine.unique hLine'
  · exact absurd hLine (hNoLine'.not_first hWindow)
  · exact absurd hLine (hNoLine'.not_first hWindow)
  · exact absurd hLine' (hNoLine.not_first hWindow')
  · exact hBlank.unique hBlank'
  · exact absurd hBlank (hNoBlank'.not_first hWindow)
  · exact absurd hLine' (hNoLine.not_first hWindow')
  · exact absurd hBlank' (hNoBlank.not_first hWindow')
  · omega

end Cut

section Turn
variable {text more piece rest : Str} {c : Char} {mean max : Int}

/-- A search that finds nothing up to the largest size is given up. -/
theorem findFrom_window (text : Str) (c : Char) (mean max : Int) :
    (∃ n : Nat, findFrom text c mean = n ∧ n ≤ max ∧ FirstFrom text c (searchStart text.length mean) n) ∨
    ((findFrom text c mean = -1 ∨ findFrom text c mean > max) ∧
      Missing text c (searchStart text.length mean) max) := by
  obtain ⟨n, hFound, hFirst⟩ | ⟨hFound, hMissing⟩ := findFrom_cases text c mean
  · by_cases hWindow : n ≤ max
    · exact .inl ⟨n, hFound, hWindow, hFirst⟩
    · refine .inr ⟨.inr (by omega), fun k hStart hSmall => hFirst.first k hStart ?_⟩
      have hBefore := hFirst.le
      omega
  · exact .inr ⟨.inl hFound, fun k hStart _ => hMissing k hStart⟩

/-- The cut is where a search found something within the largest size, or else at this. -/
theorem cutIndex_cases (text : Str) (mean max : Int) :
    (∃ n : Nat, cutIndex mean max text = n ∧ n ≤ max ∧ searchStart text.length mean ≤ n ∧
      CutBefore text (searchStart text.length mean) max n) ∨
    (cutIndex mean max text = max ∧ Missing text '\n' (searchStart text.length mean) max ∧
      Missing text ' ' (searchStart text.length mean) max) := by
  unfold cutIndex
  obtain ⟨n, hLine, hWindow, hFirst⟩ | ⟨hLine, hNoLine⟩ := findFrom_window text '\n' mean max
  · have hKeep : ¬ ((n : Int) = -1 ∨ (n : Int) > max) := by omega
    left
    refine ⟨n, ?_, hWindow, hFirst.le, .inl ⟨hWindow, hFirst⟩⟩
    simp only [hLine, if_neg hKeep]
  · obtain ⟨n, hBlank, hWindow, hFirst⟩ | ⟨hBlank, hNoBlank⟩ := findFrom_window text ' ' mean max
    · have hKeep : ¬ ((n : Int) = -1 ∨ (n : Int) > max) := by omega
      left
      refine ⟨n, ?_, hWindow, hFirst.le, .inr (.inl ⟨hNoLine, hWindow, hFirst⟩)⟩
      simp only [if_pos hLine, hBlank, if_neg hKeep]
    · right
      refine ⟨?_, hNoLine, hNoBlank⟩
      simp only [if_pos hLine, if_pos hBlank]

theorem clampIndex_of_le {length n : Nat} (h : n ≤ length) : clampIndex length n = n := by
  unfold clampIndex
  split <;> omega

/-- With positive sizes the cut is the one that the sizes ask for. -/
theorem cutIndex_eq (hMean : 1 ≤ mean) (hMax : 1 ≤ max) (text : Str) :
    ∃ n : Nat, cutIndex mean max text = n ∧ 1 ≤ n ∧ n ≤ max ∧ min mean max ≤ n ∧
      CutBefore text mean.toNat max n := by
  have hStart : searchStart text.length mean = mean.toNat := by
    rw [searchStart, if_neg (by omega)]
  obtain ⟨n, hCut, hWindow, hLow, hBefore⟩ | ⟨hCut, hNoLine, hNoBlank⟩ := cutIndex_cases text mean max
  · rw [hStart] at hLow hBefore
    exact ⟨n, hCut, by omega, hWindow, by omega, hBefore⟩
  · rw [hStart] at hNoLine hNoBlank
    exact ⟨max.toNat, by omega, by omega, by omega, by omega, .inr (.inr ⟨hNoLine, hNoBlank, by omega⟩)⟩

/-- What a turn does, whatever the sizes. -/
theorem fragmentTurn_cases (text : Str) (mean max : Int) :
    (text = [] ∧ fragmentTurn mean max text = .done) ∨
    (text ≠ [] ∧ text.length ≤ max ∧ fragmentTurn mean max text = .last text) ∨
    (text ≠ [] ∧ max < text.length ∧ fragmentTurn mean max text =
      .next (sliceTo text (cutIndex mean max text)) (sliceFrom text (cutIndex mean max text))) := by
  unfold fragmentTurn
  by_cases hEmpty : text = []
  · exact .inl ⟨hEmpty, if_pos hEmpty⟩
  · by_cases hShort : text.length ≤ max
    · exact .inr (.inl ⟨hEmpty, hShort, by rw [if_neg hEmpty, if_pos hShort]⟩)
    · exact .inr (.inr ⟨hEmpty, Int.not_le.mp hShort, by rw [if_neg hEmpty, if_neg hShort]⟩)

/-- What a turn does that leaves a rest. -/
theorem next_of_fragmentTurn (h : fragmentTurn mean max text = .next piece rest) :
    max < text.length ∧ piece = sliceTo text (cutIndex mean max text) ∧
      rest = sliceFrom text (cutIndex mean max text) := by
  obtain ⟨-, hDone⟩ | ⟨-, -, hLast⟩ | ⟨-, hLong, hNext⟩ := fragmentTurn_cases text mean max
  · cases h.symm.trans hDone
  · cases h.symm.trans hLast
  · cases h.symm.trans hNext
    exact ⟨hLong, rfl, rfl⟩

/-- What the last turn does. -/
theorem last_of_fragmentTurn (h : fragmentTurn mean max text = .last piece) :
    piece = text ∧ text ≠ [] ∧ text.length ≤ max := by
  obtain ⟨-, hDone⟩ | ⟨hNonempty, hShort, hLast⟩ | ⟨-, -, hNext⟩ := fragmentTurn_cases text mean max
  · cases h.symm.trans hDone
  · cases h.symm.trans hLast
    exact ⟨rfl, hNonempty, hShort⟩
  · cases h.symm.trans hNext

/-- What a turn does that is not the last one. -/
theorem fragmentTurn_eq_next (hMean : 1 ≤ mean) (hMax : 1 ≤ max) (hLong : max < text.length) :
    ∃ n : Nat, fragmentTurn mean max text = .next (text.take n) (text.drop n) ∧
      1 ≤ n ∧ n ≤ max ∧ min mean max ≤ n ∧ CutBefore text mean.toNat max n := by
  obtain ⟨n, hCut, hPositive, hWindow, hLow, hBefore⟩ := cutIndex_eq hMean hMax text
  refine ⟨n, ?_, hPositive, hWindow, hLow, hBefore⟩
  have hNonempty : text ≠ [] := by
    rintro rfl
    simp at hLong
    omega
  have hClamp : clampIndex text.length (n : Int) = n := clampIndex_of_le (by omega)
  rw [fragmentTurn, if_neg hNonempty, if_neg (by omega)]
  simp only [hCut, sliceTo, sliceFrom, hClamp]

/-- Whatever the sizes, a fragment and what is left of the text make up the text. -/
theorem cuts_fragmentTurn (mean max : Int) : Cuts (fragmentTurn mean max) where
  done t h := by
    obtain ⟨hEmpty, -⟩ | ⟨-, -, hLast⟩ | ⟨-, -, hNext⟩ := fragmentTurn_cases t mean max
    · exact hEmpty
    · cases h.symm.trans hLast
    · cases h.symm.trans hNext
  last _ _ h := (last_of_fragmentTurn h).1
  next t piece rest h := by
    obtain ⟨-, rfl, rfl⟩ := next_of_fragmentTurn h
    exact (List.take_append_drop _ t).symm

/-- More text does not change a cut that was made. -/
theorem stable_fragmentTurn (hMean : 1 ≤ mean) (hMax : 1 ≤ max) : Stable (fragmentTurn mean max) := by
  intro t piece rest more hTurn
  have hLong := (next_of_fragmentTurn hTurn).1
  obtain ⟨n, hNext, -, hWindow, -, hBefore⟩ := fragmentTurn_eq_next hMean hMax hLong
  have hLonger : max < (t ++ more).length := by
    rw [List.length_append]
    omega
  obtain ⟨n', hNext', -, -, -, hBefore'⟩ := fragmentTurn_eq_next hMean hMax hLonger
  obtain rfl := (hBefore.append hLong).unique hBefore'
  cases hTurn.symm.trans hNext
  rw [hNext', List.take_append_of_le_length (by omega), List.drop_append_of_le_length (by omega)]

/-- A fragment that others follow. -/
theorem piece_of_next (hMean : 1 ≤ mean) (hMax : 1 ≤ max)
    (h : fragmentTurn mean max (piece ++ rest) = .next piece rest) :
    (piece ≠ [] ∧ piece.length ≤ max) ∧ min mean max ≤ piece.length ∧
      CutBefore (piece ++ rest) mean.toNat max piece.length := by
  have hLong := (next_of_fragmentTurn h).1
  obtain ⟨n, hNext, hPositive, hWindow, hLow, hBefore⟩ := fragmentTurn_eq_next hMean hMax hLong
  have hLength : piece.length = n := by
    obtain ⟨hPiece, -⟩ := Turn.next.inj (h.symm.trans hNext)
    rw [hPiece, List.length_take]
    omega
  rw [hLength]
  refine ⟨⟨?_, hWindow⟩, hLow, hBefore⟩
  rintro rfl
  rw [List.length_nil] at hLength
  omega

theorem piece_of_last (h : fragmentTurn mean max text = .last piece) : piece ≠ [] ∧ piece.length ≤ max := by
  obtain ⟨rfl, hNonempty, hShort⟩ := last_of_fragmentTurn h
  exact ⟨hNonempty, hShort⟩

end Turn

section Ends
variable {text piece rest : Str} {mean max : Int}

/-- The sizes with which each turn takes something from the text. -/
def Progressive (mean max : Int) : Prop := 1 ≤ max ∧ (1 ≤ mean ∨ mean < 0 ∧ -mean ≤ max)

/-- With progressive sizes the rest is shorter. -/
theorem length_rest (hSizes : Progressive mean max) (h : fragmentTurn mean max text = .next piece rest) :
    rest.length < text.length := by
  obtain ⟨hLong, -, rfl⟩ := next_of_fragmentTurn h
  obtain ⟨hMax, hMean⟩ := hSizes
  have hStart : 1 ≤ searchStart text.length mean := by
    unfold searchStart
    split <;> omega
  have hCut : 1 ≤ cutIndex mean max text := by
    obtain ⟨n, hCut, -, hLow, -⟩ | ⟨hCut, -⟩ := cutIndex_cases text mean max
    · omega
    · omega
  have hClamp : 1 ≤ clampIndex text.length (cutIndex mean max text) := by
    unfold clampIndex
    split <;> omega
  rw [sliceFrom, List.length_drop]
  omega

/-- With progressive sizes the loop ends. -/
theorem ends_of_progressive (hSizes : Progressive mean max) (text : Str) :
    Ends (fragmentTurn mean max) text :=
  ends_of_measure List.length (fun _ _ _ h => length_rest hSizes h) text

/-- A cut at the front leaves the text as it is. -/
theorem not_ends_of_front (hText : text ≠ []) (hLong : max < text.length)
    (hCut : clampIndex text.length (cutIndex mean max text) = 0) : ¬ Ends (fragmentTurn mean max) text := by
  have hLoop : fragmentTurn mean max text = .next [] text := by
    rw [fragmentTurn, if_neg hText, if_neg (by omega)]
    simp only [sliceTo, sliceFrom, hCut, List.take_zero, List.drop_zero]
  exact not_ends_of_loop hLoop

/-- With an empty window it does not. -/
theorem not_ends_of_empty_window (hMax : max ≤ 0) : ¬ Ends (fragmentTurn mean max) "x" := by
  apply not_ends_of_front (by decide)
  · show max < (1 : Int)
    omega
  · show clampIndex 1 (cutIndex mean max "x") = 0
    obtain ⟨n, hCut, hWindow, -, -⟩ | ⟨hCut, -⟩ := cutIndex_cases "x" mean max
    · obtain rfl : n = 0 := by omega
      rw [hCut]
      rfl
    · rw [hCut, clampIndex]
      split <;> omega

/-- A search that begins at the front finds the end of an empty line there. -/
theorem not_ends_of_lines {lines : Nat} (hLong : max < lines) (hMax : 0 ≤ max)
    (hStart : searchStart lines mean = 0) :
    ¬ Ends (fragmentTurn mean max) (List.replicate lines '\n') := by
  have hSome : 0 < lines := by omega
  have hFound : (List.replicate lines '\n')[0]? = some '\n' := by
    rw [List.getElem?_replicate, if_pos hSome]
  have hFront : CutBefore (List.replicate lines '\n') 0 max 0 :=
    .inl ⟨hMax, Nat.le_refl 0, hFound, fun k _ hk => absurd hk (Nat.not_lt_zero k)⟩
  have hCuts := cutIndex_cases (List.replicate lines '\n') mean max
  rw [List.length_replicate, hStart] at hCuts
  apply not_ends_of_front
  · intro hNil
    simp [hNil] at hFound
  · rwa [List.length_replicate]
  · obtain ⟨n, hCut, -, -, hBefore⟩ | ⟨-, hNoLine, -⟩ := hCuts
    · obtain rfl := hBefore.unique hFront
      rw [hCut]
      exact clampIndex_of_le (Nat.zero_le _)
    · exact absurd hFound (hNoLine 0 (Nat.le_refl 0) hMax)

end Ends

/-- `text_as_fragments` ends on every text exactly for these sizes. -/
theorem textAsFragments_ends_iff (mean max : Int) :
    (∀ text, ∃ fragments fuel, textAsFragments mean max fuel text = some fragments) ↔
      1 ≤ max ∧ (1 ≤ mean ∨ mean < 0 ∧ -mean ≤ max) := by
  constructor
  · intro hEnds
    have hMax : 1 ≤ max := by
      by_contra hNot
      exact not_ends_of_empty_window (by omega) (hEnds "x")
    refine ⟨hMax, ?_⟩
    by_contra hNot
    have hStart : searchStart (max.toNat + 1) mean = 0 := by
      unfold searchStart
      split <;> omega
    exact not_ends_of_lines (by omega) (by omega) hStart (hEnds _)
  · exact fun hSizes text => ends_of_progressive hSizes text

structure WellCut (text : Str) (mean max : Int) (fragments : List Str) : Prop where
  lossless : fragments.flatten = text
  bounded : ∀ f ∈ fragments, f ≠ [] ∧ f.length ≤ max
  filled : ∀ f ∈ fragments.dropLast, min mean max ≤ f.length
  cut : ∀ front f back, fragments = front ++ f :: back → back ≠ [] →
    CutBefore (f ++ back.flatten) mean.toNat max f.length

/-- With positive sizes the generator ends. The fragments make up the text, none is empty or
too long, none but the last is too short, and each is cut where the sizes ask for. -/
theorem textAsFragments_wellCut (text : Str) (mean max : Int) (hMean : 1 ≤ mean) (hMax : 1 ≤ max) :
    (∃ fuel fragments, textAsFragments mean max fuel text = some fragments) ∧
      ∀ fuel fragments, textAsFragments mean max fuel text = some fragments →
        WellCut text mean max fragments := by
  constructor
  · obtain ⟨fragments, fuel, hRun⟩ := ends_of_progressive ⟨hMax, .inl hMean⟩ text
    exact ⟨fuel, fragments, hRun⟩
  · intro fuel fragments hRun
    have hYields : Yields (fragmentTurn mean max) text fragments := ⟨fuel, hRun⟩
    have hCuts := cuts_fragmentTurn mean max
    refine ⟨hCuts.flatten_eq hYields, fun f hf => ?_, fun f hf => ?_, ?_⟩
    · obtain ⟨front, back, rfl⟩ := List.append_of_mem hf
      obtain hNext | ⟨hLast, -⟩ := hCuts.turn_of_mem hYields
      · exact (piece_of_next hMean hMax hNext).1
      · exact piece_of_last hLast
    · obtain ⟨front, back, rfl, hBack⟩ := exists_of_mem_dropLast hf
      obtain hNext | ⟨-, hNil⟩ := hCuts.turn_of_mem hYields
      · exact (piece_of_next hMean hMax hNext).2.1
      · exact absurd hNil hBack
    · rintro front f back rfl hBack
      obtain hNext | ⟨-, hNil⟩ := hCuts.turn_of_mem hYields
      · exact (piece_of_next hMean hMax hNext).2.2
      · exact absurd hNil hBack

theorem textAsFragments_wellCut_words :
    (∃ fuel fragments, textAsFragments 3 5 fuel "uno dos tres" = some fragments) ∧
      ∀ fuel fragments, textAsFragments 3 5 fuel "uno dos tres" = some fragments →
        WellCut "uno dos tres" 3 5 fragments :=
  textAsFragments_wellCut "uno dos tres" 3 5 (by decide) (by decide)

example : textAsFragments 3 5 4 "uno dos tres" = some ["uno".toList, " dos".toList, " tres".toList] := by
  decide

/-- All fragments but the last stay the same when text is added behind. -/
theorem textAsFragments_append (text more : Str) (mean max : Int) (hMean : 1 ≤ mean) (hMax : 1 ≤ max) :
    (∃ fuel fragments, textAsFragments mean max fuel text = some fragments) ∧
      (∃ fuel fragments, textAsFragments mean max fuel (text ++ more) = some fragments) ∧
      ∀ fuel fuel' fragments fragments', textAsFragments mean max fuel text = some fragments →
        textAsFragments mean max fuel' (text ++ more) = some fragments' →
          fragments.dropLast <+: fragments' := by
  have hSizes : Progressive mean max := ⟨hMax, .inl hMean⟩
  have hEnds := ends_of_progressive hSizes
  refine ⟨exists_comm.mp (hEnds text), exists_comm.mp (hEnds (text ++ more)), ?_⟩
  intro fuel fuel' fragments fragments' hRun hRun'
  exact (stable_fragmentTurn hMean hMax).dropLast_isPrefix ⟨fuel, hRun⟩ ⟨fuel', hRun'⟩

theorem textAsFragments_append_words :
    (∃ fuel fragments, textAsFragments 3 5 fuel "uno dos" = some fragments) ∧
      (∃ fuel fragments, textAsFragments 3 5 fuel ("uno dos".toList ++ " tres".toList) = some fragments) ∧
      ∀ fuel fuel' fragments fragments', textAsFragments 3 5 fuel "uno dos" = some fragments →
        textAsFragments 3 5 fuel' ("uno dos".toList ++ " tres".toList) = some fragments' →
          fragments.dropLast <+: fragments' :=
  textAsFragments_append "uno dos" " tres" 3 5 (by decide) (by decide)

end Spidercheck
