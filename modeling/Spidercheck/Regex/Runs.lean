import Spidercheck.Regex.Places
import Mathlib.Data.List.TakeWhile

/-! Groups that take a whole run of a class. What a pattern can begin and end
with is read from its parts: a run is whole when the part before it does not
end in its class and what follows cannot begin in it. -/
namespace Regex

variable {α Name : Type}

namespace Pattern

def idle : Pattern α Name → Bool
  | empty | opt _ | stop _ => true
  | char _ | plus _ => false
  | group _ r => r.idle
  | seq r s => r.idle && s.idle

/-- The last character that the pattern takes may be this one. -/
def finals : Pattern α Name → α → Bool
  | empty, _ | stop _, _ => false
  | char p, c | plus p, c => p c
  | opt r, c | group _ r, c => r.finals c
  | seq r s, c => s.finals c || (s.idle && r.finals c)

def takes : Pattern α Name → α → Bool
  | empty, _ | stop _, _ => false
  | char p, c | plus p, c => p c
  | opt r, c | group _ r, c => r.takes c
  | seq r s, c => r.takes c || s.takes c

def bare : Pattern α Name → Bool
  | empty | char _ | plus _ | stop _ => true
  | opt r => r.bare
  | group _ _ => false
  | seq r s => r.bare && s.bare

section Boundary
variable {r : Pattern α Name} {before w after : List α} {gs : List (Group α Name)} {p : α → Bool}

/-- The first character is one that the pattern starts with, or one that it skips. -/
theorem Reads.first (h : r.Reads before w after gs) :
    (∀ c ∈ w.head?, r.starts c = true) ∧ (w = [] → ∀ c ∈ after.head?, r.skips c = true) := by
  induction h with
  | empty => simp [skips]
  | char h => simpa [starts] using h
  | plus h =>
      refine ⟨fun c hc => h.2 c (List.mem_of_mem_head? hc), fun hNil => absurd hNil h.1⟩
  | skip => simp [skips]
  | take h ih => exact ⟨ih.1, fun _ _ _ => rfl⟩
  | group h ih => exact ih
  | stop => simp
  | stopBefore h => simpa [skips] using h
  | @seq r s before w w' after gs gs' first second ih ih' =>
      cases w with
      | nil =>
          have hSkip : ∀ c ∈ (w' ++ after).head?, r.skips c = true := ih.2 rfl
          constructor
          · intro c hc
            have hc : w'.head? = some c := hc
            have hStarts : s.starts c = true := ih'.1 c hc
            have hSkips : r.skips c = true := hSkip c (by simp [List.head?_append, hc])
            simp [starts, hStarts, hSkips]
          · intro hNil c hc
            have hEmpty : w' = [] := hNil
            have hSkips : r.skips c = true := hSkip c (by simpa [hEmpty] using hc)
            simp [skips, hSkips, ih'.2 hEmpty c hc]
      | cons d w =>
          constructor
          · intro c hc
            have hStarts : r.starts c = true := ih.1 c hc
            simp [starts, hStarts]
          · intro hNil
            cases hNil

/-- The last character that was taken is one of the final ones. -/
theorem Reads.last (h : r.Reads before w after gs) :
    (∀ c ∈ w.getLast?, r.finals c = true) ∧ (w = [] → r.idle = true) := by
  induction h with
  | empty => simp [idle]
  | char h => simpa [finals] using h
  | plus h => exact ⟨fun c hc => h.2 c (List.mem_of_getLast? hc), fun hNil => absurd hNil h.1⟩
  | skip => simp [idle]
  | take h ih => exact ⟨ih.1, fun _ => rfl⟩
  | group h ih => exact ih
  | stop => simp [idle]
  | stopBefore h => simp [idle]
  | @seq r s before w w' after gs gs' first second ih ih' =>
      by_cases hEmpty : w' = []
      · subst hEmpty
        have hIdle : s.idle = true := ih'.2 rfl
        constructor
        · intro c hc
          have hFinal : r.finals c = true := ih.1 c (by simpa using hc)
          simp [finals, hIdle, hFinal]
        · intro hNil
          have hFirst : r.idle = true := ih.2 (by simpa using hNil)
          simp [idle, hIdle, hFirst]
      · constructor
        · intro c hc
          rw [List.getLast?_append, List.getLast?_eq_some_getLast hEmpty, Option.some_or,
            ← List.getLast?_eq_some_getLast hEmpty] at hc
          have hFinal : s.finals c = true := ih'.1 c hc
          simp [finals, hFinal]
        · intro hNil
          exact absurd (List.append_eq_nil_iff.mp hNil).2 hEmpty

/-- Only characters that the pattern takes are taken. -/
theorem Reads.taken (h : r.Reads before w after gs) : ∀ c ∈ w, r.takes c = true := by
  induction h with
  | char h => simpa [takes] using h
  | plus h => exact h.2
  | take h ih => exact ih
  | group h ih => exact ih
  | seq first second ih ih' =>
      intro c hc
      rcases List.mem_append.mp hc with hc | hc
      · simp [takes, ih c hc]
      · simp [takes, ih' c hc]
  | _ => simp

/-- A bare pattern records no group. -/
theorem Reads.groups_eq_nil (h : r.Reads before w after gs) (hBare : r.bare = true) : gs = [] := by
  induction h with
  | take h ih => exact ih hBare
  | group h ih => cases hBare
  | seq first second ih ih' =>
      obtain ⟨hFirst, hSecond⟩ := Bool.and_eq_true_iff.mp hBare
      rw [ih hFirst, ih' hSecond, List.append_nil]
  | _ => rfl

/-- A pattern that is apart from a class reads no text that begins in it. -/
theorem Apart.ends (hApart : Apart p r) (h : r.Reads before w after gs) : Ends p (w ++ after) := by
  intro c hc
  by_contra hIn
  obtain ⟨hStarts, hSkips⟩ := hApart c (Bool.not_eq_false _ ▸ hIn)
  cases w with
  | nil =>
      have hSkip : r.skips c = true := h.first.2 rfl c hc
      rw [hSkips] at hSkip
      cases hSkip
  | cons d w =>
      have hStart : r.starts c = true := h.first.1 c hc
      rw [hStarts] at hStart
      cases hStart

end Boundary

section Whole
variable {p : α → Bool} {named : Name → Bool}

/-- The group is a run of the class that neither neighbour continues. -/
structure Whole (p : α → Bool) (g : Group α Name) : Prop where
  word : Word p g.taken
  left : ∀ c ∈ g.before.getLast?, p c = false
  right : Ends p g.after

/-- Between these parts a pattern takes a whole run of the class. -/
structure Walled (p : α → Bool) (done : List (Pattern α Name)) (r : Pattern α Name)
    (rest : List (Pattern α Name)) : Prop where
  busy : r.idle = false
  inside : ∀ c, r.takes c = true → p c = true
  left : ∀ c, p c = true → (all done).finals c = false
  right : Apart p (all rest)

theorem walled_iff {done rest : List (Pattern α Name)} {r : Pattern α Name} : Walled p done r rest ↔
    r.idle = false ∧ (∀ c, r.takes c = true → p c = true) ∧
      (∀ c, p c = true → (all done).finals c = false) ∧ Apart p (all rest) := by
  constructor
  · intro ⟨hBusy, hInside, hLeft, hRight⟩
    exact ⟨hBusy, hInside, hLeft, hRight⟩
  · intro ⟨hBusy, hInside, hLeft, hRight⟩
    exact ⟨hBusy, hInside, hLeft, hRight⟩

/-- Groups stand at the top of the sequence only, and those that are named are walled. -/
def Fence (p : α → Bool) (named : Name → Bool) (done : List (Pattern α Name)) (rest : List (Pattern α Name)) :
    Pattern α Name → Prop
  | group name r => r.bare = true ∧ (named name = true → Walled p done r rest)
  | r => r.bare = true

/-- Each part of the sequence is fenced by those around it. -/
def Fenced (p : α → Bool) (named : Name → Bool) : List (Pattern α Name) → List (Pattern α Name) → Prop
  | _, [] => True
  | done, r :: rest => Fence p named done rest r ∧ Fenced p named (done ++ [r]) rest

/-- Parts in sequence read one after another. -/
theorem Reads.all_append {rs rs' : List (Pattern α Name)} {before w w' after : List α}
    {gs gs' : List (Group α Name)} (h : (all rs).Reads before w (w' ++ after) gs)
    (h' : (all rs').Reads (before ++ w) w' after gs') :
    (all (rs ++ rs')).Reads before (w ++ w') after (gs ++ gs') := by
  induction rs generalizing before w gs with
  | nil =>
      cases h
      simpa using h'
  | cons s rs ih =>
      cases h with
      | seq first second =>
          rename_i u v hs hs'
          have hRest : (all (rs ++ rs')).Reads (before ++ u) (v ++ w') after (hs' ++ gs') :=
            ih second (by simpa using h')
          have hSeq : (all (s :: (rs ++ rs'))).Reads before (u ++ (v ++ w')) after (hs ++ (hs' ++ gs')) :=
            .seq (by simpa using first) hRest
          simpa using hSeq

theorem Reads.singleton {r : Pattern α Name} {before w after : List α} {gs : List (Group α Name)}
    (h : r.Reads before w after gs) : (all [r]).Reads before w after gs := by
  have hSeq : (all [r]).Reads before (w ++ []) after (gs ++ []) := .seq h .empty
  simpa using hSeq

/-- A sequence is read part by part. -/
theorem Reads.all_split {rs rs' : List (Pattern α Name)} {before w after : List α}
    {gs : List (Group α Name)} (h : (all (rs ++ rs')).Reads before w after gs) :
    ∃ u v hs hs', w = u ++ v ∧ gs = hs ++ hs' ∧ (all rs).Reads before u (v ++ after) hs ∧
      (all rs').Reads (before ++ u) v after hs' := by
  induction rs generalizing before w gs with
  | nil => exact ⟨[], w, [], gs, rfl, rfl, .empty, by simpa using h⟩
  | cons r rs ih =>
      cases h with
      | seq first second =>
          obtain ⟨u, v, hs, hs', rfl, rfl, hFront, hBack⟩ := ih second
          rename_i w gs
          refine ⟨w ++ u, v, gs ++ hs, hs', (List.append_assoc ..).symm, (List.append_assoc ..).symm, ?_, ?_⟩
          · exact .seq (by simpa using first) hFront
          · simpa using hBack

/-- What a pattern has read does not end in a class that it cannot end with. -/
theorem Reads.left {r : Pattern α Name} {w after : List α} {gs : List (Group α Name)}
    (h : r.Reads [] w after gs) (hFinals : ∀ c, p c = true → r.finals c = false) :
    ∀ c ∈ w.getLast?, p c = false := by
  intro c hc
  have hFinal : r.finals c = true := h.last.1 c hc
  by_contra hIn
  rw [hFinals c (Bool.not_eq_false _ ▸ hIn)] at hFinal
  cases hFinal

/-- A pattern that cannot be idle reads a word of its class. -/
theorem Reads.word {r : Pattern α Name} {before w after : List α} {gs : List (Group α Name)}
    (h : r.Reads before w after gs) (hBusy : r.idle = false) (hInside : ∀ c, r.takes c = true → p c = true) :
    Word p w := by
  refine ⟨fun hNil => ?_, fun c hc => hInside c (h.taken c hc)⟩
  have hIdle : r.idle = true := h.last.2 hNil
  rw [hBusy] at hIdle
  cases hIdle

/-- Between walls a whole run is taken. -/
theorem Walled.whole {done rest : List (Pattern α Name)} {r : Pattern α Name} {name : Name}
    {w w' v after : List α} {gs gs' gs'' : List (Group α Name)} (h : Walled p done r rest)
    (hDone : (all done).Reads [] w (w' ++ (v ++ after)) gs) (hTaken : r.Reads w w' (v ++ after) gs')
    (hRest : (all rest).Reads (w ++ w') v after gs'') :
    Whole p (⟨name, w, w', v ++ after⟩ : Group α Name) where
  word := hTaken.word h.busy h.inside
  left := hDone.left h.left
  right := h.right.ends hRest

/-- A group behind its fence is a whole run. -/
theorem Fence.whole {done rest : List (Pattern α Name)} {r : Pattern α Name} {w w' v after : List α}
    {gs gs' gs'' : List (Group α Name)} (h : Fence p named done rest r)
    (hDone : (all done).Reads [] w (w' ++ (v ++ after)) gs) (hTaken : r.Reads w w' (v ++ after) gs')
    (hRest : (all rest).Reads (w ++ w') v after gs'') :
    ∀ g ∈ gs', named g.name = true → Whole p g := by
  cases r with
  | group name r =>
      cases hTaken with
      | group hTaken =>
          intro g hg hNamed
          rw [hTaken.groups_eq_nil h.1, List.nil_append, List.mem_singleton] at hg
          subst hg
          exact (h.2 hNamed).whole hDone hTaken hRest
  | _ =>
      intro g hg
      rw [hTaken.groups_eq_nil h] at hg
      cases hg

/-- The groups that a fenced sequence reads are whole. -/
theorem Fenced.whole {done rest : List (Pattern α Name)} {w w' after : List α}
    {gs gs' : List (Group α Name)} (h : Fenced p named done rest)
    (hDone : (all done).Reads [] w (w' ++ after) gs) (hRest : (all rest).Reads w w' after gs') :
    ∀ g ∈ gs', named g.name = true → Whole p g := by
  induction rest generalizing done w w' gs gs' with
  | nil =>
      cases hRest
      simp
  | cons r rest ih =>
      cases hRest with
      | seq first second =>
          rename_i u v hs hs'
          rw [List.append_assoc] at hDone
          intro g hg
          rcases List.mem_append.mp hg with hg | hg
          · exact h.1.whole hDone first second g hg
          · exact ih h.2 (hDone.all_append first.singleton) second g hg

end Whole

section Line
variable {p q e : α → Bool} {name : Name} {rs : List (Pattern α Name)} {s rest : List α}
  {captures result : Captures α Name}

/-- One or more characters of a class up to the end of the text. -/
theorem run_line (hWord : Word q rest) :
    (all [plus q, stop e]).run captures rest (fun captures _ => some captures) = some captures := by
  have hRun : (all [plus q, stop e]).run captures (rest ++ []) (fun captures _ => some captures) =
      some captures := greedy_eq_some hWord ends_nil rfl
  rwa [List.append_nil] at hRun

/-- In front of the end of the line, the run goes up to it. -/
theorem run_line_eq_some (hLast : ∀ c ∈ rest.getLast?, e c = false)
    (h : (all [plus q, stop e]).run captures rest (fun captures _ => some captures) = some result) :
    Word q rest ∧ result = captures := by
  obtain ⟨w, t, rfl, hWord, hStop, -⟩ := greedy_sound h
  rcases t with _ | ⟨c, _ | ⟨d, t⟩⟩
  · rw [List.append_nil]
    exact ⟨hWord, (Option.some.inj hStop).symm⟩
  · have hEnd : e c = false := hLast c (by simp)
    have hNone : (all [stop e]).run captures [c] (fun captures _ => some captures) = none :=
      run_stop_all_cons hEnd
    cases hNone.symm.trans hStop
  · cases hStop

/-- The parts, the group and the line behind it are read one after the other. -/
theorem Reads.line {w u : List α} {gs : List (Group α Name)} (h : (all rs).Reads [] w (u ++ rest) gs)
    (hWord : Word p u) (hRest : Word q rest) :
    (all (rs ++ [.group name (.plus p), .plus q, .stop e])).Reads [] (w ++ (u ++ rest)) []
      (gs ++ [⟨name, w, u, rest⟩]) := by
  have hGroup : (all (rs ++ [.group name (.plus p)])).Reads [] (w ++ u) (rest ++ [] ++ [])
      (gs ++ [⟨name, w, u, rest⟩]) := by
    simpa using h.all_append (Reads.group (.plus hWord)).singleton
  have hEnd : (all [.plus q, .stop e] : Pattern α Name).Reads ([] ++ (w ++ u)) (rest ++ []) [] ([] ++ []) :=
    .seq (.plus hRest) (Reads.singleton .stop)
  have hLine := hGroup.all_append hEnd
  simpa using hLine

/-- Behind a run that could go on, the engine would have gone on. -/
theorem ends_or_all_of_longest (hRest : Word q rest) (hLonger : ∀ more rest', rest = more ++ rest' →
      Word p more → ¬ Word q rest') : Ends p rest ∨ ∀ c ∈ rest, p c = true := by
  by_contra hNeither
  obtain ⟨hBegins, hOther⟩ := not_or.mp hNeither
  have hMore : Word p (rest.takeWhile p) := by
    refine ⟨?_, fun c hc => List.mem_takeWhile_imp hc⟩
    intro hNil
    apply hBegins
    cases rest with
    | nil => exact ends_nil
    | cons c rest =>
        rw [ends_cons]
        by_contra hc
        simp [Bool.not_eq_false _ ▸ hc] at hNil
  have hBehind : Word q (rest.dropWhile p) := by
    refine ⟨?_, fun c hc => hRest.2 c ((List.dropWhile_sublist p).subset hc)⟩
    intro hNil
    exact hOther (List.dropWhile_eq_nil_iff.mp hNil)
  exact hLonger _ _ (List.takeWhile_append_dropWhile).symm hMore hBehind

/-- The run ends where its class ends, or it is cut before the end of the text. -/
theorem match?_line (h : (all (rs ++ [group name (plus p), plus q, stop e])).match? s = some captures)
    (hLast : ∀ c ∈ s.getLast?, e c = false) :
    ∃ (gs : List (Group α Name)) (g : Group α Name),
      (all (rs ++ [group name (plus p), plus q, stop e])).Reads [] s [] (gs ++ [g]) ∧
      captures = capturesOf (gs ++ [g]) ∧ g.name = name ∧
      (all rs).Reads [] g.before (g.taken ++ g.after) gs ∧ Word p g.taken ∧ g.after ≠ [] ∧
      (Ends p g.after ∨ ∀ c ∈ g.after, p c = true) := by
  rw [match?, run_all_append] at h
  obtain ⟨w, t, gs, rfl, hReads, hTail⟩ := run_sound [] h
  obtain ⟨u, rest, rfl, hWord, hLine, hLonger⟩ := greedy_sound hTail
  have hRestLast : ∀ c ∈ rest.getLast?, e c = false := by
    intro c hc
    have hc : rest.getLast? = some c := hc
    exact hLast c (by simp [List.getLast?_append, hc])
  have hLine : (all [plus q, stop e]).run (capturesOf gs ++ [(name, u)]) rest
      (fun captures _ => some captures) = some captures := by
    rw [← consumed_append u rest]
    exact hLine
  obtain ⟨hRest, rfl⟩ := run_line_eq_some hRestLast hLine
  refine ⟨gs, ⟨name, w, u, rest⟩, hReads.line hWord hRest, by simp [capturesOf], rfl, hReads, hWord, hRest.1, ?_⟩
  apply ends_or_all_of_longest hRest
  intro more rest' hText hMore hRest'
  cases (run_line hRest').symm.trans (hLonger more rest' hText hMore)

end Line

end Pattern

/-- The same with the places of the groups. -/
theorem match?_line_placed [DecidableEq Name] {p q e : α → Bool} {name : Name} {rs : List (Pattern α Name)}
    {s : List α} {captures : Captures α Name}
    (h : (Pattern.all (rs ++ [.group name (.plus p), .plus q, .stop e])).match? s = some captures)
    (hLast : ∀ c ∈ s.getLast?, e c = false) :
    ∃ (gs : List (Group α Name)) (g : Group α Name),
      (Pattern.all (rs ++ [.group name (.plus p), .plus q, .stop e])).Reads [] s [] (gs ++ [g]) ∧
      captures = capturesOf (gs ++ [g]) ∧ g.name = name ∧
      (Pattern.all rs).Reads [] g.before (g.taken ++ g.after) gs ∧ Word p g.taken ∧ g.after ≠ [] ∧
      (Ends p g.after ∨ ∀ c ∈ g.after, p c = true) ∧
      Placed (Pattern.all (rs ++ [.group name (.plus p), .plus q, .stop e])) s (gs ++ [g]) := by
  obtain ⟨numbered, hNumbered, rfl⟩ := match?_numbered h
  have hComap : (Pattern.all (rs ++ [.group name (.plus p), .plus q, .stop e])).comap Prod.fst =
      Pattern.all (rs.map (Pattern.comap Prod.fst) ++ [.group name (.plus (p ∘ (Prod.fst : α × Nat → α))),
        .plus (q ∘ Prod.fst), .stop (e ∘ Prod.fst)]) := by
    rw [Pattern.comap_all, List.map_append]
    rfl
  have hNumberedLast : ∀ c ∈ s.zipIdx.getLast?, (e ∘ Prod.fst) c = false := by
    intro c hc
    rw [List.getLast?_zipIdx] at hc
    obtain ⟨x, hx, rfl⟩ := Option.map_eq_some_iff.mp hc
    exact hLast x hx
  obtain ⟨gs, g, hReads, rfl, hName, hFront, hWord, hMore, hAfter⟩ :=
    Pattern.match?_line (hComap ▸ hNumbered) hNumberedLast
  have hNumberedReads : ((Pattern.all (rs ++ [.group name (.plus p), .plus q, .stop e])).comap Prod.fst).Reads
      [] s.zipIdx [] (gs ++ [g]) := hComap ▸ hReads
  have hPlain : plain (gs ++ [g]) = plain gs ++ [g.map Prod.fst] := by simp [plain]
  rw [← Pattern.comap_all] at hFront
  refine ⟨plain gs, g.map Prod.fst, ?_, ?_, hName, ?_, ?_, by simpa [Group.map] using hMore, ?_, ?_⟩
  · rw [← hPlain]
    simpa [plain] using hNumberedReads.map
  · rw [← hPlain, capturesOf_plain]
  · simpa [Group.map, plain] using hFront.map
  · exact ⟨by simpa [Group.map] using hWord.1, by simpa [Group.map] using hWord.2⟩
  · rcases hAfter with hEnds | hAll
    · refine .inl fun c hc => ?_
      obtain ⟨x, hx, rfl⟩ : ∃ x, g.after.head? = some x ∧ x.1 = c := by
        simpa [Group.map, List.head?_map, Option.map_eq_some_iff] using hc
      exact hEnds x hx
    · refine .inr fun c hc => ?_
      obtain ⟨x, hx, rfl⟩ := List.mem_map.mp hc
      exact hAll x hx
  · rw [← hPlain]
    exact placed_of_numbered hNumbered (List.append_nil _).symm hNumberedReads

section Run
variable {p : α → Bool} {s : List α} {g : Group α Name}

def runAt (p : α → Bool) (s : List α) (i : Nat) : List α :=
  ((s.take i).reverse.takeWhile p).reverse ++ (s.drop i).takeWhile p

theorem takeWhile_eq_nil {t : List α} (h : Ends p t) : t.takeWhile p = [] := by
  cases t with
  | nil => rfl
  | cons c t => simp [ends_cons.mp h]

/-- A word that its class does not continue to the left is the beginning of the run. -/
theorem runAt_of_left {before taken after : List α} (hText : s = before ++ (taken ++ after))
    (hWord : Word p taken) (hLeft : ∀ c ∈ before.getLast?, p c = false) :
    runAt p s before.length = taken ++ after.takeWhile p := by
  have hBefore : (before.reverse).takeWhile p = [] :=
    takeWhile_eq_nil fun c hc => hLeft c (by simpa using hc)
  rw [runAt, hText, List.take_left, List.drop_left, hBefore, List.takeWhile_append_of_pos hWord.2]
  rfl

/-- A whole group is the run at its place. -/
theorem Pattern.Whole.runAt_eq (h : Pattern.Whole p g) (hText : g.before ++ g.taken ++ g.after = s) :
    runAt p s g.before.length = g.taken := by
  rw [List.append_assoc] at hText
  rw [runAt_of_left hText.symm h.word h.left, takeWhile_eq_nil h.right, List.append_nil]

end Run

end Regex
