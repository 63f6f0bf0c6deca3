import Spidercheck.Regex.Basic

/-! What a match has read. The relation `Reads` forgets the order in which the
ways through a pattern are tried, and keeps where each group stands: the text
before it, the text that it took and the text behind it. -/
namespace Regex

structure Group (α Name : Type) where
  name : Name
  before : List α
  taken : List α
  after : List α

def capturesOf {α Name : Type} (gs : List (Group α Name)) : Captures α Name :=
  gs.map fun g => (g.name, g.taken)

namespace Pattern
variable {α β γ Name : Type}

/-- `Reads r before w after gs`: behind `before` and in front of `after` the
pattern takes `w`, and closes the groups `gs`. -/
inductive Reads : Pattern α Name → List α → List α → List α → List (Group α Name) → Prop where
  | empty {before after : List α} : Reads empty before [] after []
  | char {p : α → Bool} {c : α} {before after : List α} (h : p c = true) :
      Reads (char p) before [c] after []
  | plus {p : α → Bool} {w before after : List α} (h : Word p w) : Reads (plus p) before w after []
  | skip {r : Pattern α Name} {before after : List α} : Reads (opt r) before [] after []
  | take {r : Pattern α Name} {before w after : List α} {gs : List (Group α Name)}
      (h : Reads r before w after gs) : Reads (opt r) before w after gs
  | group {name : Name} {r : Pattern α Name} {before w after : List α} {gs : List (Group α Name)}
      (h : Reads r before w after gs) :
      Reads (group name r) before w after (gs ++ [⟨name, before, w, after⟩])
  | stop {p : α → Bool} {before : List α} : Reads (stop p) before [] [] []
  | stopBefore {p : α → Bool} {c : α} {before : List α} (h : p c = true) :
      Reads (stop p) before [] [c] []
  | seq {r s : Pattern α Name} {before w w' after : List α} {gs gs' : List (Group α Name)}
      (first : Reads r before w (w' ++ after) gs) (second : Reads s (before ++ w) w' after gs') :
      Reads (seq r s) before (w ++ w') after (gs ++ gs')

section Sound
variable {p : α → Bool} {k : List α → Option β} {b : β} {s t w more before : List α}

theorem greedy_eq_none (hNone : greedy p k (more ++ t) = none) (hMore : Word p more) : k t = none := by
  induction more with
  | nil => exact absurd rfl hMore.1
  | cons c more ih =>
      have hc : p c = true := hMore.2 c (List.mem_cons_self ..)
      rw [List.cons_append, greedy, if_pos hc, Option.or_eq_none_iff] at hNone
      cases more with
      | nil => exact hNone.2
      | cons d more =>
          exact ih hNone.1 ⟨List.cons_ne_nil d more, fun x hx => hMore.2 x (List.mem_cons_of_mem c hx)⟩

/-- A repetition that succeeds has taken a word, and no longer one would do. -/
theorem greedy_sound (h : greedy p k s = some b) :
    ∃ w t, s = w ++ t ∧ Word p w ∧ k t = some b ∧
      ∀ more rest, t = more ++ rest → Word p more → k rest = none := by
  induction s with
  | nil => cases h
  | cons c s ih =>
      rw [greedy] at h
      split at h
      · next hc =>
        cases hRest : greedy p k s with
        | some b' =>
            rw [hRest, Option.some_or, Option.some.injEq] at h
            obtain ⟨w, t, hText, hWord, hk, hLonger⟩ := ih (h ▸ hRest)
            refine ⟨c :: w, t, by rw [hText, List.cons_append], ⟨List.cons_ne_nil c w, ?_⟩, hk, hLonger⟩
            intro x hx
            rcases List.mem_cons.mp hx with rfl | hx
            · exact hc
            · exact hWord.2 x hx
        | none =>
            rw [hRest, Option.none_or] at h
            refine ⟨[c], s, rfl, ⟨List.cons_ne_nil c [], by simpa using hc⟩, h, ?_⟩
            intro more rest hText hMore
            exact greedy_eq_none (hText ▸ hRest) hMore
      · cases h

/-- What the engine did in front of the continuation is a reading. -/
theorem run_sound {r : Pattern α Name} {captures : Captures α Name}
    {k : Captures α Name → List α → Option β} (before : List α) (h : r.run captures s k = some b) :
    ∃ w t gs, s = w ++ t ∧ Reads r before w t gs ∧ k (captures ++ capturesOf gs) t = some b := by
  induction r generalizing captures s k before with
  | empty => exact ⟨[], s, [], rfl, .empty, by simpa [run, capturesOf] using h⟩
  | char p =>
      cases s with
      | nil => cases h
      | cons c t =>
          rw [run] at h
          split at h
          · next hc => exact ⟨[c], t, [], rfl, .char hc, by simpa [capturesOf] using h⟩
          · cases h
  | plus p =>
      obtain ⟨w, t, hText, hWord, hk, -⟩ := greedy_sound h
      exact ⟨w, t, [], hText, .plus hWord, by simpa [capturesOf] using hk⟩
  | opt r ih =>
      rw [run] at h
      cases hTake : r.run captures s k with
      | some b' =>
          rw [hTake, Option.some_or] at h
          obtain ⟨w, t, gs, hText, hReads, hk⟩ := ih before (hTake.trans h)
          exact ⟨w, t, gs, hText, .take hReads, hk⟩
      | none =>
          rw [hTake, Option.none_or] at h
          exact ⟨[], s, [], rfl, .skip, by simpa [capturesOf] using h⟩
  | group name r ih =>
      obtain ⟨w, t, gs, rfl, hReads, hk⟩ := ih before h
      refine ⟨w, t, gs ++ [⟨name, before, w, t⟩], rfl, .group hReads, ?_⟩
      rw [consumed_append] at hk
      simpa [capturesOf] using hk
  | stop p =>
      rcases s with _ | ⟨c, _ | ⟨d, s⟩⟩
      · exact ⟨[], [], [], rfl, .stop, by simpa [run, capturesOf] using h⟩
      · rw [run] at h
        split at h
        · next hc => exact ⟨[], [c], [], rfl, .stopBefore hc, by simpa [capturesOf] using h⟩
        · cases h
      · cases h
  | seq r s ihr ihs =>
      obtain ⟨w, t, gs, rfl, hFirst, hRest⟩ := ihr before h
      obtain ⟨w', t', gs', rfl, hSecond, hk⟩ := ihs (before ++ w) hRest
      refine ⟨w ++ w', t', gs ++ gs', by rw [List.append_assoc], .seq hFirst hSecond, ?_⟩
      simpa [capturesOf] using hk

/-- Every match of the engine is one of the relation. -/
theorem match?_sound {r : Pattern α Name} {captures : Captures α Name} (h : r.match? s = some captures) :
    ∃ w t gs, s = w ++ t ∧ Reads r [] w t gs ∧ captures = capturesOf gs := by
  obtain ⟨w, t, gs, hText, hReads, hk⟩ := run_sound [] h
  exact ⟨w, t, gs, hText, hReads, by simpa using hk.symm⟩

/-- The first parts of a sequence have a reading, and the engine goes on behind it. -/
theorem run_all_append {rs rs' : List (Pattern α Name)} {captures : Captures α Name}
    {k : Captures α Name → List α → Option β} :
    (all (rs ++ rs')).run captures s k =
      (all rs).run captures s fun captures t => (all rs').run captures t k := by
  induction rs generalizing captures s with
  | nil => rfl
  | cons r rs ih =>
      rw [List.cons_append, run_all_cons, run_all_cons]
      congr 1
      funext captures t
      exact ih

end Sound

/-- The groups in the order in which they are closed; those of an optional part are left out. -/
def names : Pattern α Name → List Name
  | empty | char _ | plus _ | opt _ | stop _ => []
  | group name r => r.names ++ [name]
  | seq r s => r.names ++ s.names

def settled : Pattern α Name → Bool
  | empty | char _ | plus _ | stop _ => true
  | opt r => r.settled && r.names.isEmpty
  | group _ r => r.settled
  | seq r s => r.settled && s.settled

/-- The groups of a match, where no group is optional. -/
theorem Reads.names {r : Pattern α Name} {before w after : List α} {gs : List (Group α Name)}
    (h : Reads r before w after gs) (hSettled : r.settled = true) : gs.map (·.name) = r.names := by
  induction h with
  | take h ih =>
      obtain ⟨hInner, hNames⟩ := Bool.and_eq_true_iff.mp hSettled
      exact (ih hInner).trans (List.isEmpty_iff.mp hNames)
  | group h ih => simp [Pattern.names, ih hSettled]
  | seq first second ih ih' =>
      obtain ⟨hFirst, hSecond⟩ := Bool.and_eq_true_iff.mp hSettled
      simp [Pattern.names, ih hFirst, ih' hSecond]
  | _ => rfl

end Pattern

end Regex
