import Spidercheck.Model.Page
import Spidercheck.Sequences.Sharing

/-! `split_iter`: an iterable in two, by a condition. Both generators read the same
iterator through `tee`, and they may be asked in any order. -/
namespace Spidercheck

open Sharing

variable {α σ ε : Type} {pull : Iterator α σ ε} {condition : α → Except ε Bool} {r : Reader}

/-- The two generators: the first one is `positive_iter`, the second one `negative_iter`. -/
structure Split (α σ : Type) where
  shared : Shared α σ
  ended : Reader → Bool

/-- `split_iter(iterable, condition)` asks for nothing yet. -/
def splitIter (source : σ) : Split α σ := { shared := .fresh source, ended := fun _ => false }

/-- `if condition(_)` and `if not condition(_)`. -/
def wants (condition : α → Except ε Bool) : Reader → α → Except ε Bool
  | .first, x => condition x
  | .second, x => (condition x).map (!·)

namespace Split

def close (s : Split α σ) (r : Reader) (shared : Shared α σ) : Split α σ :=
  { shared := shared, ended := Function.update s.ended r true }

/-- `next` of one of the generators, within a number of turns of its loop. It ends
with the first thing that is raised. -/
def next (pull : Iterator α σ ε) (condition : α → Except ε Bool) (r : Reader) :
    Nat → Split α σ → Option (Answer α ε × Split α σ)
  | 0, _ => none
  | fuel + 1, s =>
    if s.ended r then some (.stop, s) else
    match s.shared.next pull r with
    | (.item x, shared) => match wants condition r x with
      | .ok true => some (.item x, { s with shared := shared })
      | .ok false => next pull condition r fuel { s with shared := shared }
      | .error e => some (.raised e, s.close r shared)
    | (answer, shared) => some (answer, s.close r shared)

def drain (pull : Iterator α σ ε) (condition : α → Except ε Bool) (r : Reader) :
    Nat → Split α σ → Option (Except ε (List α) × Split α σ)
  | 0, _ => none
  | fuel + 1, s => match s.next pull condition r fuel with
    | none => none
    | some (.item x, s') => (drain pull condition r fuel s').map fun (items, s'') => (items.map (x :: ·), s'')
    | some (.stop, s') => some (.ok [], s')
    | some (.raised e, s') => some (.error e, s')

end Split

def splitList (pull : Iterator α σ ε) (condition : α → Except ε Bool) (fuel : Nat) (source : σ) :
    Option (Except ε (List α × List α)) :=
  match (splitIter source).drain pull condition .first fuel with
  | none => none
  | some (.error e, _) => some (.error e)
  | some (.ok positive, s) =>
    (s.drain pull condition .second fuel).map fun (negative, _) => negative.map (positive, ·)

def keeps (condition : α → Except ε Bool) (r : Reader) (x : α) : Bool :=
  match wants condition r x with
  | .ok wanted => wanted
  | .error _ => false

/-- Calls of `next` on the two generators, in any order, with their answers. -/
inductive Calls (pull : Iterator α σ ε) (condition : α → Except ε Bool) (start : Split α σ) :
    List (Reader × Answer α ε) → Split α σ → Prop where
  | none : Calls pull condition start [] start
  | more {trace : List (Reader × Answer α ε)} {s s' : Split α σ} {answer : Answer α ε} (r : Reader)
      (fuel : Nat) (h : Calls pull condition start trace s)
      (hNext : s.next pull condition r fuel = some (answer, s')) :
      Calls pull condition start (trace ++ [(r, answer)]) s'

def yieldedBy (r : Reader) (trace : List (Reader × Answer α ε)) : List α :=
  trace.flatMap fun call => if call.1 = r then call.2.items else []

theorem yieldedBy_append (r r' : Reader) (trace : List (Reader × Answer α ε)) (answer : Answer α ε) :
    yieldedBy r' (trace ++ [(r, answer)]) =
      Function.update (fun r' => yieldedBy r' trace) r (yieldedBy r trace ++ answer.items) r' := by
  by_cases hSame : r' = r
  · subst hSame
    simp [yieldedBy]
  · simp [yieldedBy, Function.update_of_ne hSame, Ne.symm hSame]

/-- The turns of one `next`, with the items that they read. -/
inductive Turns (pull : Iterator α σ ε) (condition : α → Except ε Bool) (r : Reader) :
    Split α σ → List α → Answer α ε → Split α σ → Prop where
  | ended {s : Split α σ} (h : s.ended r = true) : Turns pull condition r s [] .stop s
  | finished {s : Split α σ} {answer : Answer α ε} {shared : Shared α σ} (hOpen : s.ended r = false)
      (hNext : s.shared.next pull r = (answer, shared)) (hNothing : answer.items = []) :
      Turns pull condition r s [] answer (s.close r shared)
  | found {s : Split α σ} {x : α} {shared : Shared α σ} (hOpen : s.ended r = false)
      (hNext : s.shared.next pull r = (.item x, shared)) (hWants : wants condition r x = .ok true) :
      Turns pull condition r s [x] (.item x) { s with shared := shared }
  | refused {s : Split α σ} {x : α} {e : ε} {shared : Shared α σ} (hOpen : s.ended r = false)
      (hNext : s.shared.next pull r = (.item x, shared)) (hWants : wants condition r x = .error e) :
      Turns pull condition r s [x] (.raised e) (s.close r shared)
  | skipped {s s' : Split α σ} {x : α} {more : List α} {answer : Answer α ε} {shared : Shared α σ}
      (hOpen : s.ended r = false) (hNext : s.shared.next pull r = (.item x, shared))
      (hWants : wants condition r x = .ok false)
      (h : Turns pull condition r { s with shared := shared } more answer s') :
      Turns pull condition r s (x :: more) answer s'

theorem turns_of_next (fuel : Nat) (s : Split α σ) {answer : Answer α ε} {s' : Split α σ}
    (h : s.next pull condition r fuel = some (answer, s')) :
    ∃ more, Turns pull condition r s more answer s' := by
  induction fuel generalizing s with
  | zero => cases h
  | succ fuel ih =>
      rw [Split.next] at h
      split_ifs at h with hEnded
      · obtain ⟨rfl, rfl⟩ := Prod.mk.inj (Option.some.inj h)
        exact ⟨[], .ended hEnded⟩
      · have hOpen : s.ended r = false := Bool.not_eq_true _ ▸ hEnded
        cases hShared : s.shared.next pull r with
        | mk first shared =>
            rw [hShared] at h
            cases first with
            | stop =>
                obtain ⟨rfl, rfl⟩ := Prod.mk.inj (Option.some.inj h)
                exact ⟨[], .finished hOpen hShared rfl⟩
            | raised e =>
                obtain ⟨rfl, rfl⟩ := Prod.mk.inj (Option.some.inj h)
                exact ⟨[], .finished hOpen hShared rfl⟩
            | item x =>
                dsimp only at h
                cases hWants : wants condition r x with
                | error e =>
                    rw [hWants] at h
                    obtain ⟨rfl, rfl⟩ := Prod.mk.inj (Option.some.inj h)
                    exact ⟨[x], .refused hOpen hShared hWants⟩
                | ok wanted =>
                    rw [hWants] at h
                    cases wanted with
                    | true =>
                        obtain ⟨rfl, rfl⟩ := Prod.mk.inj (Option.some.inj h)
                        exact ⟨[x], .found hOpen hShared hWants⟩
                    | false =>
                        obtain ⟨more, hTurns⟩ := ih { s with shared := shared } h
                        exact ⟨x :: more, .skipped hOpen hShared hWants hTurns⟩

/-- What is yielded is what is kept of the items that were read. -/
theorem Turns.kept {s s' : Split α σ} {more : List α} {answer : Answer α ε}
    (h : Turns pull condition r s more answer s') : more.filter (keeps condition r) = answer.items := by
  induction h with
  | ended => rfl
  | finished _ _ hNothing => exact hNothing.symm
  | found _ _ hWants => simp [keeps, hWants, Answer.items]
  | refused _ _ hWants => simp [keeps, hWants, Answer.items]
  | skipped _ _ hWants _ ih => simpa [keeps, hWants] using ih

section Sharing
variable {start : σ} {items : List α} {read : Reader → List α}

theorem Turns.tally {s s' : Split α σ} {more : List α} {answer : Answer α ε}
    (h : Turns pull condition r s more answer s') (hTally : Tally pull start items read s.shared) :
    ∃ items', Tally pull start items' (Function.update read r (read r ++ more)) s'.shared := by
  induction h generalizing items read with
  | ended => exact ⟨items, by simpa using hTally⟩
  | finished _ hNext hNothing =>
      obtain ⟨items', hTally'⟩ := hTally.next r
      rw [hNext, hNothing] at hTally'
      exact ⟨items', hTally'⟩
  | found _ hNext _ =>
      obtain ⟨items', hTally'⟩ := hTally.next r
      rw [hNext] at hTally'
      exact ⟨items', hTally'⟩
  | refused _ hNext _ =>
      obtain ⟨items', hTally'⟩ := hTally.next r
      rw [hNext] at hTally'
      exact ⟨items', hTally'⟩
  | skipped _ hNext _ _ ih =>
      obtain ⟨items', hTally'⟩ := hTally.next r
      rw [hNext] at hTally'
      obtain ⟨items'', hTally''⟩ := ih hTally'
      exact ⟨items'', by simpa [Answer.items, Function.update_idem] using hTally''⟩

/-- However the two generators are asked: each has yielded just the items that are for it
among those it has read, in their order, and of what the iterator has given nothing is
lost; and the iterator was not asked for more than one of the generators has read. -/
theorem split_iter_shares (pull : Iterator α σ ε) (condition : α → Except ε Bool) (start : σ)
    (trace : List (Reader × Answer α ε)) (s : Split α σ)
    (h : Calls pull condition (splitIter start) trace s) :
    ∃ items read, Tally pull start items read s.shared ∧
      ∀ r, yieldedBy r trace = (read r).filter (keeps condition r) := by
  induction h with
  | none => exact ⟨[], fun _ => [], tally_fresh pull start, fun r => rfl⟩
  | more r fuel _ hNext ih =>
      obtain ⟨items, read, hTally, hYielded⟩ := ih
      obtain ⟨more, hTurns⟩ := turns_of_next fuel _ hNext
      obtain ⟨items', hTally'⟩ := hTurns.tally hTally
      refine ⟨items', _, hTally', fun r' => ?_⟩
      rw [yieldedBy_append]
      by_cases hSame : r' = r
      · subst hSame
        simp [hYielded, hTurns.kept]
      · simp [Function.update_of_ne hSame, hYielded]

end Sharing

/-- `next` of a generator, which is at its end once it has raised. -/
def Generator.next : Iterator α (Generator α) PyError
  | { yielded := x :: rest, raised := raised } => (.item x, { yielded := rest, raised := raised })
  | { yielded := [], raised := some e } => (.raised e, { yielded := [], raised := none })
  | { yielded := [], raised := none } => (.stop, { yielded := [], raised := none })

section Generator
variable {condition : α → Except PyError Bool} {g : Generator α} {s s' : Split α (Generator α)}
  {shared shared' : Shared α (Generator α)}

def unseen (shared : Shared α (Generator α)) (r : Reader) : List α :=
  shared.pending r ++ shared.source.yielded

/-- A reader that is not at the end sees the next item, and the other one is where it was. -/
theorem next_of_unseen_cons {x : α} {rest : List α} (h : unseen shared r = x :: rest) :
    ∃ shared', shared.next Generator.next r = (.item x, shared') ∧ unseen shared' r = rest ∧
      unseen shared' r.other = unseen shared r.other ∧ shared'.source.raised = shared.source.raised := by
  cases hPending : shared.pending r with
  | cons y kept =>
      rw [unseen, hPending, List.cons_append] at h
      obtain ⟨rfl, rfl⟩ := List.cons.inj h
      refine ⟨_, next_of_pending hPending, ?_, ?_, rfl⟩
      · simp [unseen]
      · simp [unseen, Function.update_of_ne r.other_ne]
  | nil =>
      rw [unseen, hPending, List.nil_append] at h
      have hSource : shared.source = { yielded := x :: rest, raised := shared.source.raised } := by rw [← h]
      have hNext : shared.next Generator.next r = _ := next_of_bare hPending
      rw [hSource] at hNext
      refine ⟨_, hNext, ?_, ?_, rfl⟩
      · simp [unseen, Generator.next, Function.update_of_ne r.other_ne.symm, hPending]
      · simp [unseen, Generator.next, Answer.items, h]

/-- What a generator says at its end. -/
def Generator.ending (g : Generator α) : Answer α PyError :=
  match g.raised with
  | some e => .raised e
  | none => .stop

/-- At its end a reader is told what the generator says there, and it is said once. -/
theorem next_of_unseen_nil (h : unseen shared r = []) :
    ∃ shared', shared.next Generator.next r = (shared.source.ending, shared') ∧
      (∀ r', unseen shared' r' = unseen shared r') ∧ shared'.source.raised = none := by
  obtain ⟨hPending, hYielded⟩ := List.append_eq_nil_iff.mp h
  have hSource : shared.source = { yielded := [], raised := shared.source.raised } := by rw [← hYielded]
  have hPull : Generator.next shared.source =
      (shared.source.ending, { yielded := [], raised := none }) := by
    rw [hSource, Generator.ending]
    cases shared.source.raised with
    | none => rfl
    | some e => rfl
  have hNext : shared.next Generator.next r = _ := next_of_bare hPending
  have hNothing : shared.source.ending.items = [] := by
    rw [Generator.ending]
    cases shared.source.raised with
    | none => rfl
    | some e => rfl
  rw [hPull, hNothing, List.append_nil, Function.update_eq_self] at hNext
  exact ⟨_, hNext, fun r' => by simp [unseen, hYielded], rfl⟩

/-- What a reader learns by its `next`. -/
theorem next_cases {answer : Answer α PyError} (h : shared.next Generator.next r = (answer, shared')) :
    unseen shared' r.other = unseen shared r.other ∧
      ((∃ x, answer = .item x ∧ unseen shared r = x :: unseen shared' r ∧
          shared'.source.raised = shared.source.raised) ∨
        (answer = shared.source.ending ∧ unseen shared r = [] ∧ unseen shared' r = [] ∧
          shared'.source.raised = none)) := by
  cases hUnseen : unseen shared r with
  | nil =>
      obtain ⟨_, hNext, hSame, hRaised⟩ := next_of_unseen_nil hUnseen
      obtain ⟨rfl, rfl⟩ := Prod.mk.inj (h.symm.trans hNext)
      exact ⟨hSame r.other, .inr ⟨rfl, rfl, (hSame r).trans hUnseen, hRaised⟩⟩
  | cons x rest =>
      obtain ⟨_, hNext, hRest, hOther, hRaised⟩ := next_of_unseen_cons hUnseen
      obtain ⟨rfl, rfl⟩ := Prod.mk.inj (h.symm.trans hNext)
      exact ⟨hOther, .inl ⟨x, rfl, by rw [hRest], hRaised⟩⟩

theorem next_item {x : α} (h : shared.next Generator.next r = (.item x, shared')) :
    unseen shared' r.other = unseen shared r.other ∧ unseen shared r = x :: unseen shared' r ∧
      shared'.source.raised = shared.source.raised := by
  obtain ⟨hOther, ⟨y, hItem, hUnseen, hRaised⟩ | ⟨hEnding, -⟩⟩ := next_cases h
  · cases hItem
    exact ⟨hOther, hUnseen, hRaised⟩
  · rw [Generator.ending] at hEnding
    split at hEnding <;> cases hEnding

theorem next_nothing {answer : Answer α PyError} (h : shared.next Generator.next r = (answer, shared'))
    (hNothing : answer.items = []) :
    unseen shared' r.other = unseen shared r.other ∧ answer = shared.source.ending ∧
      unseen shared r = [] ∧ unseen shared' r = [] ∧ shared'.source.raised = none := by
  obtain ⟨hOther, ⟨x, rfl, -⟩ | hEnd⟩ := next_cases h
  · cases hNothing
  · exact ⟨hOther, hEnd⟩

/-- What is left for a reader after its turns, and for the other one. -/
theorem Turns.unseen {more : List α} {answer : Answer α PyError}
    (h : Turns Generator.next condition r s more answer s') :
    Spidercheck.unseen s.shared r = more ++ Spidercheck.unseen s'.shared r ∧
      Spidercheck.unseen s'.shared r.other = Spidercheck.unseen s.shared r.other := by
  induction h with
  | ended => exact ⟨rfl, rfl⟩
  | finished _ hNext hNothing =>
      obtain ⟨hOther, -, hBefore, hAfter, -⟩ := next_nothing hNext hNothing
      exact ⟨by rw [hBefore]; exact hAfter.symm, hOther⟩
  | found _ hNext _ => exact ⟨(next_item hNext).2.1, (next_item hNext).1⟩
  | refused _ hNext _ => exact ⟨(next_item hNext).2.1, (next_item hNext).1⟩
  | skipped _ hNext _ _ ih =>
      obtain ⟨hOther, hUnseen, -⟩ := next_item hNext
      exact ⟨by rw [hUnseen, ih.1]; rfl, ih.2.trans hOther⟩

/-- The first thing that is raised where all items are looked at, one after another. -/
def firstRaised (condition : α → Except PyError Bool) (ending : Option PyError) : List α → Option PyError
  | [] => ending
  | x :: rest => match condition x with
    | .error e => some e
    | .ok _ => firstRaised condition ending rest

/-- Both generators raise what the condition raises. -/
theorem firstRaised_cons (ending : Option PyError) (r : Reader) (x : α) (rest : List α) :
    firstRaised condition ending (x :: rest) = match wants condition r x with
      | .error e => some e
      | .ok _ => firstRaised condition ending rest := by
  rw [firstRaised]
  cases r <;> cases h : condition x <;> simp [wants, h, Except.map]

/-- What an answer says, and what it leaves. -/
inductive Told (condition : α → Except PyError Bool) (r : Reader) (s s' : Split α (Generator α)) :
    Answer α PyError → Prop where
  | item (x : α) (hEnded : s'.ended = s.ended)
      (hSource : s'.shared.source.raised = s.shared.source.raised)
      (hFirst : firstRaised condition s'.shared.source.raised (unseen s'.shared r) =
        firstRaised condition s.shared.source.raised (unseen s.shared r)) : Told condition r s s' (.item x)
  | refused (e : PyError) (hEnded : s'.ended = Function.update s.ended r true)
      (hFirst : firstRaised condition s.shared.source.raised (unseen s.shared r) = some e)
      (hRefused : ∃ x ∈ unseen s.shared r, condition x = .error e) : Told condition r s s' (.raised e)
  | finished (hEnded : s'.ended = Function.update s.ended r true) (hUnseen : unseen s'.shared r = [])
      (hSource : s'.shared.source.raised = none)
      (hFirst : firstRaised condition s.shared.source.raised (unseen s.shared r) =
        s.shared.source.raised) : Told condition r s s' s.shared.source.ending

theorem Turns.told {more : List α} {answer : Answer α PyError}
    (h : Turns Generator.next condition r s more answer s') (hOpen : s.ended r = false) :
    Told condition r s s' answer := by
  induction h with
  | ended h => exact absurd (h.symm.trans hOpen) (by decide)
  | @finished s _ shared _ hNext hNothing =>
      obtain ⟨-, rfl, hBefore, hAfter, hNone⟩ := next_nothing hNext hNothing
      exact .finished rfl hAfter hNone (by rw [hBefore]; rfl)
  | @found s x shared _ hNext hWants =>
      obtain ⟨-, hUnseen, hRaised⟩ := next_item hNext
      refine .item x rfl hRaised ?_
      rw [hUnseen, firstRaised_cons _ r, hWants, hRaised]
  | @refused s x e shared _ hNext hWants =>
      obtain ⟨-, hUnseen, -⟩ := next_item hNext
      refine .refused e rfl ?_ ⟨x, by rw [hUnseen]; exact List.mem_cons_self .., ?_⟩
      · rw [hUnseen, firstRaised_cons _ r, hWants]
      · cases r <;> cases hCondition : condition x <;> simp_all [wants, Except.map]
  | @skipped s s' x more answer shared hOpen hNext hWants _ ih =>
      obtain ⟨-, hUnseen, hRaised⟩ := next_item hNext
      have hFirst : firstRaised condition s.shared.source.raised (Spidercheck.unseen s.shared r) =
          firstRaised condition shared.source.raised (Spidercheck.unseen shared r) := by
        rw [hUnseen, firstRaised_cons _ r, hWants, hRaised]
      cases ih hOpen with
      | item y hEnded hSource hLater => exact .item y hEnded (hSource.trans hRaised) (hLater.trans hFirst.symm)
      | refused e hEnded hLater hRefused =>
          obtain ⟨y, hy, hError⟩ := hRefused
          exact .refused e hEnded (hFirst.trans hLater)
            ⟨y, by rw [hUnseen]; exact List.mem_cons_of_mem _ hy, hError⟩
      | finished hEnded hNothing hSource hLater =>
          have hEnding : shared.source.ending = s.shared.source.ending := by
            rw [Generator.ending, Generator.ending, hRaised]
          rw [hEnding]
          exact .finished hEnded hNothing hSource (hFirst.trans (hLater.trans hRaised))

def Total (condition : α → Except PyError Bool) (g : Generator α) : Prop :=
  ∀ x ∈ g.yielded, ∃ wanted, condition x = .ok wanted

/-- What the calls up to now tell of the two generators. -/
structure Witnessed (condition : α → Except PyError Bool) (g : Generator α)
    (trace : List (Reader × Answer α PyError)) (s : Split α (Generator α)) : Prop where
  read : ∀ r, ∃ read, read ++ unseen s.shared r = g.yielded ∧
    yieldedBy r trace = read.filter (keeps condition r)
  stopped : ∀ r, (r, .stop) ∈ trace → s.ended r = true
  ended : ∀ r, s.ended r = true → (∃ e, (r, .raised e) ∈ trace) ∨ unseen s.shared r = []
  finished : ∀ r, s.ended r = true → Total condition g → s.shared.source.raised = none
  source : Total condition g →
    (s.shared.source.raised = g.raised ∧ ∀ r e, (r, .raised e) ∉ trace) ∨
      (s.shared.source.raised = none ∧ ∃ r e, g.raised = some e ∧
        ∀ r' e', (r', .raised e') ∈ trace ↔ r' = r ∧ e' = e)

theorem witnessed_fresh (condition : α → Except PyError Bool) (g : Generator α) :
    Witnessed condition g [] (splitIter g) where
  read := fun r => ⟨[], rfl, rfl⟩
  stopped := fun _ hIn => absurd hIn List.not_mem_nil
  ended := fun _ hEnded => absurd hEnded (by simp [splitIter])
  finished := fun _ hEnded => absurd hEnded (by simp [splitIter])
  source := fun _ => .inl ⟨rfl, fun _ _ => List.not_mem_nil⟩

section Step
variable {trace : List (Reader × Answer α PyError)} {more : List α} {answer : Answer α PyError}

theorem Witnessed.read_step (h : Witnessed condition g trace s)
    (hTurns : Turns Generator.next condition r s more answer s') (r' : Reader) :
    ∃ read, read ++ unseen s'.shared r' = g.yielded ∧
      yieldedBy r' (trace ++ [(r, answer)]) = read.filter (keeps condition r') := by
  obtain ⟨hUnseen, hOther⟩ := hTurns.unseen
  obtain ⟨read, hRead, hYielded⟩ := h.read r'
  rw [yieldedBy_append]
  by_cases hSame : r' = r
  · subst hSame
    refine ⟨read ++ more, by rw [List.append_assoc, ← hUnseen, hRead], ?_⟩
    simp [hYielded, hTurns.kept]
  · refine ⟨read, ?_, by simp [Function.update_of_ne hSame, hYielded]⟩
    rw [r.eq_other r' hSame] at hRead ⊢
    rw [hOther, hRead]

theorem mem_unseen (h : Witnessed condition g trace s) {x : α} (hx : x ∈ unseen s.shared r) :
    x ∈ g.yielded := by
  obtain ⟨read, hRead, -⟩ := h.read r
  exact hRead ▸ List.mem_append_right read hx

/-- A generator that has ended says so again. -/
theorem Witnessed.again (h : Witnessed condition g trace s)
    (hTurns : Turns Generator.next condition r s more .stop s) (hEnded : s.ended r = true) :
    Witnessed condition g (trace ++ [(r, .stop)]) s where
  read := h.read_step hTurns
  stopped := by
    intro r' hIn
    rcases List.mem_append.mp hIn with hIn | hIn
    · exact h.stopped r' hIn
    · obtain ⟨rfl, -⟩ := Prod.mk.inj (List.mem_singleton.mp hIn)
      exact hEnded
  ended := fun r' hEnded' => (h.ended r' hEnded').imp_left fun ⟨e, hIn⟩ => ⟨e, List.mem_append_left _ hIn⟩
  finished := h.finished
  source := fun hTotal => by simpa using h.source hTotal

theorem Witnessed.next (h : Witnessed condition g trace s)
    (hTurns : Turns Generator.next condition r s more answer s') (hOpen : s.ended r = false) :
    Witnessed condition g (trace ++ [(r, answer)]) s' := by
  obtain ⟨-, hOther⟩ := hTurns.unseen
  have hRead := h.read_step hTurns
  have hStays (r' : Reader) (hNe : r' ≠ r) (hEnded : s.ended r' = true) :
      (∃ e, (r', .raised e) ∈ trace ++ [(r, answer)]) ∨ unseen s'.shared r' = [] := by
    rw [r.eq_other r' hNe] at hEnded ⊢
    rw [hOther]
    exact (h.ended _ hEnded).imp_left fun ⟨e, hIn⟩ => ⟨e, List.mem_append_left _ hIn⟩
  have hStopped (hEnded : s'.ended = Function.update s.ended r true) (r' : Reader)
      (hIn : (r', .stop) ∈ trace ++ [(r, answer)]) : s'.ended r' = true := by
    rw [hEnded]
    by_cases hSame : r' = r
    · rw [hSame, Function.update_self]
    · rw [Function.update_of_ne hSame]
      refine h.stopped r' ((List.mem_append.mp hIn).resolve_right fun hNew => hSame ?_)
      exact (Prod.mk.inj (List.mem_singleton.mp hNew)).1
  cases hTurns.told hOpen with
  | item x hEnded hSource =>
      refine ⟨hRead, fun r' hIn => ?_, fun r' hEnded' => ?_, ?_, fun hTotal => ?_⟩
      · rw [hEnded]
        exact h.stopped r' (by simpa using hIn)
      · rw [hEnded] at hEnded'
        exact hStays r' (fun hSame => by simp [hSame, hOpen] at hEnded') hEnded'
      · rw [hEnded, hSource]
        exact h.finished
      · rw [hSource]
        simpa using h.source hTotal
  | refused e hEnded _ hRefused =>
      have hPartial : ¬ Total condition g := by
        obtain ⟨x, hx, hError⟩ := hRefused
        intro hTotal
        obtain ⟨wanted, hWanted⟩ := hTotal x (mem_unseen h hx)
        rw [hError] at hWanted
        cases hWanted
      refine ⟨hRead, hStopped hEnded, fun r' hEnded' => ?_, fun _ _ hTotal => absurd hTotal hPartial,
        fun hTotal => absurd hTotal hPartial⟩
      by_cases hSame : r' = r
      · exact .inl ⟨e, by simp [hSame]⟩
      · rw [hEnded, Function.update_of_ne hSame] at hEnded'
        exact hStays r' hSame hEnded'
  | finished hEnded hUnseen hSource =>
      refine ⟨hRead, hStopped hEnded, fun r' hEnded' => ?_, fun _ _ _ => hSource, fun hTotal => ?_⟩
      · by_cases hSame : r' = r
        · exact .inr (hSame ▸ hUnseen)
        · rw [hEnded, Function.update_of_ne hSame] at hEnded'
          exact hStays r' hSame hEnded'
      · -- the exception of the source, if there is one, is raised by the first to come to the end
        rcases h.source hTotal with ⟨hUntold, hNone⟩ | ⟨hTold, r', e, hRaised, hIff⟩
        · cases hEnding : g.raised with
          | none =>
              refine .inl ⟨hSource, fun r' e hIn => ?_⟩
              simp [Generator.ending, hUntold, hEnding, hNone] at hIn
          | some e =>
              refine .inr ⟨hSource, r, e, rfl, fun r' e' => ?_⟩
              simp [Generator.ending, hUntold, hEnding, hNone]
        · refine .inr ⟨hSource, r', e, hRaised, fun r'' e' => ?_⟩
          simp [Generator.ending, hTold, hIff]

end Step

theorem witnessed {trace : List (Reader × Answer α PyError)}
    (h : Calls Generator.next condition (splitIter g) trace s) : Witnessed condition g trace s := by
  induction h with
  | none => exact witnessed_fresh condition g
  | @more trace s s' answer r fuel _ hNext ih =>
      obtain ⟨more, hTurns⟩ := turns_of_next fuel _ hNext
      cases hEnded : s.ended r with
      | false => exact ih.next hTurns hEnded
      | true =>
          obtain ⟨rfl, rfl⟩ : answer = .stop ∧ s' = s := by
            cases fuel with
            | zero => cases hNext
            | succ fuel =>
                rw [Split.next, if_pos hEnded] at hNext
                exact ⟨(Prod.mk.inj (Option.some.inj hNext)).1.symm, (Prod.mk.inj (Option.some.inj hNext)).2.symm⟩
          exact ih.again hTurns hEnded

/-- `next` returns, with as many turns as there are items to see and one for the end. -/
theorem exists_next (condition : α → Except PyError Bool) (r : Reader) (fuel : Nat)
    (s : Split α (Generator α)) (hFuel : (unseen s.shared r).length < fuel) :
    ∃ answer s', s.next Generator.next condition r fuel = some (answer, s') := by
  induction fuel generalizing s with
  | zero => omega
  | succ fuel ih =>
      rw [Split.next]
      split_ifs with hEnded
      · exact ⟨_, _, rfl⟩
      · cases hNext : s.shared.next Generator.next r with
        | mk answer shared =>
            cases answer with
            | stop => exact ⟨_, _, rfl⟩
            | raised e => exact ⟨_, _, rfl⟩
            | item x =>
                obtain ⟨-, hUnseen, -⟩ := next_item hNext
                have hLess : (unseen shared r).length < fuel := by
                  rw [hUnseen, List.length_cons] at hFuel
                  omega
                dsimp only
                cases hWants : wants condition r x with
                | error e => exact ⟨_, _, rfl⟩
                | ok wanted =>
                    cases wanted with
                    | true => exact ⟨_, _, rfl⟩
                    | false => exact ih { s with shared := shared } hLess

/-- What the two generators of `split_iter` are to have done after some calls. -/
structure Divided (condition : α → Except PyError Bool) (g : Generator α)
    (trace : List (Reader × Answer α PyError)) (s : Split α (Generator α)) : Prop where
  returns : ∀ r, ∃ fuel answer s', s.next Generator.next condition r fuel = some (answer, s')
  whole : ∀ r, (r, .stop) ∈ trace → (∀ e, (r, .raised e) ∉ trace) →
    yieldedBy r trace = g.yielded.filter (keeps condition r)
  once : Total condition g → ∀ r e, (r, .raised e) ∈ trace →
    g.raised = some e ∧ ∀ e', (r.other, .raised e') ∉ trace
  told : Total condition g → ∀ r e, g.raised = some e → (r, .stop) ∈ trace →
    ∃ r', (r', .raised e) ∈ trace

/-- However the two generators are asked, each call returns, and one that has come to its
end without an exception has yielded all items that are for it. With a condition that
does not raise, an exception of the iterable is raised by just one of them. -/
theorem split_iter_splits (g : Generator α) (condition : α → Except PyError Bool)
    (trace : List (Reader × Answer α PyError)) (s : Split α (Generator α))
    (h : Calls Generator.next condition (splitIter g) trace s) : Divided condition g trace s := by
  have hTold := witnessed h
  refine ⟨fun r => ⟨_, exists_next condition r _ s (Nat.lt_succ_self _)⟩, ?_, ?_, ?_⟩
  · intro r hStop hNone
    obtain ⟨read, hRead, hYielded⟩ := hTold.read r
    rcases hTold.ended r (hTold.stopped r hStop) with ⟨e, hRaised⟩ | hUnseen
    · exact absurd hRaised (hNone e)
    · rw [hUnseen, List.append_nil] at hRead
      rw [hYielded, hRead]
  · intro hTotal r e hRaised
    rcases hTold.source hTotal with ⟨-, hNone⟩ | ⟨-, r', e', hSome, hIff⟩
    · exact absurd hRaised (hNone r e)
    · obtain ⟨rfl, rfl⟩ := (hIff r e).mp hRaised
      exact ⟨hSome, fun e'' hOther => r.other_ne ((hIff _ _).mp hOther).1⟩
  · intro hTotal r e hSome hStop
    rcases hTold.source hTotal with ⟨hUntold, -⟩ | ⟨-, r', e', hSome', hIff⟩
    · have hNone := hTold.finished r (hTold.stopped r hStop) hTotal
      rw [hUntold, hSome] at hNone
      cases hNone
    · obtain rfl : e' = e := Option.some.inj (hSome'.symm.trans hSome)
      exact ⟨r', (hIff r' e').mpr ⟨rfl, rfl⟩⟩

def evens (n : Nat) : Except PyError Bool := .ok (n % 2 == 0)

def broken : Generator Nat := { yielded := [1, 2, 3, 4], raised := some { kind := .osError, text := "" } }

/-- The even ones are read first, and meet the exception; the odd ones just end. -/
def brokenTrace : List (Reader × Answer Nat PyError) :=
  [(.first, .item 2), (.second, .item 1), (.first, .item 4), (.second, .item 3),
    (.first, .raised { kind := .osError, text := "" }), (.second, .stop)]

theorem calls_broken : ∃ s, Calls Generator.next evens (splitIter broken) brokenTrace s :=
  ⟨_, .more .second 5 (.more .first 5 (.more .second 5 (.more .first 5 (.more .second 5
    (.more .first 5 .none rfl) rfl) rfl) rfl) rfl) rfl⟩

theorem split_iter_shares_broken : ∃ s, Calls Generator.next evens (splitIter broken) brokenTrace s ∧
    ∃ items read, Tally Generator.next broken items read s.shared ∧
      ∀ r, yieldedBy r brokenTrace = (read r).filter (keeps evens r) := by
  obtain ⟨s, hCalls⟩ := calls_broken
  exact ⟨s, hCalls, split_iter_shares Generator.next evens broken brokenTrace s hCalls⟩

theorem split_iter_splits_broken : ∃ s, Divided evens broken brokenTrace s := by
  obtain ⟨s, hCalls⟩ := calls_broken
  exact ⟨s, split_iter_splits broken evens brokenTrace s hCalls⟩

theorem ending_of_firstRaised {ending : Option PyError} {items : List α}
    (h : firstRaised condition ending items = none) : ending = none := by
  induction items with
  | nil => exact h
  | cons x rest ih =>
      rw [firstRaised] at h
      cases hCondition : condition x with
      | error e => simp [hCondition] at h
      | ok wanted => exact ih (by simpa [hCondition] using h)

/-- What `list` gives for a generator that has not ended. The other one is where it was. -/
structure Drained (condition : α → Except PyError Bool) (r : Reader) (s s' : Split α (Generator α))
    (items : List α) : Prop where
  quiet : firstRaised condition s.shared.source.raised (unseen s.shared r) = none
  items_eq : items = (unseen s.shared r).filter (keeps condition r)
  other : unseen s'.shared r.other = unseen s.shared r.other
  ended : s'.ended r.other = s.ended r.other
  source : s'.shared.source.raised = none

theorem Split.drain_cases (fuel : Nat) (s : Split α (Generator α)) (hOpen : s.ended r = false)
    {result : Except PyError (List α)} (h : s.drain Generator.next condition r fuel = some (result, s')) :
    (∃ items, result = .ok items ∧ Drained condition r s s' items) ∨
      ∃ e, result = .error e ∧
        firstRaised condition s.shared.source.raised (unseen s.shared r) = some e := by
  induction fuel generalizing s result with
  | zero => cases h
  | succ fuel ih =>
      rw [Split.drain] at h
      cases hNext : s.next Generator.next condition r fuel with
      | none =>
          rw [hNext] at h
          cases h
      | some told =>
          obtain ⟨answer, t⟩ := told
          obtain ⟨more, hTurns⟩ := turns_of_next fuel s hNext
          obtain ⟨hUnseen, hOther⟩ := hTurns.unseen
          have hKept := hTurns.kept
          rw [hNext] at h
          cases hTurns.told hOpen with
          | item x hEnded hSource hFirst =>
              obtain ⟨⟨rest, last⟩, hRest, hResult⟩ := Option.map_eq_some_iff.mp h
              obtain ⟨rfl, rfl⟩ := Prod.mk.inj hResult
              rcases ih t (by rw [hEnded, hOpen]) hRest with ⟨items, rfl, hDrained⟩ | ⟨e, rfl, hRaised⟩
              · refine .inl ⟨x :: items, rfl, hFirst ▸ hDrained.quiet, ?_, hDrained.other.trans hOther,
                  hDrained.ended.trans (by rw [hEnded]), hDrained.source⟩
                rw [hUnseen, List.filter_append, hKept, ← hDrained.items_eq]
                rfl
              · exact .inr ⟨e, rfl, hFirst ▸ hRaised⟩
          | refused e hEnded hFirst =>
              obtain ⟨rfl, -⟩ := Prod.mk.inj (Option.some.inj h)
              exact .inr ⟨e, rfl, hFirst⟩
          | finished hEnded hNothing hSource hFirst =>
              cases hRaised : s.shared.source.raised with
              | some e =>
                  rw [Generator.ending, hRaised] at h
                  obtain ⟨rfl, -⟩ := Prod.mk.inj (Option.some.inj h)
                  exact .inr ⟨e, rfl, by rw [← hRaised, hFirst]⟩
              | none =>
                  rw [Generator.ending, hRaised] at h hKept
                  obtain ⟨rfl, rfl⟩ := Prod.mk.inj (Option.some.inj h)
                  refine .inl ⟨[], rfl, hFirst.trans hRaised, ?_, hOther, ?_, hSource⟩
                  · rw [hUnseen, hNothing, List.append_nil, hKept]
                    rfl
                  · rw [hEnded, Function.update_of_ne r.other_ne]

theorem Split.exists_drain (condition : α → Except PyError Bool) (r : Reader) (fuel : Nat)
    (s : Split α (Generator α)) (hFuel : (unseen s.shared r).length + 1 < fuel) :
    ∃ result s', s.drain Generator.next condition r fuel = some (result, s') := by
  induction fuel generalizing s with
  | zero => omega
  | succ fuel ih =>
      obtain ⟨answer, t, hNext⟩ := exists_next condition r fuel s (by omega)
      rw [Split.drain, hNext]
      cases answer with
      | stop => exact ⟨_, _, rfl⟩
      | raised e => exact ⟨_, _, rfl⟩
      | item x =>
          obtain ⟨more, hTurns⟩ := turns_of_next fuel s hNext
          have hSome : 0 < more.length := by
            refine List.length_pos_iff.mpr fun hNil => ?_
            have hKept := hTurns.kept
            rw [hNil] at hKept
            cases hKept
          have hLess : (unseen t.shared r).length + 1 < fuel := by
            rw [hTurns.unseen.1, List.length_append] at hFuel
            omega
          obtain ⟨rest, last, hRest⟩ := ih t hLess
          dsimp only
          rw [hRest]
          exact ⟨_, _, rfl⟩

/-- `split_list` returns the items that are for each of the two, or raises the first thing
that looking at them one after another raises. -/
theorem split_list_splits (g : Generator α) (condition : α → Except PyError Bool) :
    (∃ fuel result, splitList Generator.next condition fuel g = some result) ∧
      ∀ fuel result, splitList Generator.next condition fuel g = some result →
        result = match firstRaised condition g.raised g.yielded with
          | some e => .error e
          | none => .ok (g.yielded.filter (keeps condition .first),
              g.yielded.filter (keeps condition .second)) := by
  constructor
  · obtain ⟨result, s, hFirst⟩ := Split.exists_drain condition .first (g.yielded.length + 2)
      (splitIter g) (Nat.lt_succ_self _)
    refine ⟨g.yielded.length + 2, ?_⟩
    rw [splitList, hFirst]
    cases result with
    | error e => exact ⟨_, rfl⟩
    | ok positive =>
        rcases Split.drain_cases _ _ rfl hFirst with ⟨items, -, hDrained⟩ | ⟨e, hError, -⟩
        · have hSecond : unseen s.shared .second = g.yielded := hDrained.other
          obtain ⟨negative, t, hNegative⟩ := Split.exists_drain condition .second (g.yielded.length + 2)
            s (by rw [hSecond]; exact Nat.lt_succ_self _)
          dsimp only
          rw [hNegative]
          exact ⟨_, rfl⟩
        · cases hError
  · intro fuel result h
    rw [splitList] at h
    cases hFirst : (splitIter g).drain Generator.next condition .first fuel with
    | none =>
        rw [hFirst] at h
        cases h
    | some first =>
        obtain ⟨first, s⟩ := first
        rw [hFirst] at h
        rcases Split.drain_cases fuel _ rfl hFirst with ⟨positive, rfl, hDrained⟩ | ⟨e, rfl, hRaised⟩
        · have hQuiet : firstRaised condition g.raised g.yielded = none := hDrained.quiet
          obtain ⟨⟨negative, t⟩, hSecond, rfl⟩ := Option.map_eq_some_iff.mp h
          have hUnseen : unseen s.shared .second = g.yielded := hDrained.other
          have hOpen : s.ended .second = false := hDrained.ended
          have hRaised : s.shared.source.raised = g.raised :=
            hDrained.source.trans (ending_of_firstRaised hQuiet).symm
          rw [hQuiet]
          rcases Split.drain_cases fuel s hOpen hSecond with ⟨items, rfl, hOther⟩ | ⟨e, -, hError⟩
          · rw [hDrained.items_eq, hOther.items_eq, hUnseen]
            rfl
          · rw [hUnseen, hRaised, hQuiet] at hError
            cases hError
        · have hError : firstRaised condition g.raised g.yielded = some e := hRaised
          obtain rfl := Option.some.inj h
          rw [hError]

end Generator

end Spidercheck
