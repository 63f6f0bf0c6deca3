import Spidercheck.Execution.Program
import Mathlib.Order.CompleteBooleanAlgebra
import Mathlib.Order.CompletePartialOrder

/-! Programs beside others. What a program learns from one statement must still
be of use at the next, although other programs have written in between. So the
knowledge is about a world that only grows: a program is secure when each of its
statements, in every state of every later world, ends in a state of a world that
is later still. Any number of secure programs may then run interleaved. -/
namespace Execution

variable {World Label State Error Result Value Item : Type} [Preorder World]
  {Holds : World → State → Prop}

/-- Every statement keeps to the worlds, and a returned value meets `post` in
the world that is reached by then. -/
def Program.Secures (Holds : World → State → Prop) (post : World → Result → Prop) :
    Program Label State Error Result → World → Prop
  | .done (.ok value), w => post w value
  | .done (.error _), _ => True
  | .atomic _ write next, w => ∀ w', w ≤ w' → ∀ s, Holds w' s →
      ∃ w'', w' ≤ w'' ∧ Holds w'' (write s) ∧ (next s).Secures Holds post w''

/-- A condition that is never lost in later worlds. -/
def Lasting (post : World → Result → Prop) : Prop :=
  ∀ w w' value, w ≤ w' → post w value → post w' value

namespace Program
variable {w w' : World} {p : Program Label State Error Value}
  {k : Value → Program Label State Error Result} {post : World → Value → Prop}
  {post' : World → Result → Prop}

theorem secures_pure {value : Value} (h : post w value) :
    (pure value : Program Label State Error Value).Secures Holds post w := h

theorem secures_raise (e : Error) :
    (raise e : Program Label State Error Value).Secures Holds post w := trivial

/-- What is secure in a world is secure in every later one. -/
theorem Secures.later (h : p.Secures Holds post w) (hLasting : Lasting post) (hLater : w ≤ w') :
    p.Secures Holds post w' := by
  cases p with
  | done r =>
      cases r with
      | ok value => exact hLasting w w' value hLater h
      | error e => trivial
  | atomic label write next =>
      intro v hv s hs
      exact h v (hLater.trans hv) s hs

/-- Secure parts compose. -/
theorem Secures.bind (hp : p.Secures Holds post w)
    (hk : ∀ w', w ≤ w' → ∀ value, post w' value → (k value).Secures Holds post' w') :
    (p >>= k).Secures Holds post' w := by
  induction p generalizing w with
  | done r =>
      cases r with
      | ok value => exact hk w le_rfl value hp
      | error e => trivial
  | atomic label write next ih =>
      intro v hv s hs
      obtain ⟨u, hu, hWrite, hNext⟩ := hp v hv s hs
      exact ⟨u, hu, hWrite, ih s hNext fun w' hw' => hk w' (hv.trans (hu.trans hw'))⟩

/-- A sequence whose second part needs nothing of what the first one returns. -/
theorem Secures.seq (hp : p.Secures Holds (fun _ _ => True) w)
    (hk : ∀ w', w ≤ w' → ∀ value, (k value).Secures Holds post' w') :
    (p >>= k).Secures Holds post' w :=
  hp.bind fun w' hw' value _ => hk w' hw' value

/-- A secure program with a stronger end is one with a weaker end. -/
theorem Secures.weaken {weaker : World → Value → Prop} (hp : p.Secures Holds post w)
    (h : ∀ w', w ≤ w' → ∀ value, post w' value → weaker w' value) :
    p.Secures Holds weaker w := by
  induction p generalizing w with
  | done r =>
      cases r with
      | ok value => exact h w le_rfl value hp
      | error e => trivial
  | atomic label write next ih =>
      intro v hv s hs
      obtain ⟨u, hu, hWrite, hNext⟩ := hp v hv s hs
      exact ⟨u, hu, hWrite, ih s hNext fun w' hw' => h w' (hv.trans (hu.trans hw'))⟩

theorem Secures.attempt {handler : Error → Program Label State Error Value}
    (hp : p.Secures Holds post w)
    (hHandler : ∀ w', w ≤ w' → ∀ e, (handler e).Secures Holds post w') :
    (p.attempt handler).Secures Holds post w := by
  induction p generalizing w with
  | done r =>
      cases r with
      | ok value => exact hp
      | error e => exact hHandler w le_rfl e
  | atomic label write next ih =>
      intro v hv s hs
      obtain ⟨u, hu, hWrite, hNext⟩ := hp v hv s hs
      exact ⟨u, hu, hWrite, ih s hNext fun w' hw' => hHandler w' (hv.trans (hu.trans hw'))⟩

theorem secures_liftExcept {r : Except Error Value} (h : ∀ value, r = .ok value → post w value) :
    (liftExcept r : Program Label State Error Value).Secures Holds post w := by
  cases r with
  | ok value => exact h value rfl
  | error e => trivial

theorem secures_select (label : Label) (f : State → Value)
    (h : ∀ w', w ≤ w' → ∀ s, Holds w' s → post w' (f s)) :
    (select label f : Program Label State Error Value).Secures Holds post w :=
  fun w' hw' s hs => ⟨w', le_rfl, hs, h w' hw' s hs⟩

theorem secures_statement (label : Label) (f : State → Except Error Value × State)
    (h : ∀ w', w ≤ w' → ∀ s, Holds w' s → ∃ w'', w' ≤ w'' ∧ Holds w'' (f s).2 ∧
      ∀ value, (f s).1 = .ok value → post w'' value) :
    (statement label f : Program Label State Error Value).Secures Holds post w := by
  intro w' hw' s hs
  obtain ⟨w'', hw'', hWrite, hPost⟩ := h w' hw' s hs
  refine ⟨w'', hw'', hWrite, ?_⟩
  show (done (f s).1 : Program Label State Error Value).Secures Holds post w''
  cases hResult : (f s).1 with
  | ok value => exact hPost value hResult
  | error e => trivial

/-- A statement that stays in the world that it meets. -/
theorem secures_statement_stay (label : Label) (f : State → Except Error Value × State)
    (h : ∀ w', w ≤ w' → ∀ s, Holds w' s → Holds w' (f s).2) :
    (statement label f : Program Label State Error Value).Secures Holds (fun _ _ => True) w :=
  secures_statement label f fun w' hw' s hs => ⟨w', le_rfl, h w' hw' s hs, fun _ _ => trivial⟩

/-- A loop keeps to the worlds when its body does, in every world from the first one on. -/
theorem secures_foldlM {body : Value → Item → Program Label State Error Value} (items : List Item)
    (h : ∀ w', w ≤ w' → ∀ acc, ∀ item ∈ items,
      (body acc item).Secures Holds (fun _ _ => True) w') (init : Value) :
    (items.foldlM body init).Secures Holds (fun _ _ => True) w := by
  induction items generalizing init w with
  | nil => trivial
  | cons item rest ih =>
      rw [List.foldlM_cons]
      refine (h w le_rfl init item (List.mem_cons_self ..)).bind fun w' hw' acc _ => ?_
      refine ih (fun w'' hw'' acc' item' hMem => ?_) acc
      exact h w'' (hw'.trans hw'') acc' item' (List.mem_cons_of_mem _ hMem)

/-- A loop of secure turns is secure. -/
theorem secures_forM {body : Item → Program Label State Error Unit} (items : List Item)
    (h : ∀ w', w ≤ w' → ∀ item ∈ items, (body item).Secures Holds (fun _ _ => True) w') :
    (items.forM body).Secures Holds (fun _ _ => True) w := by
  induction items generalizing w with
  | nil => trivial
  | cons item rest ih =>
      refine (h w le_rfl item (List.mem_cons_self ..)).bind fun w' hw' _ _ => ?_
      refine ih fun w'' hw'' item' hMem => ?_
      exact h w'' (hw'.trans hw'') item' (List.mem_cons_of_mem _ hMem)

/-- The run lemma: a secure program that runs alone ends in a later world. -/
theorem Secures.run (hp : p.Secures Holds post w) {s : State} (hs : Holds w s) :
    ∃ w', w ≤ w' ∧ Holds w' (p.run s).2 ∧ ∀ value, (p.run s).1 = .ok value → post w' value := by
  induction p generalizing w s with
  | done r =>
      refine ⟨w, le_rfl, hs, ?_⟩
      rintro value rfl
      exact hp
  | atomic label write next ih =>
      obtain ⟨u, hu, hWrite, hNext⟩ := hp w le_rfl s hs
      obtain ⟨w', hw', hEnd, hPost⟩ := ih s hNext hWrite
      exact ⟨w', hu.trans hw', hEnd, hPost⟩

end Program

/-- The programs that were opened and what is left of them, with the state that
their statements led to in the order in which they came. -/
inductive Concurrent (Opens : Program Label State Error Result → Prop) (start : State) :
    List (Program Label State Error Result) → State → Prop where
  | start : Concurrent Opens start [] start
  | opened {pool : List (Program Label State Error Result)} {s : State}
      {p : Program Label State Error Result} (before : Concurrent Opens start pool s)
      (hOpens : Opens p) : Concurrent Opens start (p :: pool) s
  | step {front back : List (Program Label State Error Result)} {s : State} {label : Label}
      {write : State → State} {next : State → Program Label State Error Result}
      (before : Concurrent Opens start (front ++ .atomic label write next :: back) s) :
      Concurrent Opens start (front ++ next s :: back) (write s)

/-- A program may run to its end without being interrupted. -/
theorem Concurrent.runs {Opens : Program Label State Error Result → Prop} {start s : State}
    {front back : List (Program Label State Error Result)} {p : Program Label State Error Result}
    (h : Concurrent Opens start (front ++ p :: back) s) :
    Concurrent Opens start (front ++ .done (p.run s).1 :: back) (p.run s).2 := by
  induction p generalizing s with
  | done r => exact h
  | atomic label write next ih => exact ih s h.step

/-- Secure programs keep to the worlds, whatever the order of their statements. -/
theorem Concurrent.holds {Opens : Program Label State Error Result → Prop} {start s : State}
    {pool : List (Program Label State Error Result)} {w : World}
    (h : Concurrent Opens start pool s)
    (hSecure : ∀ p, Opens p → ∀ w', w ≤ w' → p.Secures Holds (fun _ _ => True) w')
    (hStart : Holds w start) :
    ∃ w', w ≤ w' ∧ Holds w' s ∧ ∀ p ∈ pool, p.Secures Holds (fun _ _ => True) w' := by
  induction h with
  | start => exact ⟨w, le_rfl, hStart, by simp⟩
  | opened before hOpens ih =>
      obtain ⟨w', hw', hs, hPool⟩ := ih
      refine ⟨w', hw', hs, fun p hp => ?_⟩
      rcases List.mem_cons.mp hp with rfl | hp
      · exact hSecure p hOpens w' hw'
      · exact hPool p hp
  | @step front back s label write next before ih =>
      obtain ⟨w', hw', hs, hPool⟩ := ih
      obtain ⟨w'', hw'', hWrite, hNext⟩ :=
        hPool _ (List.mem_append_right _ (List.mem_cons_self ..)) w' le_rfl s hs
      refine ⟨w'', hw'.trans hw'', hWrite, fun p hp => ?_⟩
      have hLasting : Lasting fun (_ : World) (_ : Result) => True := fun _ _ _ _ _ => trivial
      rcases List.mem_append.mp hp with hp | hp
      · exact (hPool p (List.mem_append_left _ hp)).later hLasting hw''
      · rcases List.mem_cons.mp hp with rfl | hp
        · exact hNext
        · exact (hPool p (List.mem_append_right _ (List.mem_cons_of_mem _ hp))).later hLasting hw''

end Execution
