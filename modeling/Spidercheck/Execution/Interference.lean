import Spidercheck.Execution.Program
import Mathlib.Data.Fintype.EquivFin

/-! Interference. Each program relies on what the others do between two of its
statements, and guarantees what each of its own statements does. Then it meets
its postcondition in every interleaving with programs that respect its reliance,
however many of them there are. -/
namespace Execution

variable {Label State Error Result Value Item ι : Type}

/-- From here on every statement does what `Own` says, when the others do what
`Others` says before it; and the program ends as `post` tells. -/
def Program.Guarantees (Others Own : State → State → Prop)
    (post : Except Error Result → State → Prop) : Program Label State Error Result → State → Prop
  | .done r, s => post r s
  | .atomic _ write next, s => ∀ s', Others s s' →
      Own s' (write s') ∧ (next s').Guarantees Others Own post (write s')

def Ends (returned : Result → State → Prop) (raised : Error → State → Prop) :
    Except Error Result → State → Prop
  | .ok value => returned value
  | .error e => raised e

structure Reliance (Others : State → State → Prop) : Prop where
  refl : ∀ s, Others s s
  trans : ∀ s t u, Others s t → Others t u → Others s u

/-- A postcondition that others cannot spoil. -/
def Steady (Others : State → State → Prop) (post : Except Error Result → State → Prop) : Prop :=
  ∀ r s s', post r s → Others s s' → post r s'

namespace Program
variable {Others Own : State → State → Prop} {s s' : State}
  {p : Program Label State Error Value} {k : Value → Program Label State Error Result}
  {mid post weaker : Except Error Value → State → Prop} {post' : Except Error Result → State → Prop}

theorem guarantees_pure {value : Value} (h : post (.ok value) s) :
    (pure value : Program Label State Error Value).Guarantees Others Own post s := h

theorem guarantees_raise {e : Error} (h : post (.error e) s) :
    (raise e : Program Label State Error Value).Guarantees Others Own post s := h

theorem guarantees_liftExcept {r : Except Error Value} (h : post r s) :
    (liftExcept r : Program Label State Error Value).Guarantees Others Own post s := h

/-- Others may write before the program goes on. -/
theorem Guarantees.later (hReliance : Reliance Others) (hSteady : Steady Others post)
    (h : p.Guarantees Others Own post s) (hOthers : Others s s') :
    p.Guarantees Others Own post s' := by
  cases p with
  | done r => exact hSteady r s s' h hOthers
  | atomic label write next => exact fun t ht => h t (hReliance.trans s s' t hOthers ht)

/-- A guarantee with a stronger end is one with a weaker end. -/
theorem Guarantees.weaken (h : p.Guarantees Others Own post s)
    (hPost : ∀ r t, post r t → weaker r t) : p.Guarantees Others Own weaker s := by
  induction p generalizing s with
  | done r => exact hPost r s h
  | atomic label write next ih =>
      exact fun t ht => ⟨(h t ht).1, ih t (h t ht).2⟩

/-- What all statements do, one's own and those of the others, is known at the end. -/
theorem Guarantees.frame {Total : State → State → Prop} (h : p.Guarantees Others Own post s)
    (hTotal : Reliance Total) (hOthers : ∀ t u, Others t u → Total t u)
    (hOwn : ∀ t u, Own t u → Total t u) :
    p.Guarantees Others Own (fun r t => post r t ∧ Total s t) s := by
  suffices hFrom : ∀ t, Total s t → p.Guarantees Others Own post t →
      p.Guarantees Others Own (fun r u => post r u ∧ Total s u) t from hFrom s (hTotal.refl s) h
  clear h
  induction p with
  | done r => exact fun t ht hPost => ⟨hPost, ht⟩
  | atomic label write next ih =>
      intro t ht hNext u hu
      obtain ⟨hWrite, hRest⟩ := hNext u hu
      have hBefore : Total s u := hTotal.trans s t u ht (hOthers t u hu)
      exact ⟨hWrite, ih u _ (hTotal.trans s u _ hBefore (hOwn u _ hWrite)) hRest⟩

/-- A sequence goes on where its first part returned, and ends where that raised. -/
theorem Guarantees.bind (h : p.Guarantees Others Own mid s)
    (hk : ∀ value t, mid (.ok value) t → (k value).Guarantees Others Own post' t)
    (hRaised : ∀ e t, mid (.error e) t → post' (.error e) t) :
    (p >>= k).Guarantees Others Own post' s := by
  induction p generalizing s with
  | done r =>
      cases r with
      | ok value => exact hk value s h
      | error e => exact hRaised e s h
  | atomic label write next ih =>
      exact fun t ht => ⟨(h t ht).1, ih t (h t ht).2⟩

/-- A handler guarantees what is promised for its errors. -/
theorem Guarantees.attempt {handler : Error → Program Label State Error Value}
    (h : p.Guarantees Others Own mid s) (hReturned : ∀ value t, mid (.ok value) t → post (.ok value) t)
    (hHandler : ∀ e t, mid (.error e) t → (handler e).Guarantees Others Own post t) :
    (p.attempt handler).Guarantees Others Own post s := by
  induction p generalizing s with
  | done r =>
      cases r with
      | ok value => exact hReturned value s h
      | error e => exact hHandler e s h
  | atomic label write next ih =>
      exact fun t ht => ⟨(h t ht).1, ih t (h t ht).2⟩

theorem guarantees_statement {label : Label} {f : State → Except Error Value × State}
    (h : ∀ t, Others s t → Own t (f t).2 ∧ post (f t).1 (f t).2) :
    (statement label f).Guarantees Others Own post s := h

theorem guarantees_select {label : Label} {f : State → Value}
    (h : ∀ t, Others s t → Own t t ∧ post (.ok (f t)) t) :
    (select label f : Program Label State Error Value).Guarantees Others Own post s := h

/-- A loop carries an invariant from one iteration to the next. -/
theorem guarantees_foldlM {body : Value → Item → Program Label State Error Value}
    (Inv : List Item → Value → State → Prop) (Raised : Error → State → Prop) {items : List Item}
    (hBody : ∀ before item after, items = before ++ item :: after → ∀ acc t, Inv before acc t →
      (body acc item).Guarantees Others Own (Ends (Inv (before ++ [item])) Raised) t)
    {init : Value} (h : Inv [] init s) :
    (items.foldlM body init).Guarantees Others Own (Ends (Inv items) Raised) s := by
  suffices hSuffix : ∀ before after, items = before ++ after → ∀ acc t, Inv before acc t →
      (after.foldlM body acc).Guarantees Others Own (Ends (Inv items) Raised) t from
    hSuffix [] items rfl init s h
  intro before after
  induction after generalizing before with
  | nil =>
      rintro hItems acc t ht
      rw [List.append_nil] at hItems
      exact guarantees_pure (hItems ▸ ht)
  | cons item rest ih =>
      intro hItems acc t ht
      rw [List.foldlM_cons]
      refine (hBody before item rest hItems acc t ht).bind (fun acc' u hu => ?_) fun _ _ hu => hu
      exact ih (before ++ [item]) (by rw [hItems, List.append_assoc]; rfl) acc' u hu

end Program

/-- What is left of the programs after some of their statements, and the state. -/
inductive Together [DecidableEq ι] (programs : ι → Program Label State Error Result) (start : State) :
    (ι → Program Label State Error Result) → State → Prop where
  | start : Together programs start programs start
  | step {rest : ι → Program Label State Error Result} {s : State}
      (before : Together programs start rest s) (i : ι) {label : Label} {write : State → State}
      {next : State → Program Label State Error Result} (hNext : rest i = .atomic label write next) :
      Together programs start (Function.update rest i (next s)) (write s)

variable [DecidableEq ι] {programs rest : ι → Program Label State Error Result} {start s : State}

/-- A program may run to its end without being interrupted. -/
theorem Together.runs (h : Together programs start rest s) (i : ι) :
    Together programs start (Function.update rest i (.done ((rest i).run s).1)) ((rest i).run s).2 := by
  generalize hProgram : rest i = p
  induction p generalizing rest s with
  | done r =>
      have hSame : Function.update rest i (.done r) = rest := hProgram ▸ Function.update_eq_self i rest
      rw [Program.run, hSame]
      exact h
  | atomic label write next ih =>
      have hStep := ih s (h.step i hProgram) (Function.update_self ..)
      rwa [Function.update_idem] at hStep

/-- Whatever has been done so far, finitely many programs can all be run to their ends. -/
theorem Together.completes [Finite ι] (h : Together programs start rest s) :
    ∃ rest' s', Together programs start rest' s' ∧ ∀ i, ∃ r, rest' i = .done r := by
  have hSome (chosen : List ι) : ∃ rest' s', Together programs start rest' s' ∧
      ∀ i ∈ chosen, ∃ r, rest' i = .done r := by
    induction chosen with
    | nil => exact ⟨rest, s, h, by simp⟩
    | cons i chosen ih =>
        obtain ⟨rest', s', hSoFar, hDone⟩ := ih
        refine ⟨_, _, hSoFar.runs i, fun j hj => ?_⟩
        by_cases hSame : j = i
        · exact ⟨_, by rw [hSame, Function.update_self]⟩
        · rw [Function.update_of_ne hSame]
          exact hDone j ((List.mem_cons.mp hj).resolve_left hSame)
  obtain ⟨_⟩ := nonempty_fintype ι
  obtain ⟨rest', s', hEnd, hDone⟩ := hSome Finset.univ.toList
  exact ⟨rest', s', hEnd, fun i => hDone i (by simp)⟩

/-- When every program does what the others rely on, each of them meets its postcondition. -/
theorem Together.guarantees {Others Own : ι → State → State → Prop}
    {post : ι → Except Error Result → State → Prop} (h : Together programs start rest s)
    (hReliance : ∀ i, Reliance (Others i)) (hSteady : ∀ i, Steady (Others i) (post i))
    (hApart : ∀ i j, i ≠ j → ∀ t u, Own i t u → Others j t u)
    (hStart : ∀ i, (programs i).Guarantees (Others i) (Own i) (post i) start) :
    ∀ i, (rest i).Guarantees (Others i) (Own i) (post i) s := by
  induction h with
  | start => exact hStart
  | @step rest s before i label write next hNext ih =>
      have hMoves := ih i
      rw [hNext] at hMoves
      obtain ⟨hOwn, hRest⟩ := hMoves s ((hReliance i).refl s)
      intro j
      by_cases hSame : j = i
      · subst hSame
        rwa [Function.update_self]
      · rw [Function.update_of_ne hSame]
        exact (ih j).later (hReliance j) (hSteady j) (hApart i j (Ne.symm hSame) _ _ hOwn)

/-- What every statement of every program does, they do together. -/
theorem Together.relates {Others Own : ι → State → State → Prop}
    {post : ι → Except Error Result → State → Prop} {Total : State → State → Prop}
    (h : Together programs start rest s) (hReliance : ∀ i, Reliance (Others i))
    (hSteady : ∀ i, Steady (Others i) (post i))
    (hApart : ∀ i j, i ≠ j → ∀ t u, Own i t u → Others j t u)
    (hStart : ∀ i, (programs i).Guarantees (Others i) (Own i) (post i) start)
    (hTotal : Reliance Total) (hOwn : ∀ i t u, Own i t u → Total t u) : Total start s := by
  induction h with
  | start => exact hTotal.refl start
  | @step rest s before i label write next hNext ih =>
      have hMoves := before.guarantees hReliance hSteady hApart hStart i
      rw [hNext] at hMoves
      exact hTotal.trans start s _ ih (hOwn i s _ (hMoves s ((hReliance i).refl s)).1)

end Execution
