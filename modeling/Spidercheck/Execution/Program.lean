import Mathlib.Data.List.Basic
import Mathlib.Tactic.Common

/-! Programs over shared state. A program is a sequence of labelled atomic
statements, each of which reads and rewrites the whole state, and it ends by
returning a value or by raising an exception. What it wrote before raising
stays written: there is no surrounding transaction. -/
namespace Execution

inductive Program (Label State Error Result : Type) where
  | done (result : Except Error Result)
  | atomic (label : Label) (write : State → State)
      (next : State → Program Label State Error Result)

namespace Program
variable {Label State Error Result Value Other : Type}

def bind : Program Label State Error Value → (Value → Program Label State Error Result) →
    Program Label State Error Result
  | done (.ok value), k => k value
  | done (.error e), _ => done (.error e)
  | atomic label write next, k => atomic label write fun s => bind (next s) k

instance : Monad (Program Label State Error) where
  pure value := done (.ok value)
  bind := bind

instance : LawfulMonad (Program Label State Error) := by
  refine LawfulMonad.mk' _ ?_ ?_ ?_
  · intro α p
    induction p with
    | done r => cases r <;> rfl
    | atomic label write next ih => exact congrArg (atomic label write) (funext ih)
  · intros
    rfl
  · intro α β γ p k l
    induction p with
    | done r => cases r <;> rfl
    | atomic label write next ih => exact congrArg (atomic label write) (funext ih)

def raise (e : Error) : Program Label State Error Result := done (.error e)

def liftExcept (r : Except Error Result) : Program Label State Error Result := done r

/-- A single statement that may fail; when it fails it decides what it leaves. -/
def statement (label : Label) (f : State → Except Error Result × State) :
    Program Label State Error Result :=
  atomic label (fun s => (f s).2) fun s => done (f s).1

def select (label : Label) (f : State → Result) : Program Label State Error Result :=
  atomic label id fun s => done (.ok (f s))

/-- `try`/`except`: the handler takes over where the body raised. -/
def attempt : Program Label State Error Result → (Error → Program Label State Error Result) →
    Program Label State Error Result
  | done (.ok value), _ => done (.ok value)
  | done (.error e), handler => handler e
  | atomic label write next, handler => atomic label write fun s => attempt (next s) handler

/-- Execution with no other program running. -/
def run : Program Label State Error Result → State → Except Error Result × State
  | done r, s => (r, s)
  | atomic _ write next, s => run (next s) (write s)

variable (p : Program Label State Error Value) (k : Value → Program Label State Error Result)
  (s : State)

@[simp] theorem run_pure (value : Value) :
    (pure value : Program Label State Error Value).run s = (.ok value, s) := rfl

@[simp] theorem run_raise (e : Error) :
    (raise e : Program Label State Error Value).run s = (.error e, s) := rfl

@[simp] theorem run_statement (label : Label) (f : State → Except Error Value × State) :
    (statement label f).run s = f s := rfl

@[simp] theorem run_select (label : Label) (f : State → Value) :
    (select label f : Program Label State Error Value).run s = (.ok (f s), s) := rfl

/-- A sequence runs its first part to the end, and stops there if it raised. -/
theorem run_bind : (p >>= k).run s =
    match p.run s with
    | (.ok value, t) => (k value).run t
    | (.error e, t) => (.error e, t) := by
  induction p generalizing s with
  | done r => cases r <;> rfl
  | atomic label write next ih => exact ih s (write s)

theorem run_bind_ok {value : Value} {t : State} (h : p.run s = (.ok value, t)) :
    (p >>= k).run s = (k value).run t := by
  rw [run_bind, h]

theorem run_bind_error {e : Error} {t : State} (h : p.run s = (.error e, t)) :
    (p >>= k).run s = (.error e, t) := by
  rw [run_bind, h]

/-- A value that is thrown away does not change what was written. -/
theorem run_bind_pure_snd (result : Result) :
    ((p >>= fun _ => (pure result : Program Label State Error Result)).run s).2 = (p.run s).2 := by
  rw [run_bind]
  split
  · next value t h => rw [h, run_pure]
  · next e t h => rw [h]

/-- A first part that either returns or raises, by a test. -/
theorem run_bind_ite {c : Prop} [Decidable c] {value : Value} {e : Error} {t u : State}
    (h : p.run s = if c then (.ok value, t) else (.error e, u)) :
    (p >>= k).run s = if c then (k value).run t else (.error e, u) := by
  by_cases hc : c
  · rw [if_pos hc] at h ⊢
    exact run_bind_ok p k s h
  · rw [if_neg hc] at h ⊢
    exact run_bind_error p k s h

@[simp] theorem run_select_bind (label : Label) (f : State → Value) :
    (select label f >>= k).run s = (k (f s)).run s := rfl

@[simp] theorem run_liftExcept_ok_bind (value : Value) :
    (liftExcept (.ok value) >>= k).run s = (k value).run s := rfl

@[simp] theorem run_liftExcept_error_bind (e : Error) :
    (liftExcept (.error e) >>= k).run s = (.error e, s) := rfl

/-- The handler goes on in the state in which the body raised. -/
theorem run_attempt (handler : Error → Program Label State Error Value) :
    (p.attempt handler).run s =
    match p.run s with
    | (.ok value, t) => (.ok value, t)
    | (.error e, t) => (handler e).run t := by
  induction p generalizing s with
  | done r => cases r <;> rfl
  | atomic label write next ih => exact ih s (write s)

/-- A sequence returns exactly when both of its parts do. -/
theorem run_bind_eq_ok {result : Result} {u : State} :
    (p >>= k).run s = (.ok result, u) ↔
      ∃ value t, p.run s = (.ok value, t) ∧ (k value).run t = (.ok result, u) := by
  rw [run_bind]
  rcases p.run s with ⟨_ | value, t⟩
  · simp
  · simp

/-- A pure part that may raise has returned where the whole has. -/
theorem run_liftExcept_bind_eq_ok {r : Except Error Value} {result : Result} {u : State} :
    (liftExcept r >>= k).run s = (.ok result, u) ↔
      ∃ value, r = .ok value ∧ (k value).run s = (.ok result, u) := by
  cases r with
  | ok value => simp
  | error e => simp

end Program

/-! Invariants. A program maintains an invariant when each of its statements
does, whatever the state it meets, provided the invariant holds there. The rule
composes, and it is insensitive to what other programs do in between as long as
they maintain the invariant too. -/
section Invariant
variable {Label State Error Result Value : Type} {Inv : State → Prop}

def Program.Maintains (Inv : State → Prop) : Program Label State Error Result → Prop
  | .done _ => True
  | .atomic _ write next => ∀ s, Inv s → Inv (write s) ∧ (next s).Maintains Inv

namespace Program

variable {p : Program Label State Error Value} {k : Value → Program Label State Error Result}
  {post : Value → Prop}

@[simp] theorem maintains_pure (value : Value) :
    (pure value : Program Label State Error Value).Maintains Inv := trivial

@[simp] theorem maintains_raise (e : Error) :
    (raise e : Program Label State Error Value).Maintains Inv := trivial

@[simp] theorem maintains_liftExcept (r : Except Error Value) :
    (liftExcept r : Program Label State Error Value).Maintains Inv := trivial

theorem maintains_liftExcept_bind {r : Except Error Value}
    (h : ∀ value, r = .ok value → (k value).Maintains Inv) : (liftExcept r >>= k).Maintains Inv := by
  cases r with
  | ok value => exact h value rfl
  | error e => trivial

theorem maintains_select (label : Label) (f : State → Value) :
    (select label f : Program Label State Error Value).Maintains Inv :=
  fun _ hs => ⟨hs, trivial⟩

theorem maintains_statement (label : Label) (f : State → Except Error Value × State)
    (h : ∀ s, Inv s → Inv (f s).2) : (statement label f).Maintains Inv :=
  fun s hs => ⟨h s hs, trivial⟩

/-- Parts that maintain an invariant compose. -/
theorem Maintains.bind (hp : p.Maintains Inv) (hk : ∀ value, (k value).Maintains Inv) :
    (p >>= k).Maintains Inv := by
  induction p with
  | done r =>
      cases r with
      | ok value => exact hk value
      | error e => trivial
  | atomic label write next ih =>
      intro s hs
      exact ⟨(hp s hs).1, ih s (hp s hs).2⟩

/-- So does a handler with its body. -/
theorem Maintains.attempt {handler : Error → Program Label State Error Value}
    (hp : p.Maintains Inv) (hHandler : ∀ e, (handler e).Maintains Inv) :
    (p.attempt handler).Maintains Inv := by
  induction p with
  | done r =>
      cases r with
      | ok value => trivial
      | error e => exact hHandler e
  | atomic label write next ih =>
      intro s hs
      exact ⟨(hp s hs).1, ih s (hp s hs).2⟩

/-- A loop maintains what each of its iterations maintains. -/
theorem maintains_foldlM {Item : Type} {body : Value → Item → Program Label State Error Value}
    (items : List Item) (h : ∀ acc, ∀ item ∈ items, (body acc item).Maintains Inv) (init : Value) :
    (items.foldlM body init).Maintains Inv := by
  induction items generalizing init with
  | nil => trivial
  | cons item rest ih =>
      rw [List.foldlM_cons]
      exact (h init item (List.mem_cons_self ..)).bind fun acc =>
        ih (fun acc' item' hMem => h acc' item' (List.mem_cons_of_mem _ hMem)) acc

/-- The run lemma: an invariant that every statement maintains holds at the end. -/
theorem Maintains.run (hp : p.Maintains Inv) {s : State} (hs : Inv s) : Inv (p.run s).2 := by
  induction p generalizing s with
  | done r => exact hs
  | atomic label write next ih => exact ih s (hp s hs).2 (hp s hs).1

/-- The invariant holds wherever a run ends. -/
theorem Maintains.of_run (hp : p.Maintains Inv) {s t : State} {answer : Except Error Value}
    (hRun : p.run s = (answer, t)) (hs : Inv s) : Inv t := by
  have hEnd : Inv (p.run s).2 := hp.run hs
  rwa [hRun] at hEnd

end Program
end Invariant

end Execution
