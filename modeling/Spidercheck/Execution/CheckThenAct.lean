import Spidercheck.Execution.Interleaving

/-! Two programs that look for a value before they create it. Between the look
and the creation the other program may create the value, and this is the only
way in which the two do not behave as if one ran after the other. -/
namespace Execution

open Program

variable {Label State Error Result Other Value Value' : Type}

/-- Both programs run to their ends, with what each of them returned or raised. -/
inductive Returning : Program Label State Error Result → Program Label State Error Other → State →
    List (Side × Label) → Except Error Result → Except Error Other → State → Prop where
  | done (r : Except Error Result) (r' : Except Error Other) (s : State) :
      Returning (.done r) (.done r') s [] r r' s
  | left {label : Label} {write : State → State} {next : State → Program Label State Error Result}
      {q : Program Label State Error Other} {s t : State} {trace : List (Side × Label)}
      {r : Except Error Result} {r' : Except Error Other}
      (rest : Returning (next s) q (write s) trace r r' t) :
      Returning (.atomic label write next) q s ((.left, label) :: trace) r r' t
  | right {label : Label} {write : State → State} {next : State → Program Label State Error Other}
      {p : Program Label State Error Result} {s t : State} {trace : List (Side × Label)}
      {r : Except Error Result} {r' : Except Error Other}
      (rest : Returning p (next s) (write s) trace r r' t) :
      Returning p (.atomic label write next) s ((.right, label) :: trace) r r' t

section Returning
variable {p : Program Label State Error Result} {q : Program Label State Error Other}
  {s t : State} {trace : List (Side × Label)} {r : Except Error Result} {r' : Except Error Other}

/-- The sides of an interleaving can be exchanged. -/
theorem Returning.swap (h : Returning p q s trace r r' t) :
    Returning q p s (swapTrace trace) r' r t := by
  induction h with
  | done r r' s => exact .done r' r s
  | left rest ih => exact .right ih
  | right rest ih => exact .left ih

/-- When one program has ended, the other one runs alone. -/
theorem Returning.right_alone {ended : Except Error Result}
    (h : Returning (.done ended) q s trace r r' t) : r = ended ∧ q.run s = (r', t) := by
  generalize hp : (Program.done ended : Program Label State Error Result) = p at h
  induction h with
  | done r r' s =>
      obtain rfl : ended = r := by simpa using hp
      exact ⟨rfl, rfl⟩
  | left rest ih => cases hp
  | right rest ih => exact ih hp

/-- When one side is over, the other one runs alone. -/
theorem Returning.left_alone {ended : Except Error Other}
    (h : Returning p (.done ended) s trace r r' t) : r' = ended ∧ p.run s = (r, t) :=
  h.swap.right_alone

end Returning

def create (label : Label) (insert : State → Except Error Value × State) :
    Program Label State Error (Value × Bool) := do
  return (← statement label insert, true)

theorem create_eq (label : Label) (insert : State → Except Error Value × State) :
    create label insert = .atomic label (fun s => (insert s).2)
      fun s => .done ((insert s).1.map fun value => (value, true)) := by
  have hNext (s : State) : (Program.done (insert s).1 >>= fun value => pure (value, true) :
      Program Label State Error (Value × Bool)) =
        .done ((insert s).1.map fun value => (value, true)) := by
    cases (insert s).1 with
    | error e => rfl
    | ok value => rfl
  exact congrArg (Program.atomic label _) (funext hNext)

theorem run_create (label : Label) (insert : State → Except Error Value × State) (s : State) :
    (create label insert).run s =
      ((insert s).1.map fun value => (value, true), (insert s).2) := by
  rw [create_eq]
  rfl

/-- Look for a value, and create it where there is none. -/
def checkThenAct (look : Label) (find : State → Option Value) (label : Label)
    (insert : State → Except Error Value × State) : Program Label State Error (Value × Bool) := do
  match ← select look find with
  | some found => return (found, false)
  | none => create label insert

def Alternates : List (Side × Label) → Prop
  | e :: e' :: _ => e'.1 = e.1.swap
  | _ => False

theorem alternates_swapTrace {trace : List (Side × Label)} :
    Alternates (swapTrace trace) ↔ Alternates trace := by
  match trace with
  | [] => exact Iff.rfl
  | [_] => exact Iff.rfl
  | e :: e' :: rest =>
      show e'.1.swap = e.1.swap.swap ↔ e'.1 = e.1.swap
      constructor
      · intro h
        simpa using congrArg Side.swap h
      · intro h
        rw [h]

section Race
variable {look look' label label' : Label} {find : State → Option Value}
  {find' : State → Option Value'} {insert : State → Except Error Value × State}
  {insert' : State → Except Error Value' × State} {s t : State} {trace : List (Side × Label)}
  {r : Except Error (Value × Bool)} {r' : Except Error (Value' × Bool)}

/-- The outcomes of running one program after the other, in one of the two orders. -/
def Successive (p : Program Label State Error Result) (q : Program Label State Error Other) (s : State)
    (r : Except Error Result) (r' : Except Error Other) (t : State) : Prop :=
  (∃ u, p.run s = (r, u) ∧ q.run u = (r', t)) ∨ ∃ u, q.run s = (r', u) ∧ p.run u = (r, t)

theorem Successive.swap {p : Program Label State Error Result} {q : Program Label State Error Other}
    {r : Except Error Result} {r' : Except Error Other} (h : Successive p q s r r' t) :
    Successive q p s r' r t := Or.symm h

/-- Alone, it returns what is found or else creates it. -/
theorem run_checkThenAct (s : State) : (checkThenAct look find label insert).run s =
    match find s with
    | some found => (.ok (found, false), s)
    | none => (create label insert).run s := by
  rw [checkThenAct, run_select_bind]
  cases find s with
  | some found => rfl
  | none => rfl

/-- Two single statements come one after the other. -/
theorem Returning.successive_create
    (h : Returning (create label insert) (create label' insert') s trace r r' t) :
    Successive (create label insert) (create label' insert') s r r' t := by
  rw [create_eq, create_eq] at h ⊢
  cases h with
  | left rest =>
      obtain ⟨rfl, hRight⟩ := rest.right_alone
      exact .inl ⟨_, rfl, hRight⟩
  | right rest =>
      obtain ⟨rfl, hLeft⟩ := rest.left_alone
      exact .inr ⟨_, rfl, hLeft⟩

variable (look) in
/-- The left program looks first. -/
theorem Returning.successive_of_left
    (h : Returning (match find s with
      | some found => .done (.ok (found, false))
      | none => create label insert) (checkThenAct look' find' label' insert') s trace r r' t) :
    (¬ (find s = none ∧ find' s = none ∧ Alternates ((.left, look) :: trace)) ∧
      Successive (checkThenAct look find label insert) (checkThenAct look' find' label' insert')
        s r r' t) ∨
    ((find s = none ∧ find' s = none ∧ Alternates ((.left, look) :: trace)) ∧
      Successive (create label insert) (create label' insert') s r r' t) := by
  have hLook : (checkThenAct look find label insert).run s = match find s with
      | some found => (.ok (found, false), s)
      | none => (create label insert).run s := run_checkThenAct s
  cases hFind : find s with
  | some found =>
      simp only [hFind] at h hLook
      obtain ⟨rfl, hRight⟩ := h.right_alone
      exact .inl ⟨by simp, .inl ⟨s, hLook, hRight⟩⟩
  | none =>
      simp only [hFind] at h hLook
      rw [create_eq] at h
      cases h with
      | left rest =>
          obtain ⟨rfl, hRight⟩ := rest.right_alone
          refine .inl ⟨?_, .inl ⟨_, hLook.trans (run_create ..), hRight⟩⟩
          rintro ⟨-, -, hSame⟩
          cases hSame
      | right rest =>
          rw [← create_eq] at rest
          have hLook' : (checkThenAct look' find' label' insert').run s = match find' s with
              | some found => (.ok (found, false), s)
              | none => (create label' insert').run s := run_checkThenAct s
          cases hFind' : find' s with
          | some found' =>
              simp only [id, hFind'] at rest hLook'
              obtain ⟨rfl, hLeft⟩ := rest.left_alone
              exact .inl ⟨by simp, .inr ⟨s, hLook', hLook.trans hLeft⟩⟩
          | none =>
              simp only [id, hFind'] at rest
              exact .inr ⟨⟨rfl, rfl, rfl⟩, rest.successive_create⟩

/-- Two programs that check and then act run one after the other, or both of them
look, find nothing, and then act one after the other. -/
theorem Returning.successive
    (h : Returning (checkThenAct look find label insert) (checkThenAct look' find' label' insert')
      s trace r r' t) :
    (¬ (find s = none ∧ find' s = none ∧ Alternates trace) ∧
      Successive (checkThenAct look find label insert) (checkThenAct look' find' label' insert')
        s r r' t) ∨
    ((find s = none ∧ find' s = none ∧ Alternates trace) ∧
      Successive (create label insert) (create label' insert') s r r' t) := by
  cases h with
  | left rest => exact rest.successive_of_left look
  | @right _ _ _ _ _ _ trace _ _ rest =>
      have hTrace : Alternates ((.left, look') :: swapTrace trace) ↔ Alternates ((.right, look') :: trace) :=
        @alternates_swapTrace _ ((.right, look') :: trace)
      have hCases := rest.swap.successive_of_left look'
      rw [hTrace] at hCases
      rcases hCases with ⟨hNone, hSuccessive⟩ | ⟨⟨hNone', hNone, hTrace⟩, hSuccessive⟩
      · exact .inl ⟨fun ⟨hLeft, hRight, hTrace⟩ => hNone ⟨hRight, hLeft, hTrace⟩, hSuccessive.swap⟩
      · exact .inr ⟨⟨hNone, hNone', hTrace⟩, hSuccessive.swap⟩

end Race

end Execution
