import Spidercheck.Execution.Program
import Mathlib.Data.List.Sublists

/-! Two programs over one state, interleaved statement by statement. When does
the outcome agree with running one after the other? A program that first loads
and then saves is safe as long as the other one does not save in between. -/
namespace Execution

open Program

inductive Side where
  | left
  | right
  deriving DecidableEq, Repr

def Side.swap : Side → Side
  | left => right
  | right => left

@[simp] theorem Side.swap_swap (side : Side) : side.swap.swap = side := by
  cases side <;> rfl

variable {Label State Error Result Other : Type}

def swapTrace (trace : List (Side × Label)) : List (Side × Label) :=
  trace.map fun e => (e.1.swap, e.2)

theorem sublist_swapTrace {part trace : List (Side × Label)} :
    part.Sublist (swapTrace trace) ↔ (swapTrace part).Sublist trace := by
  have hTwice (l : List (Side × Label)) : swapTrace (swapTrace l) = l := by
    simp [swapTrace, Function.comp_def]
  constructor
  · intro h
    have hMap : (swapTrace part).Sublist (swapTrace (swapTrace trace)) := h.map _
    rwa [hTwice] at hMap
  · intro h
    have hMap : (swapTrace (swapTrace part)).Sublist (swapTrace trace) := h.map _
    rwa [hTwice] at hMap

/-- Both programs run to their ends; the trace tells whose statement came when. -/
inductive Interleaving : Program Label State Error Result → Program Label State Error Other →
    State → List (Side × Label) → State → Prop where
  | done (r : Except Error Result) (r' : Except Error Other) (s : State) :
      Interleaving (.done r) (.done r') s [] s
  | left {label : Label} {write : State → State} {next : State → Program Label State Error Result}
      {q : Program Label State Error Other} {s t : State} {trace : List (Side × Label)}
      (rest : Interleaving (next s) q (write s) trace t) :
      Interleaving (.atomic label write next) q s ((.left, label) :: trace) t
  | right {label : Label} {write : State → State} {next : State → Program Label State Error Other}
      {p : Program Label State Error Result} {s t : State} {trace : List (Side × Label)}
      (rest : Interleaving p (next s) (write s) trace t) :
      Interleaving p (.atomic label write next) s ((.right, label) :: trace) t

/-- The outcome of running one program after the other, in one of the two orders. -/
def Serial (p : Program Label State Error Result) (q : Program Label State Error Other)
    (s t : State) : Prop :=
  t = (q.run (p.run s).2).2 ∨ t = (p.run (q.run s).2).2

/-- Between a load by one side and its save, the other side saves. -/
def Overtaken (side : Side) (load : Label) (Saves : Label → Prop) (trace : List (Side × Label)) :
    Prop :=
  ∃ w w', Saves w ∧ Saves w' ∧ [(side, load), (side.swap, w), (side, w')].Sublist trace

theorem Overtaken.cons {side : Side} {load : Label} {Saves : Label → Prop}
    {trace : List (Side × Label)} {e : Side × Label} (h : Overtaken side load Saves trace) :
    Overtaken side load Saves (e :: trace) := by
  obtain ⟨w, w', hw, hw', hSub⟩ := h
  exact ⟨w, w', hw, hw', hSub.cons _⟩

section Interleaving
variable {p : Program Label State Error Result} {q : Program Label State Error Other}
  {s t : State} {trace : List (Side × Label)} {Inv : State → Prop} {Saves : Label → Prop}
  {load : Label}

/-- The sides of an interleaving can be exchanged. -/
theorem Interleaving.swap (h : Interleaving p q s trace t) :
    Interleaving q p s (swapTrace trace) t := by
  induction h with
  | done r r' s => exact .done r' r s
  | left rest ih => exact .right ih
  | right rest ih => exact .left ih

/-- When the left program is over, the right one runs alone. -/
theorem Interleaving.left_done {r : Except Error Result}
    (h : Interleaving (.done r) q s trace t) : t = (q.run s).2 := by
  generalize hp : (Program.done r : Program Label State Error Result) = p at h
  induction h with
  | done r r' s => rfl
  | left rest ih => cases hp
  | right rest ih => exact ih hp

/-- A program writes nothing while the invariant holds. -/
def Program.Idle (Inv : State → Prop) : Program Label State Error Result → Prop
  | .done _ => True
  | .atomic _ write next => ∀ s, Inv s → write s = s ∧ (next s).Idle Inv

theorem Program.Idle.run (hp : p.Idle Inv) (hs : Inv s) : (p.run s).2 = s := by
  induction p generalizing s with
  | done r => rfl
  | atomic label write next ih =>
      obtain ⟨hWrite, hNext⟩ := hp s hs
      rw [Program.run, hWrite]
      exact ih s hNext hs

theorem Program.Idle.mono {Inv' : State → Prop} (hp : p.Idle Inv) (h : ∀ s, Inv' s → Inv s) :
    p.Idle Inv' := by
  induction p with
  | done r => trivial
  | atomic label write next ih =>
      intro s hs
      obtain ⟨hWrite, hNext⟩ := hp s (h s hs)
      exact ⟨hWrite, ih s hNext⟩

/-- An idle program does not matter for the outcome. -/
theorem Interleaving.left_idle (h : Interleaving p q s trace t) (hp : p.Idle Inv)
    (hq : q.Maintains Inv) (hs : Inv s) : t = (q.run s).2 := by
  induction h with
  | done r r' s => rfl
  | left rest ih =>
      obtain ⟨hWrite, hNext⟩ := hp _ hs
      rw [hWrite] at ih rest
      exact ih hNext hq hs
  | right rest ih =>
      obtain ⟨hWrite, hNext⟩ := hq _ hs
      exact ih hp hNext hWrite

/-- Beside an idle program the other one runs alone. -/
theorem Interleaving.serial_of_idle (h : Interleaving p q s trace t) (hp : p.Idle Inv)
    (hq : q.Maintains Inv) (hs : Inv s) : Serial p q s t := by
  refine .inl ?_
  rw [hp.run hs]
  exact h.left_idle hp hq hs

/-- A program comes to a save while the invariant holds, and keeps it until then. -/
def Program.Saving (Saves : Label → Prop) (Inv : State → Prop) :
    Program Label State Error Result → Prop
  | .done _ => False
  | .atomic label write next =>
      Saves label ∨ ∀ s, Inv s → Inv (write s) ∧ (next s).Saving Saves Inv

/-- A program that comes to a save has saved when both are over. -/
theorem Interleaving.left_saves (h : Interleaving p q s trace t) (hp : p.Saving Saves Inv)
    (hq : q.Maintains Inv) (hs : Inv s) : ∃ w, Saves w ∧ (Side.left, w) ∈ trace := by
  induction h with
  | done r r' s => exact hp.elim
  | @left label write next q s t trace rest ih =>
      rcases hp with hNow | hLater
      · exact ⟨label, hNow, List.mem_cons_self ..⟩
      · obtain ⟨hWrite, hNext⟩ := hLater s hs
        obtain ⟨w, hw, hMem⟩ := ih hNext hq hWrite
        exact ⟨w, hw, List.mem_cons_of_mem _ hMem⟩
  | right rest ih =>
      obtain ⟨hWrite, hNext⟩ := hq _ hs
      obtain ⟨w, hw, hMem⟩ := ih hp hNext hWrite
      exact ⟨w, hw, List.mem_cons_of_mem _ hMem⟩

end Interleaving

section Closing
variable {p : Program Label State Error Result} {q : Program Label State Error Other}
  {s t : State} {trace : List (Side × Label)} {Inv : State → Prop} {Saves : Label → Prop}
  {load : Label}

/-- The program runs to a save, which is its last statement. -/
def Program.Closes (Saves : Label → Prop) (Inv : State → Prop) :
    Program Label State Error Result → Prop
  | .done _ => False
  | .atomic label write next => ∀ s, Inv s → Inv (write s) ∧
      ((Saves label ∧ ∃ r, next s = .done r) ∨ (¬ Saves label ∧ (next s).Closes Saves Inv))

/-- A program that closes comes to a save. -/
theorem Program.Closes.saving (hp : p.Closes Saves Inv) : p.Saving Saves Inv := by
  induction p with
  | done r => exact hp
  | atomic label write next ih =>
      by_cases hSaves : Saves label
      · exact .inl hSaves
      · refine .inr fun s hs => ?_
        obtain ⟨hWrite, ⟨hNow, -⟩ | ⟨-, hNext⟩⟩ := hp s hs
        · exact absurd hNow hSaves
        · exact ⟨hWrite, ih s hNext⟩

theorem Program.Closes.maintains (hp : p.Closes Saves Inv) : p.Maintains Inv := by
  induction p with
  | done r => trivial
  | atomic label write next ih =>
      intro s hs
      obtain ⟨hWrite, ⟨-, r, hEnd⟩ | ⟨-, hNext⟩⟩ := hp s hs
      · rw [hEnd]
        exact ⟨hWrite, trivial⟩
      · exact ⟨hWrite, ih s hNext⟩

/-- Two programs that are both under way save one after the other. -/
theorem Interleaving.both_save (h : Interleaving p q s trace t) (hp : p.Closes Saves Inv)
    (hq : q.Closes Saves Inv) (hs : Inv s) : ∃ w w', Saves w ∧ Saves w' ∧
      ([(.left, w), (.right, w')].Sublist trace ∨ [(.right, w), (.left, w')].Sublist trace) := by
  induction h with
  | done r r' s => exact hp.elim
  | @left label write next q s t trace rest ih =>
      obtain ⟨hWrite, ⟨hNow, r, hEnd⟩ | ⟨-, hNext⟩⟩ := hp s hs
      · rw [hEnd] at rest
        obtain ⟨w, hw, hMem⟩ := rest.swap.left_saves hq.saving trivial hWrite
        have hLater : [(Side.right, w)].Sublist trace :=
          sublist_swapTrace.mp (List.singleton_sublist.mpr hMem)
        exact ⟨label, w, hNow, hw, .inl (hLater.cons_cons _)⟩
      · obtain ⟨w, w', hw, hw', hSub⟩ := ih hNext hq hWrite
        exact ⟨w, w', hw, hw', hSub.imp (.cons _) (.cons _)⟩
  | @right label write next p s t trace rest ih =>
      obtain ⟨hWrite, ⟨hNow, r, hEnd⟩ | ⟨-, hNext⟩⟩ := hq s hs
      · rw [hEnd] at rest
        obtain ⟨w, hw, hMem⟩ := rest.left_saves hp.saving trivial hWrite
        exact ⟨label, w, hNow, hw, .inr ((List.singleton_sublist.mpr hMem).cons_cons _)⟩
      · obtain ⟨w, w', hw, hw', hSub⟩ := ih hp hNext hWrite
        exact ⟨w, w', hw, hw', hSub.imp (.cons _) (.cons _)⟩

/-- The left program is under way and the right one has not begun. Then the
right one begins after the left one is over, or somebody is overtaken. -/
theorem Interleaving.left_first {write : State → State}
    {next : State → Program Label State Error Other}
    (h : Interleaving p (.atomic load write next) s trace t) (hp : p.Closes Saves Inv)
    (hq : (Program.atomic load write next).Closes Saves Inv) (hLoad : ¬ Saves load) (hs : Inv s)
    (hLeft : ∀ w w', Saves w → Saves w' → ¬ [(Side.right, w), (.left, w')].Sublist trace)
    (hRight : ¬ Overtaken .right load Saves trace) :
    t = ((Program.atomic load write next).run (p.run s).2).2 := by
  generalize hEq : Program.atomic load write next = q at h hq
  induction h with
  | done r r' s => exact hp.elim
  | @left label write' next' q s t trace rest ih =>
      subst hEq
      obtain ⟨hWrite, ⟨-, r, hEnd⟩ | ⟨-, hNext⟩⟩ := hp s hs
      · have hRun : ((Program.atomic label write' next').run s).2 = write' s := by
          rw [Program.run, hEnd]
          rfl
        rw [hEnd] at rest
        rw [hRun]
        exact rest.left_done
      · refine ih hNext hWrite (fun w w' hw hw' hSub => hLeft w w' hw hw' (hSub.cons _)) ?_ rfl hq
        exact mt Overtaken.cons hRight
  | @right label write' next' p s t trace rest ih =>
      -- both are under way: whoever saves second was overtaken
      obtain ⟨rfl, rfl, rfl⟩ := by simpa using hEq
      obtain ⟨hWrite, ⟨hNow, -⟩ | ⟨-, hNext⟩⟩ := hq s hs
      · exact absurd hNow hLoad
      · obtain ⟨w, w', hw, hw', hSub | hSub⟩ := rest.both_save hp hNext hWrite
        · exact (hRight ⟨w, w', hw, hw', hSub.cons_cons _⟩).elim
        · exact (hLeft w w' hw hw' (hSub.cons _)).elim

/-- Two programs that load first and save last run one after the other, unless
one of them is overtaken. -/
theorem Interleaving.serial_of_closes {write write' : State → State}
    {next : State → Program Label State Error Result}
    {next' : State → Program Label State Error Other}
    (h : Interleaving (.atomic load write next) (.atomic load write' next') s trace t)
    (hp : (Program.atomic load write next).Closes Saves Inv)
    (hq : (Program.atomic load write' next').Closes Saves Inv) (hLoad : ¬ Saves load) (hs : Inv s)
    (hLeft : ¬ Overtaken .left load Saves trace) (hRight : ¬ Overtaken .right load Saves trace) :
    Serial (.atomic load write next) (.atomic load write' next') s t := by
  cases h with
  | left rest =>
      obtain ⟨hWrite, ⟨hNow, -⟩ | ⟨-, hNext⟩⟩ := hp s hs
      · exact absurd hNow hLoad
      · refine .inl (rest.left_first hNext hq hLoad hWrite ?_ ?_)
        · exact fun w w' hw hw' hSub => hLeft ⟨w, w', hw, hw', hSub.cons_cons _⟩
        · exact mt Overtaken.cons hRight
  | right rest =>
      obtain ⟨hWrite, ⟨hNow, -⟩ | ⟨-, hNext⟩⟩ := hq s hs
      · exact absurd hNow hLoad
      · refine .inr (rest.swap.left_first hNext hp hLoad hWrite ?_ ?_)
        · intro w w' hw hw' hSub
          exact hRight ⟨w, w', hw, hw', (sublist_swapTrace.mp hSub).cons_cons _⟩
        · rintro ⟨w, w', hw, hw', hSub⟩
          exact hLeft ⟨w, w', hw, hw', (sublist_swapTrace.mp hSub).cons _⟩

end Closing

/-! A program that closes, beside one whose first save erases what it is about.
Up to that save the other program sees a view of the state only, which the
closing program does not change. -/
section Erasing
variable {View : Type} {view : State → View} {v : View} {Inv Base Gone : State → Prop}
  {p : Program Label State Error Result} {q : Program Label State Error Other}
  {s t : State} {trace : List (Side × Label)} {Saves : Label → Prop} {load : Label}

/-- The program reads the view until its first save, and that save ends in `Gone`. -/
def Program.Erases (view : State → View) (Saves : Label → Prop) (Inv Gone : State → Prop) :
    Program Label State Error Result → Prop
  | .done _ => True
  | .atomic label write next =>
      (Saves label ∧ ∀ s, Inv s → Gone (write s) ∧ (next s).Maintains Gone) ∨
      (¬ Saves label ∧ ∀ s, Inv s → write s = s ∧ (next s).Erases view Saves Inv Gone ∧
        ∀ s', Inv s' → view s' = view s → write s' = s' ∧ next s' = next s)

/-- The left program is under way: it will be over before the right one saves. -/
theorem Interleaving.left_unseen (h : Interleaving p q s trace t) (hp : p.Closes Saves Inv)
    (hKeeps : p.Maintains fun s => Inv s ∧ view s = v) (hSaving : p.Saving Saves Base)
    (hq : q.Erases view Saves Inv Gone) (hBase : q.Maintains Base) (hInv : ∀ s, Inv s → Base s)
    (hs : Inv s) (hView : view s = v)
    (hLeft : ∀ w w', Saves w → Saves w' → ¬ [(Side.right, w), (.left, w')].Sublist trace) :
    t = (q.run (p.run s).2).2 := by
  induction h with
  | done r r' s => exact hp.elim
  | @left label write next q s t trace rest ih =>
      obtain ⟨⟨hWrite, hWriteView⟩, hNextKeeps⟩ := hKeeps s ⟨hs, hView⟩
      obtain ⟨-, ⟨-, r, hEnd⟩ | ⟨hNot, hNext⟩⟩ := hp s hs
      · have hRun : ((Program.atomic label write next).run s).2 = write s := by
          rw [Program.run, hEnd]
          rfl
        rw [hEnd] at rest
        rw [hRun]
        exact rest.left_done
      · obtain hNow | hLater := hSaving
        · exact absurd hNow hNot
        · refine ih hNext hNextKeeps (hLater s (hInv s hs)).2 hq hBase hWrite hWriteView ?_
          exact fun w w' hw hw' hSub => hLeft w w' hw hw' (hSub.cons _)
  | @right label write next p s t trace rest ih =>
      obtain ⟨hNow, -⟩ | ⟨-, hRead⟩ := hq
      · obtain ⟨hWrite, hNext⟩ := hBase s (hInv s hs)
        obtain ⟨w, hw, hMem⟩ := rest.left_saves hSaving hNext hWrite
        exact (hLeft label w hNow hw ((List.singleton_sublist.mpr hMem).cons_cons _)).elim
      · obtain ⟨hWrite, hNext, hSame⟩ := hRead s hs
        obtain ⟨hEndInv, hEndView⟩ := hKeeps.run ⟨hs, hView⟩
        obtain ⟨hEndWrite, hEndNext⟩ := hSame _ hEndInv (hEndView.trans hView.symm)
        rw [hWrite] at rest ih
        rw [Program.run, hEndWrite, hEndNext]
        refine ih hp hKeeps hSaving hNext (hBase s (hInv s hs)).2 hs hView ?_
        exact fun w w' hw hw' hSub => hLeft w w' hw hw' (hSub.cons _)

/-- A program that closes runs before or after one that erases, unless it is overtaken. -/
theorem Interleaving.serial_of_erases {write : State → State}
    {next : State → Program Label State Error Result}
    (h : Interleaving (.atomic load write next) q s trace t)
    (hp : (Program.atomic load write next).Closes Saves Inv) (hLoad : ¬ Saves load)
    (hKeeps : ∀ v, (Program.atomic load write next).Maintains fun s => Inv s ∧ view s = v)
    (hSaving : ∀ s, Inv s → (next s).Saving Saves Base)
    (hIdle : (Program.atomic load write next).Idle Gone)
    (hq : q.Erases view Saves Inv Gone) (hBase : q.Maintains Base) (hInv : ∀ s, Inv s → Base s)
    (hs : Inv s) (hLeft : ¬ Overtaken .left load Saves trace) :
    Serial (.atomic load write next) q s t := by
  generalize hEq : Program.atomic load write next = p at h hp hKeeps hIdle
  induction h with
  | done r r' s => exact hp.elim
  | @left label write' next' q s t trace rest ih =>
      obtain ⟨rfl, rfl, rfl⟩ := by simpa using hEq
      obtain ⟨hWrite, ⟨hNow, -⟩ | ⟨-, hNext⟩⟩ := hp s hs
      · exact absurd hNow hLoad
      · obtain ⟨⟨-, hWriteView⟩, hNextKeeps⟩ := hKeeps (view s) s ⟨hs, rfl⟩
        refine .inl (rest.left_unseen hNext hNextKeeps (hSaving s hs) hq hBase hInv hWrite
          hWriteView fun w w' hw hw' hSub => ?_)
        exact hLeft ⟨w, w', hw, hw', hSub.cons_cons _⟩
  | @right label write' next' p s t trace rest ih =>
      obtain ⟨hNow, hSave⟩ | ⟨-, hRead⟩ := hq
      · -- the left program has not begun, and finds nothing when it does
        obtain ⟨hGone, hNext⟩ := hSave s hs
        have hEnd : t = ((Program.atomic label write' next').run s).2 :=
          rest.left_idle hIdle hNext hGone
        have hGoneEnd : Gone ((Program.atomic label write' next').run s).2 := hNext.run hGone
        refine .inr ?_
        rw [hIdle.run hGoneEnd]
        exact hEnd
      · obtain ⟨hWrite, hNext, hSame⟩ := hRead s hs
        obtain ⟨hEndInv, hEndView⟩ := (hKeeps (view s)).run ⟨hs, rfl⟩
        obtain ⟨hEndWrite, hEndNext⟩ := hSame _ hEndInv hEndView
        rw [hWrite] at rest ih
        have hRun (u : State) (hu : write' u = u ∧ next' u = next' s) :
            ((Program.atomic label write' next').run u).2 = ((next' s).run u).2 := by
          rw [Program.run, hu.1, hu.2]
        rw [Serial, hRun _ ⟨hEndWrite, hEndNext⟩, hRun s ⟨hWrite, rfl⟩]
        exact ih hNext (hBase s (hInv s hs)).2 hs (mt Overtaken.cons hLeft) hEq hp hKeeps hIdle

end Erasing

end Execution
