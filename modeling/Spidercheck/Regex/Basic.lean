import Mathlib.Tactic.Common

/-! Patterns that are matched from the left by backtracking. A repetition takes
as much as it can and gives back one character at a time, an optional part is
tried before it is left out, and the first way to the end of the pattern wins. -/
namespace Regex

inductive Pattern (α Name : Type) where
  | empty
  | char (p : α → Bool)
  /-- One or more characters of the class. -/
  | plus (p : α → Bool)
  | opt (r : Pattern α Name)
  | group (name : Name) (r : Pattern α Name)
  /-- The end of the text, or a last character of the class. -/
  | stop (p : α → Bool)
  | seq (r s : Pattern α Name)

abbrev Captures (α Name : Type) := List (Name × List α)

def consumed {α : Type} (s t : List α) : List α := s.take (s.length - t.length)

/-- What was read is what stands in front of the rest. -/
@[simp] theorem consumed_append {α : Type} (t rest : List α) : consumed (t ++ rest) rest = t := by
  simp [consumed]

/-- One or more characters, the longest first, with the continuation `k`. -/
def greedy {α β : Type} (p : α → Bool) (k : List α → Option β) : List α → Option β
  | [] => none
  | c :: t => if p c then (greedy p k t).or (k t) else none

namespace Pattern
variable {α Name β : Type}

/-- The first match of the pattern after which the continuation succeeds. -/
def run : Pattern α Name → Captures α Name → List α →
    (Captures α Name → List α → Option β) → Option β
  | empty, captures, s, k => k captures s
  | char _, _, [], _ => none
  | char p, captures, c :: t, k => if p c then k captures t else none
  | plus p, captures, s, k => greedy p (k captures) s
  | opt r, captures, s, k => (r.run captures s k).or (k captures s)
  | group name r, captures, s, k =>
      r.run captures s fun captures t => k (captures ++ [(name, consumed s t)]) t
  | stop _, captures, [], k => k captures []
  | stop p, captures, [c], k => if p c then k captures [c] else none
  | stop _, _, _ :: _ :: _, _ => none
  | seq r s, captures, text, k => r.run captures text fun captures t => s.run captures t k

def match? (r : Pattern α Name) (s : List α) : Option (Captures α Name) :=
  r.run [] s fun captures _ => some captures

def all (rs : List (Pattern α Name)) : Pattern α Name := rs.foldr seq empty

def times (n : Nat) (p : α → Bool) : Pattern α Name := all (List.replicate n (char p))

/-- The pattern may succeed in front of a character without taking it. -/
def skips : Pattern α Name → α → Bool
  | empty, _ | opt _, _ => true
  | char _, _ | plus _, _ => false
  | group _ r, c => r.skips c
  | stop p, c => p c
  | seq r s, c => r.skips c && s.skips c

/-- The pattern may take a character. -/
def starts : Pattern α Name → α → Bool
  | empty, _ | stop _, _ => false
  | char p, c | plus p, c => p c
  | opt r, c | group _ r, c => r.starts c
  | seq r s, c => r.starts c || (r.skips c && s.starts c)

/-- The pattern matches no text that begins with a character of the class. -/
def Apart (p : α → Bool) (r : Pattern α Name) : Prop :=
  ∀ c, p c = true → r.starts c = false ∧ r.skips c = false

end Pattern

def Word {α : Type} (p : α → Bool) (t : List α) : Prop := t ≠ [] ∧ ∀ c ∈ t, p c = true

theorem Word.append {α : Type} {p : α → Bool} {s t : List α} (hs : Word p s) (ht : Word p t) :
    Word p (s ++ t) := by
  refine ⟨by simp [hs.1], fun c hc => ?_⟩
  rcases List.mem_append.mp hc with hc | hc
  · exact hs.2 c hc
  · exact ht.2 c hc

def Ends {α : Type} (p : α → Bool) (rest : List α) : Prop := ∀ c ∈ rest.head?, p c = false

section Ends
variable {α : Type} {p : α → Bool} {c : α} {rest : List α}

@[simp] theorem ends_nil : Ends p [] := by simp [Ends]

@[simp] theorem ends_cons : Ends p (c :: rest) ↔ p c = false := by simp [Ends]

/-- Words of two classes that share no character do not run into each other. -/
theorem ends_append {q : α → Bool} {t : List α} (hWord : Word q t)
    (hApart : ∀ c, q c = true → p c = false) : Ends p (t ++ rest) := by
  obtain ⟨c, t, rfl⟩ := List.exists_cons_of_ne_nil hWord.1
  exact ends_cons.mpr (hApart c (hWord.2 c (List.mem_cons_self ..)))

end Ends

section Greedy
variable {α β : Type} {p : α → Bool} {k : List α → Option β} {t rest : List α}

/-- Where no character of the class stands, nothing is taken. -/
theorem greedy_of_ends (h : Ends p rest) : greedy p k rest = none := by
  cases rest with
  | nil => rfl
  | cons c rest => simp [greedy, ends_cons.mp h]

/-- The longest way is taken when it leads to a match. -/
theorem greedy_eq_some (hWord : Word p t) (hEnds : Ends p rest) {b : β} (h : k rest = some b) :
    greedy p k (t ++ rest) = some b := by
  obtain ⟨hNonempty, hAll⟩ := hWord
  induction t with
  | nil => exact absurd rfl hNonempty
  | cons c t ih =>
      have hc : p c = true := hAll c (List.mem_cons_self ..)
      cases t with
      | nil => simp [greedy, hc, greedy_of_ends hEnds, h]
      | cons d t =>
          have hRest := ih (List.cons_ne_nil d t) fun x hx => hAll x (List.mem_cons_of_mem c hx)
          simp only [List.cons_append] at hRest ⊢
          rw [greedy, if_pos hc, hRest, Option.some_or]

/-- A repetition takes all of a word when what follows cannot begin within it. -/
theorem greedy_of_apart (hWord : Word p t) (hEnds : Ends p rest)
    (hApart : ∀ c s, p c = true → k (c :: s) = none) : greedy p k (t ++ rest) = k rest := by
  obtain ⟨hNonempty, hAll⟩ := hWord
  induction t with
  | nil => exact absurd rfl hNonempty
  | cons c t ih =>
      have hc : p c = true := hAll c (List.mem_cons_self ..)
      cases t with
      | nil => simp [greedy, hc, greedy_of_ends hEnds]
      | cons d t =>
          have hd : p d = true := hAll d (by simp)
          have hRest := ih (List.cons_ne_nil d t) fun x hx => hAll x (List.mem_cons_of_mem c hx)
          simp only [List.cons_append] at hRest ⊢
          rw [greedy, if_pos hc, hRest, hApart d _ hd, Option.or_none]

end Greedy

namespace Pattern
variable {α Name β : Type} {p : α → Bool} {r s : Pattern α Name} {rs : List (Pattern α Name)}
  {captures : Captures α Name} {c : α} {t rest : List α}
  {k : Captures α Name → List α → Option β}

/-- A pattern that neither takes nor skips a character fails in front of it. -/
theorem run_cons_eq_none (hStarts : r.starts c = false)
    (hSkips : r.skips c = true → ∀ captures, k captures (c :: t) = none) :
    r.run captures (c :: t) k = none := by
  induction r generalizing captures k with
  | empty => exact hSkips rfl captures
  | char p =>
      have hc : p c = false := hStarts
      simp [run, hc]
  | plus p =>
      have hEnds : Ends p (c :: t) := ends_cons.mpr hStarts
      exact greedy_of_ends hEnds
  | opt r ih =>
      have hSkipped := hSkips rfl
      rw [run, ih hStarts fun _ => hSkipped, hSkipped, Option.or_none]
  | group name r ih => exact ih hStarts fun hSkip captures => hSkips hSkip _
  | stop p =>
      cases t with
      | nil =>
          by_cases hc : p c = true
          · simp [run, hSkips hc captures]
          · simp [run, hc]
      | cons d t => rfl
  | seq r s ihr ihs =>
      obtain ⟨hr, hs⟩ := Bool.or_eq_false_iff.mp hStarts
      apply ihr hr
      intro hSkip captures
      rw [hSkip, Bool.true_and] at hs
      exact ihs hs fun hSkip' => hSkips (Bool.and_eq_true_iff.mpr ⟨hSkip, hSkip'⟩)

/-- A pattern that is apart from a class does not match in front of it. -/
theorem Apart.run_eq_none (h : Apart p r) (hc : p c = true) : r.run captures (c :: t) k = none := by
  obtain ⟨hStarts, hSkips⟩ := h c hc
  exact run_cons_eq_none hStarts fun hSkip => absurd hSkip (by simp [hSkips])

section Apart
variable {q : α → Bool}

theorem apart_char_all (h : ∀ c, p c = true → q c = false) : Apart p (all (char q :: rs)) :=
  fun c hc => ⟨by simp [all, starts, skips, h c hc], rfl⟩

theorem apart_plus_all (h : ∀ c, p c = true → q c = false) : Apart p (all (plus q :: rs)) :=
  fun c hc => ⟨by simp [all, starts, skips, h c hc], rfl⟩

theorem apart_stop_all (h : ∀ c, p c = true → q c = false) : Apart p (all (stop q :: rs)) :=
  fun c hc => ⟨by simp [all, starts, skips, h c hc], by simp [all, skips, h c hc]⟩

end Apart

@[simp] theorem run_all_nil : (all ([] : List (Pattern α Name))).run captures t k = k captures t := rfl

theorem run_all_cons : (all (r :: rs)).run captures t k =
    r.run captures t fun captures t => (all rs).run captures t k := rfl

@[simp] theorem run_char_all_nil : (all (char p :: rs)).run captures [] k = none := rfl

@[simp] theorem run_char_all_cons : (all (char p :: rs)).run captures (c :: t) k =
    if p c then (all rs).run captures t k else none := rfl

theorem run_opt_all : (all (opt r :: rs)).run captures t k =
    (r.run captures t fun captures t => (all rs).run captures t k).or ((all rs).run captures t k) := rfl

@[simp] theorem run_stop_all_nil : (all (stop p :: rs)).run captures [] k =
    (all rs).run captures [] k := rfl

theorem run_stop_all_cons (h : p c = false) :
    (all (stop p :: rs)).run captures (c :: t) k = none := by
  rw [run_all_cons]
  exact run_cons_eq_none rfl fun hSkip => absurd hSkip (by simp [skips, h])

/-- A repetition that is followed by something else. -/
theorem run_plus_all (hWord : Word p t) (hEnds : Ends p rest) (hApart : Apart p (all rs)) :
    (all (plus p :: rs)).run captures (t ++ rest) k = (all rs).run captures rest k :=
  greedy_of_apart hWord hEnds fun _ _ hc => hApart.run_eq_none hc

/-- A run that the rest of the pattern cannot begin in is taken whole. -/
theorem run_group_plus_all {name : Name} (hWord : Word p t) (hEnds : Ends p rest)
    (hApart : Apart p (all rs)) :
    (all (group name (plus p) :: rs)).run captures (t ++ rest) k =
      (all rs).run (captures ++ [(name, t)]) rest k := by
  rw [run_all_cons, run, run, greedy_of_apart hWord hEnds, consumed_append]
  intro c s hc
  exact hApart.run_eq_none hc

/-- A repetition that finds one character, whatever follows. -/
theorem run_plus_all_one (hc : p c = true) (hEnds : Ends p rest) :
    (all (plus p :: rs)).run captures (c :: rest) k = (all rs).run captures rest k := by
  rw [run_all_cons, run, greedy, if_pos hc, greedy_of_ends hEnds, Option.none_or]

/-- The longest way is taken when the rest of the sequence matches after it. -/
theorem run_group_plus_all_eq_some {name : Name} {b : β} (hWord : Word p t) (hEnds : Ends p rest)
    (h : (all rs).run (captures ++ [(name, t)]) rest k = some b) :
    (all (group name (plus p) :: rs)).run captures (t ++ rest) k = some b := by
  rw [run_all_cons, run, run]
  apply greedy_eq_some hWord hEnds
  rw [consumed_append, h]

theorem run_plus_all_ends (h : Ends p t) : (all (plus p :: rs)).run captures t k = none :=
  greedy_of_ends h

theorem run_group_plus_all_ends {name : Name} (h : Ends p t) :
    (all (group name (plus p) :: rs)).run captures t k = none :=
  greedy_of_ends h

/-- A fixed number of characters is taken. -/
theorem run_times {n : Nat} (hAll : ∀ c ∈ t, p c = true) (hLength : t.length = n) :
    (times n p : Pattern α Name).run captures (t ++ rest) k = k captures rest := by
  subst hLength
  induction t with
  | nil => rfl
  | cons c t ih =>
      have hc : p c = true := hAll c (List.mem_cons_self ..)
      have hRest := ih fun x hx => hAll x (List.mem_cons_of_mem c hx)
      simpa [times, List.replicate_succ, hc] using hRest

/-- Fewer characters do not match. -/
theorem run_times_eq_none {n : Nat} (hEnds : Ends p rest) (hShort : t.length < n) :
    (times n p : Pattern α Name).run captures (t ++ rest) k = none := by
  induction t generalizing n with
  | nil =>
      obtain ⟨n, rfl⟩ := Nat.exists_eq_succ_of_ne_zero (Nat.ne_of_gt hShort)
      cases rest with
      | nil => rfl
      | cons c rest => simp [times, List.replicate_succ, ends_cons.mp hEnds]
  | cons c t ih =>
      obtain ⟨n, rfl⟩ := Nat.exists_eq_succ_of_ne_zero (Nat.ne_of_gt (Nat.zero_lt_of_lt hShort))
      have hRest := ih (n := n) (by simpa using hShort)
      simp only [times, List.replicate_succ, List.cons_append, run_char_all_cons] at hRest ⊢
      rw [hRest, ite_self]

theorem run_times_all {n : Nat} (hAll : ∀ c ∈ t, p c = true) (hLength : t.length = n) :
    (all (times n p :: rs)).run captures (t ++ rest) k = (all rs).run captures rest k := by
  rw [run_all_cons, run_times hAll hLength]

/-- A group of a fixed number of characters takes them. -/
theorem run_group_times_all {name : Name} {n : Nat} (hAll : ∀ c ∈ t, p c = true)
    (hLength : t.length = n) :
    (all (group name (times n p) :: rs)).run captures (t ++ rest) k =
      (all rs).run (captures ++ [(name, t)]) rest k := by
  rw [run_all_cons, run, run_times hAll hLength, consumed_append]

theorem run_group_times_all_eq_none {name : Name} {n : Nat} (hEnds : Ends p rest)
    (hShort : t.length < n) :
    (all (group name (times n p) :: rs)).run captures (t ++ rest) k = none :=
  run_times_eq_none hEnds hShort

/-- One character of the class, or two. -/
theorem run_group_one_or_two_all {name : Name} (hWord : Word p t) (hShort : t.length ≤ 2)
    (hEnds : Ends p rest) (hApart : Apart p (all rs)) :
    (all (group name (all [char p, opt (char p)]) :: rs)).run captures (t ++ rest) k =
      (all rs).run (captures ++ [(name, t)]) rest k := by
  obtain ⟨hNonempty, hAll⟩ := hWord
  match t with
  | [] => exact absurd rfl hNonempty
  | [c] =>
      have hNone (k : Captures α Name → List α → Option β) :
          (char p : Pattern α Name).run captures rest k = none := by
        cases rest with
        | nil => rfl
        | cons d rest => simp [run, ends_cons.mp hEnds]
      rw [run_all_cons, run, List.singleton_append, run_char_all_cons, if_pos (hAll c (by simp)),
        run_opt_all, hNone, Option.none_or, run_all_nil]
      exact congrArg (fun taken => (all rs).run (captures ++ [(name, taken)]) rest k)
        (consumed_append [c] rest)
  | [c, d] =>
      have hd : p d = true := hAll d (by simp)
      rw [run_all_cons, run, List.cons_append, run_char_all_cons, if_pos (hAll c (by simp)),
        run_opt_all, List.singleton_append, run, if_pos hd, run_all_nil, run_all_nil,
        hApart.run_eq_none hd, Option.or_none]
      exact congrArg (fun taken => (all rs).run (captures ++ [(name, taken)]) rest k)
        (consumed_append [c, d] rest)
  | c :: d :: e :: t => simp at hShort

end Pattern

end Regex
