import Spidercheck.Regex.Basic
import Mathlib.Data.List.TakeWhile

/-! Routes: texts with parameters in between, each of them one or more characters of a
class. Where nothing of its class can follow a parameter, a path is read in one way. -/
namespace Regex

inductive Part (α Name : Type) where
  | text (t : List α)
  | param (name : Name) (p : α → Bool)

section Routes
variable {α Name : Type} {p : α → Bool} {t s : List α} {route : List (Part α Name)}
  {captures : Captures α Name}

/-- How a path is made up of the parts of a route. -/
inductive Routed : List (Part α Name) → List α → Captures α Name → Prop where
  | nil : Routed [] [] []
  | text (t : List α) {route : List (Part α Name)} {s : List α} {captures : Captures α Name}
      (h : Routed route s captures) : Routed (.text t :: route) (t ++ s) captures
  | param (name : Name) {p : α → Bool} {w s : List α} {route : List (Part α Name)}
      {captures : Captures α Name} (hWord : Word p w) (h : Routed route s captures) :
      Routed (.param name p :: route) (w ++ s) ((name, w) :: captures)

def Bounded (p : α → Bool) : List (Part α Name) → Prop
  | [] => True
  | .text (c :: _) :: _ => p c = false
  | _ => False

def Separated : List (Part α Name) → Prop
  | [] => True
  | .text _ :: route => Separated route
  | .param _ p :: route => Bounded p route ∧ Separated route

/-- What follows a parameter does not continue it. -/
theorem Routed.ends (h : Routed route s captures) (hBounded : Bounded p route) : Ends p s := by
  cases h with
  | nil => exact ends_nil
  | text t h =>
      cases t with
      | nil => exact hBounded.elim
      | cons c t => exact ends_cons.mpr hBounded
  | param name hWord h => exact hBounded.elim

/-- The word in front of what cannot belong to it. -/
theorem takeWhile_word {w : List α} (hWord : Word p w) (hEnds : Ends p s) :
    (w ++ s).takeWhile p = w := by
  rw [List.takeWhile_append_of_pos hWord.2]
  cases s with
  | nil => simp
  | cons c s => simp [ends_cons.mp hEnds]

/-- A text in a route takes itself. -/
theorem routed_text {t s : List α} : Routed (.text t :: route) (t ++ s) captures ↔ Routed route s captures := by
  constructor
  · generalize hWhole : t ++ s = whole
    intro h
    cases h with
    | text t h => exact List.append_cancel_left hWhole ▸ h
  · exact .text t

/-- A parameter takes the whole run of its class. -/
theorem routed_param {name : Name} {w : List α} (hWord : Word p w) (hEnds : Ends p s)
    (hBounded : Bounded p route) : Routed (.param name p :: route) (w ++ s) captures ↔
      ∃ more, captures = (name, w) :: more ∧ Routed route s more := by
  constructor
  · generalize hWhole : w ++ s = whole
    intro h
    cases h with
    | @param _ _ w' s' _ more hWord' h =>
        have hSame : w = w' := by
          rw [← takeWhile_word hWord hEnds, hWhole, takeWhile_word hWord' (h.ends hBounded)]
        subst hSame
        exact ⟨more, rfl, List.append_cancel_left hWhole ▸ h⟩
  · rintro ⟨more, rfl, h⟩
    exact .param name hWord h

/-- A route with one parameter between two texts. -/
theorem routed_between {before after : List α} {name : Name} :
    Routed [.text before, .param name p, .text after] s captures ↔
      ∃ w, Word p w ∧ s = before ++ (w ++ after) ∧ captures = [(name, w)] := by
  constructor
  · rintro (_ | ⟨_, hParam⟩)
    cases hParam with
    | param _ hWord h =>
        rcases h with _ | ⟨_, hNil⟩
        cases hNil
        exact ⟨_, hWord, by rw [List.append_nil], rfl⟩
  · rintro ⟨w, hWord, rfl, rfl⟩
    have hNil : Routed ([] : List (Part α Name)) [] [] := .nil
    have hAfter : Routed [.text after] after ([] : Captures α Name) := by
      simpa using Routed.text after hNil
    exact .text before (.param name hWord hAfter)

variable [DecidableEq α]

def Part.patterns : Part α Name → List (Pattern α Name)
  | .text t => t.map fun c => .char (· == c)
  | .param name p => [.group name (.plus p)]

def routePatterns (route : List (Part α Name)) : List (Pattern α Name) :=
  route.flatMap Part.patterns ++ [.stop fun _ => false]

/-- The pattern of a route, which has to match the whole path. -/
def routePattern (route : List (Part α Name)) : Pattern α Name := .all (routePatterns route)

theorem Bounded.apart (h : Bounded p route) : Pattern.Apart p (.all (routePatterns route)) := by
  match route, h with
  | [], _ => exact Pattern.apart_stop_all fun _ _ => rfl
  | .text (c :: _) :: _, h =>
      refine Pattern.apart_char_all fun d hd => ?_
      rw [beq_eq_false_iff_ne]
      rintro rfl
      exact absurd (hd.symm.trans h) (by decide)

/-- A text is read when the path begins with it. -/
theorem run_text {β : Type} (t : List α) (rs : List (Pattern α Name)) (captures : Captures α Name)
    (s : List α) (k : Captures α Name → List α → Option β) :
    (Pattern.all ((t.map fun c => Pattern.char (· == c)) ++ rs)).run captures s k =
      if t <+: s then (Pattern.all rs).run captures (s.drop t.length) k else none := by
  induction t generalizing s with
  | nil => simp
  | cons c t ih =>
      cases s with
      | nil => simp
      | cons d s =>
          rw [List.map_cons, List.cons_append, Pattern.run_char_all_cons, ih]
          by_cases hSame : d = c
          · simp [hSame]
          · simp [hSame, Ne.symm hSame]

/-- The parts match one after another. -/
theorem run_routePatterns (hSeparated : Separated route) (captures taken : Captures α Name)
    (s : List α) :
    (Pattern.all (routePatterns route)).run captures s (fun all _ => some all) = some taken ↔
      ∃ more, taken = captures ++ more ∧ Routed route s more := by
  induction route generalizing captures s with
  | nil =>
      constructor
      · intro h
        cases s with
        | nil => exact ⟨[], by simpa [routePatterns, eq_comm] using h, .nil⟩
        | cons c s =>
            rw [routePatterns, List.flatMap_nil, List.nil_append, Pattern.run_stop_all_cons rfl] at h
            cases h
      · rintro ⟨more, rfl, hRouted⟩
        cases hRouted
        simp [routePatterns]
  | cons part route ih =>
      cases part with
      | text t =>
          have hParts : routePatterns (.text t :: route) =
              (t.map fun c => Pattern.char (· == c)) ++ routePatterns route := by
            simp [routePatterns, Part.patterns]
          rw [hParts, run_text]
          split_ifs with hPrefix
          · obtain ⟨rest, rfl⟩ := hPrefix
            rw [List.drop_left, ih hSeparated]
            simp only [routed_text]
          · constructor
            · intro h
              cases h
            · rintro ⟨more, -, hRouted⟩
              cases hRouted with
              | text t h => exact absurd (List.prefix_append t _) hPrefix
      | param name p =>
          obtain ⟨hBounded, hRest⟩ := hSeparated
          have hParts : routePatterns (.param name p :: route) =
              .group name (.plus p) :: routePatterns route := rfl
          rw [hParts]
          have hEnds : Ends p (s.dropWhile p) := by
            intro c hc
            have hFirst := List.head?_dropWhile_not p s
            rw [Option.mem_def.mp hc] at hFirst
            simpa using hFirst
          have hSplit : s = s.takeWhile p ++ s.dropWhile p := List.takeWhile_append_dropWhile.symm
          by_cases hEmpty : s.takeWhile p = []
          · -- no character of the class is there
            rw [hEmpty, List.nil_append] at hSplit
            rw [hSplit, Pattern.run_group_plus_all_ends hEnds]
            constructor
            · intro h
              cases h
            · rintro ⟨more, -, hRouted⟩
              generalize s.dropWhile p = rest at hRouted hEnds
              cases hRouted with
              | @param _ _ w _ _ _ hWord _ =>
                  obtain ⟨c, w, rfl⟩ := List.exists_cons_of_ne_nil hWord.1
                  exact absurd (hWord.2 c (List.mem_cons_self ..)) (by simp [ends_cons.mp hEnds])
          · have hWord : Word p (s.takeWhile p) := ⟨hEmpty, fun c hc => List.mem_takeWhile_imp hc⟩
            rw [hSplit, Pattern.run_group_plus_all hWord hEnds hBounded.apart, ih hRest]
            simp only [routed_param hWord hEnds hBounded]
            constructor
            · rintro ⟨more, rfl, hRouted⟩
              exact ⟨_, by rw [List.append_assoc]; rfl, more, rfl, hRouted⟩
            · rintro ⟨_, rfl, more, rfl, hRouted⟩
              exact ⟨more, by rw [List.append_assoc]; rfl, hRouted⟩

/-- A path matches just where it is made up of the parts of the route. -/
theorem match?_routePattern (hSeparated : Separated route) (s : List α) (captures : Captures α Name) :
    (routePattern route).match? s = some captures ↔ Routed route s captures := by
  rw [Pattern.match?, routePattern, run_routePatterns hSeparated]
  simp

end Routes

section First
variable {α β : Type} {f : α → Option β} {routes routes' : List α}

def Exclusive (f : α → Option β) (routes : List α) : Prop :=
  ∀ a ∈ routes, ∀ b ∈ routes, (f a).isSome → (f b).isSome → a = b

/-- When no two routes answer, any answer is the first one. -/
theorem findSome?_iff (h : Exclusive f routes) (y : β) :
    routes.findSome? f = some y ↔ ∃ a ∈ routes, f a = some y := by
  constructor
  · exact List.exists_of_findSome?_eq_some
  · rintro ⟨a, ha, hSome⟩
    have hIs : (routes.findSome? f).isSome := List.findSome?_isSome_iff.mpr ⟨a, ha, by simp [hSome]⟩
    obtain ⟨z, hFound⟩ := Option.isSome_iff_exists.mp hIs
    obtain ⟨b, hb, hOther⟩ := List.exists_of_findSome?_eq_some hFound
    obtain rfl := h a ha b hb (by simp [hSome]) (by simp [hOther])
    rw [hFound, ← hOther, hSome]

/-- Then their order does not matter. -/
theorem findSome?_perm (h : Exclusive f routes) (hPerm : routes.Perm routes') :
    routes'.findSome? f = routes.findSome? f := by
  have h' : Exclusive f routes' := fun a ha b hb =>
    h a (hPerm.mem_iff.mpr ha) b (hPerm.mem_iff.mpr hb)
  refine Option.ext fun y => ?_
  rw [findSome?_iff h, findSome?_iff h']
  simp only [hPerm.mem_iff]

end First

end Regex
