import Spidercheck.Regex.Reading

/-! Where the groups of a match stand. The engine runs on the numbered
characters of the text, where it finds the same match, and each group then tells
its place. -/
namespace Regex

variable {α β γ Name : Type}

namespace Pattern

/-- The pattern that looks at the image of each character. -/
def comap (f : γ → α) : Pattern α Name → Pattern γ Name
  | empty => empty
  | char p => char (p ∘ f)
  | plus p => plus (p ∘ f)
  | opt r => opt (r.comap f)
  | group name r => group name (r.comap f)
  | stop p => stop (p ∘ f)
  | seq r s => seq (r.comap f) (s.comap f)

theorem comap_all (f : γ → α) (rs : List (Pattern α Name)) : (all rs).comap f = all (rs.map (comap f)) := by
  induction rs with
  | nil => rfl
  | cons r rs ih =>
      show seq (r.comap f) ((all rs).comap f) = _
      rw [ih]
      rfl

end Pattern

def mapCaptures (f : γ → α) (captures : Captures γ Name) : Captures α Name :=
  captures.map fun c => (c.1, c.2.map f)

def Group.map (f : γ → α) (g : Group γ Name) : Group α Name where
  name := g.name
  before := g.before.map f
  taken := g.taken.map f
  after := g.after.map f

section Map
variable {f : γ → α}

/-- Looking at the images of the characters changes no choice. -/
theorem greedy_comap {p : α → Bool} {k : List γ → Option β} {k' : List α → Option β} {s : List γ}
    (hk : ∀ t, k t = k' (t.map f)) : greedy (p ∘ f) k s = greedy p k' (s.map f) := by
  induction s with
  | nil => rfl
  | cons c s ih => simp [greedy, ih, hk]

/-- The engine does the same on the images of the characters. -/
theorem run_comap {r : Pattern α Name} {captures : Captures γ Name} {s : List γ}
    {k : Captures γ Name → List γ → Option β} {k' : Captures α Name → List α → Option β}
    (hk : ∀ captures t, k captures t = k' (mapCaptures f captures) (t.map f)) :
    (r.comap f).run captures s k = r.run (mapCaptures f captures) (s.map f) k' := by
  induction r generalizing captures s k k' with
  | empty => exact hk captures s
  | char p =>
      cases s with
      | nil => rfl
      | cons c s => simp [Pattern.comap, Pattern.run, hk]
  | plus p => exact greedy_comap fun t => hk captures t
  | opt r ih => simp [Pattern.comap, Pattern.run, ih hk, hk]
  | group name r ih =>
      apply ih
      intro captures t
      rw [hk]
      simp [mapCaptures, consumed]
  | stop p =>
      rcases s with _ | ⟨c, _ | ⟨d, s⟩⟩
      · exact hk captures []
      · simp [Pattern.comap, Pattern.run, hk]
      · rfl
  | seq r s ihr ihs =>
      apply ihr
      intro captures t
      exact ihs hk

/-- What a pattern takes of a text it takes of the images too. -/
theorem Pattern.Reads.map {r : Pattern α Name} {before w after : List γ} {gs : List (Group γ Name)}
    (h : (r.comap f).Reads before w after gs) :
    r.Reads (before.map f) (w.map f) (after.map f) (gs.map (Group.map f)) := by
  induction r generalizing before w after gs with
  | empty =>
      cases h
      exact .empty
  | char p =>
      cases h with
      | char h => exact .char h
  | plus p =>
      cases h with
      | plus h => exact .plus ⟨by simpa using h.1, by simpa using h.2⟩
  | opt r ih =>
      cases h with
      | skip => exact .skip
      | take h => exact .take (ih h)
  | group name r ih =>
      cases h with
      | group h =>
          have hGroup : (Pattern.group name r).Reads _ _ _ _ := .group (ih h)
          simpa [Group.map] using hGroup
  | stop p =>
      cases h with
      | stop => exact .stop
      | stopBefore h => exact .stopBefore h
  | seq r s ihr ihs =>
      cases h with
      | seq first second =>
          have hFirst := ihr first
          have hSecond := ihs second
          rw [List.map_append] at hFirst hSecond
          simpa using Reads.seq hFirst hSecond

theorem greedy_map {δ : Type} {p : γ → Bool} {k : List γ → Option β} {s : List γ} (g : β → δ) :
    greedy p (fun t => (k t).map g) s = (greedy p k s).map g := by
  induction s with
  | nil => rfl
  | cons c s ih =>
      rw [greedy, greedy, ih]
      split
      · rw [Option.map_or]
      · rfl

/-- A change of the result does not change the way. -/
theorem run_map {δ : Type} {r : Pattern γ Name} {captures : Captures γ Name} {s : List γ}
    {k : Captures γ Name → List γ → Option β} (g : β → δ) :
    r.run captures s (fun captures t => (k captures t).map g) = (r.run captures s k).map g := by
  induction r generalizing captures s k with
  | empty => rfl
  | char p =>
      cases s with
      | nil => rfl
      | cons c s =>
          rw [Pattern.run, Pattern.run]
          split <;> rfl
  | plus p => exact greedy_map g
  | opt r ih => rw [Pattern.run, Pattern.run, ih, Option.map_or]
  | group name r ih => exact ih
  | stop p =>
      rcases s with _ | ⟨c, _ | ⟨d, s⟩⟩
      · rfl
      · rw [Pattern.run, Pattern.run]
        split <;> rfl
      · rfl
  | seq r s ihr ihs =>
      rw [Pattern.run, Pattern.run, ← ihr]
      congr 1
      funext captures t
      exact ihs

/-- A match of the numbered text is one of the text itself. -/
theorem match?_comap (r : Pattern α Name) (f : γ → α) (s : List γ) :
    ((r.comap f).match? s).map (mapCaptures f) = r.match? (s.map f) := by
  rw [Pattern.match?, Pattern.match?, ← run_map]
  exact run_comap fun _ _ => rfl

end Map

section Place
variable {r : Pattern α Name} {s : List α} {name : Name}

/-- A group and what stands around it make up the text. -/
theorem Pattern.Reads.text {before w after : List α} {gs : List (Group α Name)}
    (h : r.Reads before w after gs) :
    ∀ g ∈ gs, g.before ++ g.taken ++ g.after = before ++ w ++ after := by
  induction h with
  | take h ih => exact ih
  | group h ih =>
      intro g hg
      rcases List.mem_append.mp hg with hg | hg
      · exact ih g hg
      · rw [List.mem_singleton.mp hg]
  | seq first second ih ih' =>
      intro g hg
      rcases List.mem_append.mp hg with hg | hg
      · simpa using ih g hg
      · simpa using ih' g hg
  | _ => simp

/-- The characters of a numbered text carry their places. -/
theorem head?_snd_of_zipIdx {before taken after : List (α × Nat)} {c : α × Nat}
    (hText : s.zipIdx = before ++ taken ++ after) (hFirst : taken.head? = some c) : c.2 = before.length := by
  obtain ⟨taken, rfl⟩ := List.head?_eq_some_iff.mp hFirst
  have hIndex : (before ++ c :: taken ++ after)[before.length]? = some c := by simp
  rw [← hText, List.getElem?_zipIdx] at hIndex
  obtain ⟨x, -, rfl⟩ := Option.map_eq_some_iff.mp hIndex
  simp

def plain (gs : List (Group (α × Nat) Name)) : List (Group α Name) := gs.map (Group.map Prod.fst)

theorem capturesOf_plain (gs : List (Group (α × Nat) Name)) :
    capturesOf (plain gs) = mapCaptures Prod.fst (capturesOf gs) := by
  simp [capturesOf, plain, mapCaptures, Group.map]

/-- The engine finds the same match on the numbered text. -/
theorem match?_numbered {captures : Captures α Name} (h : r.match? s = some captures) :
    ∃ numbered, (r.comap Prod.fst).match? s.zipIdx = some numbered ∧
      mapCaptures Prod.fst numbered = captures := by
  have hSame := match?_comap r Prod.fst s.zipIdx
  rw [List.zipIdx_map_fst, h] at hSame
  exact Option.map_eq_some_iff.mp hSame

variable [DecidableEq Name]

/-- The place in the text where the group begins that the engine records under the name. -/
def placeOf (r : Pattern α Name) (s : List α) (name : Name) : Option Nat := do
  let captures ← (r.comap Prod.fst).match? s.zipIdx
  let taken ← captures.lookup name
  let first ← taken.head?
  return first.2

theorem lookup_mapCaptures {γ : Type} (f : γ → α) (captures : Captures γ Name) (name : Name) :
    (mapCaptures f captures).lookup name = (captures.lookup name).map (List.map f) := by
  induction captures with
  | nil => rfl
  | cons c captures ih =>
      rw [mapCaptures, List.map_cons, List.lookup_cons, List.lookup_cons]
      cases name == c.1 with
      | true => rfl
      | false => exact ih

/-- A name that is not among the captures has no place. -/
theorem placeOf_eq_none {captures : Captures α Name} (h : r.match? s = some captures)
    (hNone : captures.lookup name = none) : placeOf r s name = none := by
  obtain ⟨numbered, hNumbered, rfl⟩ := match?_numbered h
  rw [lookup_mapCaptures, Option.map_eq_none_iff] at hNone
  rw [placeOf, hNumbered]
  simp [hNone]

def groupNamed (gs : List (Group α Name)) (name : Name) : Option (Group α Name) :=
  gs.find? fun g => name == g.name

/-- A name stands for the last group that bears it. -/
theorem lookup_capturesOf (gs : List (Group α Name)) (name : Name) :
    (capturesOf gs).lookup name = (groupNamed gs name).map (·.taken) := by
  induction gs with
  | nil => rfl
  | cons g gs ih =>
      rw [groupNamed, List.find?_cons]
      show (match name == g.name with | true => some g.taken | false => (capturesOf gs).lookup name) = _
      cases name == g.name with
      | true => rfl
      | false => exact ih

/-- A reading that the engine found on the numbered text tells the places of its groups. -/
theorem placeOf_of_reads {w t : List (α × Nat)} {gs : List (Group (α × Nat) Name)}
    {g : Group (α × Nat) Name} (hMatch : (r.comap Prod.fst).match? s.zipIdx = some (capturesOf gs))
    (hText : s.zipIdx = w ++ t) (hReads : (r.comap Prod.fst).Reads [] w t gs)
    (hNamed : groupNamed gs name = some g) (hTaken : g.taken ≠ []) :
    placeOf r s name = some g.before.length := by
  obtain ⟨c, taken, hFirst⟩ := List.exists_cons_of_ne_nil hTaken
  have hAround : s.zipIdx = g.before ++ g.taken ++ g.after := by
    rw [hReads.text g (List.mem_of_find?_eq_some hNamed), hText, List.nil_append]
  have hPlace : c.2 = g.before.length := by
    apply head?_snd_of_zipIdx hAround
    rw [hFirst, List.head?_cons]
  rw [placeOf, hMatch]
  simp [lookup_capturesOf, hNamed, hFirst, hPlace]

theorem groupNamed_plain (gs : List (Group (α × Nat) Name)) (name : Name) :
    groupNamed (plain gs) name = (groupNamed gs name).map (Group.map Prod.fst) := by
  rw [groupNamed, plain, List.find?_map]
  rfl

/-- The groups stand at their places. -/
def Placed (r : Pattern α Name) (s : List α) (gs : List (Group α Name)) : Prop :=
  ∀ name g, groupNamed gs name = some g → g.taken ≠ [] → placeOf r s name = some g.before.length

/-- The numbers of a group tell its place. -/
theorem placed_of_numbered {w t : List (α × Nat)} {gs : List (Group (α × Nat) Name)}
    (hMatch : (r.comap Prod.fst).match? s.zipIdx = some (capturesOf gs))
    (hText : s.zipIdx = w ++ t) (hReads : (r.comap Prod.fst).Reads [] w t gs) : Placed r s (plain gs) := by
  intro name g hNamed hTaken
  rw [groupNamed_plain] at hNamed
  obtain ⟨numbered, hNumbered, rfl⟩ := Option.map_eq_some_iff.mp hNamed
  have hPlace := placeOf_of_reads hMatch hText hReads hNumbered (fun hNil => hTaken (by simp [Group.map, hNil]))
  simpa [Group.map] using hPlace

/-- A match is a reading whose groups stand at their places. -/
theorem match?_placed {captures : Captures α Name} (h : r.match? s = some captures) :
    ∃ w t gs, s = w ++ t ∧ r.Reads [] w t gs ∧ captures = capturesOf gs ∧ Placed r s gs := by
  obtain ⟨numbered, hNumbered, rfl⟩ := match?_numbered h
  obtain ⟨w, t, gs, hText, hReads, rfl⟩ := Pattern.match?_sound hNumbered
  refine ⟨w.map Prod.fst, t.map Prod.fst, plain gs, ?_, hReads.map, (capturesOf_plain gs).symm,
    placed_of_numbered hNumbered hText hReads⟩
  rw [← List.map_append, ← hText, List.zipIdx_map_fst]

end Place

end Regex
