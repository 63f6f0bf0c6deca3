import Spidercheck.Url.Basic

/-! The text in front of the query. A path that is empty or begins with a slash
can be read off the locator, and a longer path gives a longer locator. -/
namespace Url

open Text

variable {scheme netloc path path' query query' : Str}

def Rooted (path : Str) : Prop := path = [] ∨ path.head? = some '/'

instance : DecidablePred Rooted :=
  fun path => inferInstanceAs (Decidable (path = [] ∨ path.head? = some '/'))

theorem rooted_nil : Rooted [] := .inl rfl

theorem rooted_cons (rest : Str) : Rooted ('/' :: rest) := .inr rfl

theorem slashed_of_rooted (h : Rooted path) : slashed path = path := by
  cases path with
  | nil => rfl
  | cons c rest =>
      obtain rfl : c = '/' := by simpa [Rooted] using h
      rfl

theorem rooted_slashed (path : Str) : Rooted (slashed path) := by
  unfold slashed
  split
  · exact rooted_nil
  · exact rooted_cons _
  · exact rooted_cons _

/-- The part of a locator that does not depend on the path, unless there is none. -/
def Authoritative (scheme netloc : Str) : Prop :=
  netloc ≠ [] ∨ (scheme ≠ [] ∧ scheme ∈ usesNetloc)

instance : Decidable (Authoritative scheme netloc) :=
  inferInstanceAs (Decidable (netloc ≠ [] ∨ (scheme ≠ [] ∧ scheme ∈ usesNetloc)))

theorem locator_of_authoritative (h : Authoritative scheme netloc) : locator scheme netloc path =
    (if scheme ≠ [] then scheme ++ [':'] else []) ++ ("//" ++ netloc ++ slashed path) := by
  have hCond : netloc ≠ [] ∨ (scheme ≠ [] ∧ scheme ∈ usesNetloc) ∨ startsWith "//" path = true := by
    rcases h with h | h
    · exact .inl h
    · exact .inr (.inl h)
  simp only [locator, if_pos hCond]
  split
  · simp
  · rfl

theorem locator_of_not (h : ¬ Authoritative scheme netloc) : locator scheme netloc path =
    (if scheme ≠ [] then scheme ++ [':'] else []) ++
      (if startsWith "//" path then "//" ++ path else path) := by
  have hNetloc : netloc = [] := by
    by_contra hSome
    exact h (.inl hSome)
  have hScheme : ¬ (scheme ≠ [] ∧ scheme ∈ usesNetloc) := fun hUses => h (.inr hUses)
  by_cases hSlashes : startsWith "//" path = true
  · have hSlashed : slashed path = path := by
      apply slashed_of_rooted
      obtain ⟨rest, rfl⟩ := List.isPrefixOf_iff_prefix.mp hSlashes
      exact rooted_cons _
    simp only [locator, hNetloc, hSlashed, hSlashes, hScheme, ne_eq, not_true_eq_false, or_true,
      ↓reduceIte, List.append_nil]
    split <;> simp
  · simp only [locator, hNetloc, hSlashes, hScheme, ne_eq, not_true_eq_false]
    split <;> simp

@[simp] theorem marked_nil (mark : Char) : marked mark [] = [] := rfl

theorem cut_append_marked {c : Char} {s t : Str} (h : c ∉ s) : cut c (s ++ marked c t) = (s, t) := by
  unfold marked
  split
  · next hEmpty => simp [hEmpty, cut_of_notMem h]
  · exact cut_append h

/-- The mark of a query is the first question mark of the text. -/
theorem append_marked_inj (hPath : '?' ∉ path) (hPath' : '?' ∉ path')
    (h : path ++ marked '?' query = path' ++ marked '?' query') :
    path = path' ∧ query = query' := by
  have hPair : (path, query) = (path', query') := by
    rw [← cut_append_marked hPath, h, cut_append_marked hPath']
  exact Prod.mk.inj hPair

/-- Without an authority only two slashes in front of a path are doubled. -/
theorem doubled_append_inj (hRooted : Rooted path) (hRooted' : Rooted path')
    {rest rest' : Str} (hRest : rest.head? ≠ some '/') (hRest' : rest'.head? ≠ some '/')
    (h : (if startsWith "//" path then "//" ++ path else path) ++ rest =
      (if startsWith "//" path' then "//" ++ path' else path') ++ rest') :
    path ++ rest = path' ++ rest' := by
  -- a text with four slashes in front cannot be one whose path has at most one
  have hMixed {p q r r' : Str} (hp : startsWith "//" p = true) (hq : startsWith "//" q ≠ true)
      (hRootedq : Rooted q) (hr : r'.head? ≠ some '/')
      (hEq : "//" ++ p ++ r = q ++ r') : False := by
    rcases q with _ | ⟨c, q⟩
    · simp only [List.nil_append] at hEq
      rw [← hEq] at hr
      simp at hr
    · obtain rfl : c = '/' := by simpa [Rooted] using hRootedq
      rcases q with _ | ⟨d, q⟩
      · simp at hEq
        rw [← hEq] at hr
        simp at hr
      · have hSecond : d = '/' := by
          have := congrArg (fun l : Str => l.tail.head?) hEq
          simpa using this.symm
        rw [hSecond] at hq
        exact hq (by simp [startsWith, List.isPrefixOf])
  by_cases hTwo : startsWith "//" path = true <;> by_cases hTwo' : startsWith "//" path' = true
  · rw [if_pos hTwo, if_pos hTwo'] at h
    simpa using h
  · rw [if_pos hTwo, if_neg hTwo'] at h
    exact (hMixed hTwo hTwo' hRooted' hRest' h).elim
  · rw [if_neg hTwo, if_pos hTwo'] at h
    exact (hMixed hTwo' hTwo hRooted hRest h.symm).elim
  · rwa [if_neg hTwo, if_neg hTwo'] at h

theorem marked_head_ne (mark : Char) (hMark : mark ≠ '/') (text : Str) :
    (marked mark text).head? ≠ some '/' := by
  unfold marked
  split
  · simp
  · simpa using hMark

/-- A rooted path without a question mark, and the query, can be read off a URL. -/
theorem locator_append_marked_inj (hRooted : Rooted path) (hRooted' : Rooted path')
    (hPath : '?' ∉ path) (hPath' : '?' ∉ path')
    (h : locator scheme netloc path ++ marked '?' query =
      locator scheme netloc path' ++ marked '?' query') : path = path' ∧ query = query' := by
  apply append_marked_inj hPath hPath'
  by_cases hAuthority : Authoritative scheme netloc
  · rw [locator_of_authoritative hAuthority, locator_of_authoritative hAuthority,
      slashed_of_rooted hRooted, slashed_of_rooted hRooted'] at h
    simpa only [List.append_assoc, List.append_cancel_left_eq] using h
  · rw [locator_of_not hAuthority, locator_of_not hAuthority, List.append_assoc,
      List.append_assoc, List.append_cancel_left_eq] at h
    exact doubled_append_inj hRooted hRooted' (marked_head_ne '?' (by decide) query)
      (marked_head_ne '?' (by decide) query') h

/-- A path that begins with another one has a locator that begins with the other. -/
theorem locator_isPrefix (hNonempty : path ≠ []) (h : path <+: path') :
    locator scheme netloc path <+: locator scheme netloc path' := by
  obtain ⟨rest, rfl⟩ := h
  obtain ⟨c, path, rfl⟩ := List.exists_cons_of_ne_nil hNonempty
  by_cases hAuthority : Authoritative scheme netloc
  · rw [locator_of_authoritative hAuthority, locator_of_authoritative hAuthority]
    refine (List.prefix_append_right_inj _).mpr ((List.prefix_append_right_inj _).mpr ?_)
    by_cases hSlash : c = '/'
    · simp [hSlash, slashed]
    · have hSlashed (text : Str) : slashed (c :: text) = '/' :: c :: text := by
        simp [slashed, hSlash]
      simp [hSlashed]
  · rw [locator_of_not hAuthority, locator_of_not hAuthority]
    refine (List.prefix_append_right_inj _).mpr ?_
    by_cases hTwo : startsWith "//" (c :: path) = true
    · have hMore : startsWith "//" (c :: path ++ rest) = true := by
        obtain ⟨more, hMore⟩ := List.isPrefixOf_iff_prefix.mp hTwo
        exact List.isPrefixOf_iff_prefix.mpr ⟨more ++ rest, by rw [← hMore, List.append_assoc]⟩
      rw [if_pos hTwo, if_pos hMore]
      simp
    · rw [if_neg hTwo]
      split
      · next hMore =>
          -- the path is a single slash
          obtain ⟨more, hMore⟩ := List.isPrefixOf_iff_prefix.mp hMore
          rcases path with _ | ⟨d, path⟩
          · simp at hMore
            simpa using hMore.1.symm
          · simp at hMore
            rw [← hMore.1, ← hMore.2.1] at hTwo
            exact absurd (by simp [startsWith, List.isPrefixOf]) hTwo
      · exact List.prefix_append _ _

end Url
