import Mathlib.Tactic

/-
  A scan that keeps the best element so far: a later element takes its place only when it is
  strictly better. The result is the first of the elements with the greatest weight.
-/

namespace RustCrash.Lib.FirstMax

variable {α β : Type} [LinearOrder β] (w : α → β)

/-- One step of the scan. -/
def keep (best : Option α) (a : α) : Option α :=
  if best.all fun b => w b < w a then some a else best

def firstMax (xs : List α) : Option α := xs.foldl (keep w) none

variable {w}

theorem firstMax_append (xs : List α) (a : α) :
    firstMax w (xs ++ [a]) = keep w (firstMax w xs) a := by
  unfold firstMax
  rw [List.foldl_append]
  rfl

/-- What comes before the result is lighter, and what comes after is not heavier. -/
theorem firstMax_spec {xs : List α} {a : α} (h : firstMax w xs = some a) :
    ∃ l r, xs = l ++ a :: r ∧ (∀ x ∈ l, w x < w a) ∧ ∀ x ∈ r, w x ≤ w a := by
  induction xs using List.reverseRecOn generalizing a with
  | nil => cases h
  | append_singleton xs y ih =>
    rw [firstMax_append] at h
    unfold keep at h
    cases hbest : firstMax w xs with
    | none =>
      have hnil : xs = [] := by
        by_contra hne
        obtain ⟨ys, z, rfl⟩ := List.eq_nil_or_concat xs |>.resolve_left hne
        rw [List.concat_eq_append, firstMax_append] at hbest
        unfold keep at hbest
        split_ifs at hbest with hall
        rw [hbest] at hall
        exact hall rfl
      rw [hbest] at h
      cases h
      exact ⟨[], [], by rw [hnil], by simp, by simp⟩
    | some b =>
      obtain ⟨l, r, hxs, hl, hr⟩ := ih hbest
      rw [hbest, Option.all_some] at h
      split_ifs at h with hlt
      · cases h
        rw [decide_eq_true_iff] at hlt
        refine ⟨xs, [], rfl, fun x hx => ?_, by simp⟩
        rw [hxs, List.mem_append, List.mem_cons] at hx
        rcases hx with hx | hx | hx
        · exact (hl x hx).trans hlt
        · rw [hx]
          exact hlt
        · exact (hr x hx).trans_lt hlt
      · cases h
        rw [decide_eq_true_iff, not_lt] at hlt
        refine ⟨l, r ++ [y], by rw [hxs, List.append_assoc, List.cons_append], hl, fun x hx => ?_⟩
        rcases List.mem_append.mp hx with hx | hx
        · exact hr x hx
        · rw [List.mem_singleton.mp hx]
          exact hlt

theorem firstMax_isSome {xs : List α} (h : xs ≠ []) : ∃ a, firstMax w xs = some a := by
  obtain ⟨ys, y, rfl⟩ := List.eq_nil_or_concat xs |>.resolve_left h
  rw [List.concat_eq_append, firstMax_append]
  unfold keep
  split_ifs with hall
  · exact ⟨y, rfl⟩
  · cases hb : firstMax w ys with
    | none =>
      rw [hb] at hall
      exact absurd rfl hall
    | some b => exact ⟨b, rfl⟩

/-- Among elements that come in the order of `f`, the result beats every element of another
    place: it is heavier, or as heavy and earlier. -/
theorem firstMax_beats {γ : Type} [LinearOrder γ] {f : α → γ} {xs : List α}
    (hsorted : xs.Pairwise fun x y => f x ≤ f y) {a : α} (h : firstMax w xs = some a) {x : α}
    (hx : x ∈ xs) (hne : f x ≠ f a) : w x < w a ∨ w x = w a ∧ f a < f x := by
  obtain ⟨l, r, hxs, hl, hr⟩ := firstMax_spec h
  rw [hxs, List.mem_append, List.mem_cons] at hx
  rcases hx with hx | hx | hx
  · exact Or.inl (hl x hx)
  · exact absurd (congrArg f hx) hne
  · rcases (hr x hx).lt_or_eq with hlt | heq
    · exact Or.inl hlt
    · rw [hxs, List.pairwise_append, List.pairwise_cons] at hsorted
      exact Or.inr ⟨heq, lt_of_le_of_ne (hsorted.2.1.1 x hx) (Ne.symm hne)⟩

theorem firstMax_mem {xs : List α} {a : α} (h : firstMax w xs = some a) : a ∈ xs := by
  obtain ⟨l, r, hxs, -, -⟩ := firstMax_spec h
  rw [hxs]
  exact List.mem_append_right l List.mem_cons_self

end RustCrash.Lib.FirstMax
