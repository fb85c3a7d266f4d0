import Mathlib.Tactic

/-!
# The longest suffix below a limit

The elements of a list have a weight. The elements at the front are dropped until the weight of the rest is
below a limit.
-/

namespace LastFit

variable {α : Type*} (w : α → ℕ)

def weight (xs : List α) : ℕ := (xs.map w).sum

/-- The suffix that is left when elements are dropped one by one, as long as the limit is reached. -/
def lastFit (limit : ℕ) : List α → List α
  | [] => []
  | x :: xs => if limit ≤ weight w (x :: xs) then lastFit limit xs else x :: xs

/-- `ys` is the longest suffix of `xs` with a weight below the limit, if there is one. -/
structure IsLastFit (limit : ℕ) (xs ys : List α) : Prop where
  suffix : ys <:+ xs
  below : ys ≠ [] → weight w ys < limit
  longest : ∀ zs, zs <:+ xs → weight w zs < limit → zs <:+ ys

variable {w}

@[simp] theorem weight_nil : weight w [] = 0 := rfl

@[simp] theorem weight_cons (x : α) (xs : List α) : weight w (x :: xs) = w x + weight w xs := by
  simp [weight]

@[simp] theorem weight_append (xs ys : List α) : weight w (xs ++ ys) = weight w xs + weight w ys := by
  simp [weight]

theorem isLastFit_lastFit (limit : ℕ) (xs : List α) : IsLastFit w limit xs (lastFit w limit xs) := by
  induction xs with
  | nil => exact ⟨List.suffix_refl [], fun h => absurd rfl h, fun zs hzs _ => hzs⟩
  | cons x xs ih =>
    rw [lastFit]
    split
    case isTrue hlimit =>
      refine ⟨ih.suffix.trans (List.suffix_cons x xs), ih.below, fun zs hzs hbelow => ?_⟩
      rcases List.suffix_cons_iff.mp hzs with rfl | hzs
      · exact absurd hlimit (not_le.mpr hbelow)
      · exact ih.longest zs hzs hbelow
    case isFalse hlimit =>
      exact ⟨List.suffix_refl _, fun _ => not_le.mp hlimit, fun zs hzs _ => hzs⟩

/-- What is left only depends on the list and the limit. -/
theorem IsLastFit.unique {limit : ℕ} {xs ys zs : List α} (hy : IsLastFit w limit xs ys)
    (hz : IsLastFit w limit xs zs) : ys = zs := by
  have hsub {us vs : List α} (hu : IsLastFit w limit xs us) (hv : IsLastFit w limit xs vs) : us <:+ vs := by
    by_cases hnil : us = []
    · rw [hnil]
      exact List.nil_suffix
    · exact hv.longest us hu.suffix (hu.below hnil)
  exact (hsub hy hz).eq_of_length_le (hsub hz hy).length_le

end LastFit
