-- SUMMARY: The best of a list by a score, up to a bound.
import Mathlib.Data.List.Sort

/-!
# Ranking

The elements of a list with the highest scores, so many of them at most. What is left out has
no higher score than what is not, and is left out only once the bound is reached.
-/

universe u v

namespace Ranking

variable {α : Type u} {β : Type v} (score : α → Nat) (k : Nat) (xs : List α)

/-- Up to `k` elements with the highest scores, the highest first. -/
def best : List α := (xs.insertionSort fun a b => score b ≤ score a).take k

theorem best_eq_take : ∃ ys, (best score k xs ++ ys).Perm xs ∧
    (∀ a ∈ best score k xs, ∀ b ∈ ys, score b ≤ score a) ∧
    (ys ≠ [] → (best score k xs).length = k) := by
  have : Std.Total fun a b : α => score b ≤ score a := ⟨fun a b => Nat.le_total _ _⟩
  have : IsTrans α fun a b => score b ≤ score a := ⟨fun _ _ _ hab hbc => hbc.trans hab⟩
  have hsorted := List.pairwise_insertionSort (fun a b : α => score b ≤ score a) xs
  have hperm := List.perm_insertionSort (fun a b : α => score b ≤ score a) xs
  rw [← List.take_append_drop k (xs.insertionSort _)] at hsorted hperm
  refine ⟨_, hperm, (List.pairwise_append.mp hsorted).2.2, fun hrest => ?_⟩
  rw [best, List.length_take]
  rw [ne_eq, List.drop_eq_nil_iff] at hrest
  omega

variable {score k xs}

theorem mem_of_mem_best {a : α} (h : a ∈ best score k xs) : a ∈ xs := by
  obtain ⟨ys, hperm, -⟩ := best_eq_take score k xs
  exact hperm.subset (List.mem_append_left ys h)

theorem length_best_le (score : α → Nat) (k : Nat) (xs : List α) :
    (best score k xs).length ≤ k :=
  List.length_take_le ..

/-- The best are the same under a map that keeps the scores. -/
theorem map_best {score' : β → Nat} (f : α → β) (h : ∀ a ∈ xs, score' (f a) = score a) :
    (best score k xs).map f = best score' k (xs.map f) := by
  unfold best
  rw [List.map_take, List.map_insertionSort (fun a b : α => score b ≤ score a)
    (fun a b : β => score' b ≤ score' a) f xs fun a ha b hb => by rw [h a ha, h b hb]]

/-- What is left out has no higher score, and the bound is reached. -/
theorem left_out {a : α} (ha : a ∈ xs) (hout : a ∉ best score k xs) :
    (best score k xs).length = k ∧ ∀ b ∈ best score k xs, score a ≤ score b := by
  obtain ⟨ys, hperm, hle, hfull⟩ := best_eq_take score k xs
  have hys : a ∈ ys := (List.mem_append.mp (hperm.mem_iff.mpr ha)).resolve_left hout
  exact ⟨hfull (List.ne_nil_of_mem hys), fun b hb => hle b hb a hys⟩

end Ranking
