-- SUMMARY: Loops that keep the largest element seen so far, and the first maximum that they find.
import Mathlib.Order.Lattice
import Mathlib.Data.List.Induction
import Mathlib.Order.Basic

/-!
# First maxima

A loop that replaces its candidate only by a strictly larger element ends with the first
of the largest elements, or with what it started from.
-/

variable {α β : Type*} [LinearOrder β] {key : α → β} {xs : List α}

/-- `x` stands at `i`, no key is larger than its own, and every key before it is smaller. -/
structure FirstMax (key : α → β) (xs : List α) (i : Nat) (x : α) : Prop where
  getElem? : xs[i]? = some x
  isMax : ∀ y ∈ xs, key y ≤ key x
  isFirst : ∀ k y, k < i → xs[k]? = some y → key y < key x

namespace FirstMax

/-- There is one first maximum at most. -/
theorem unique {i j : Nat} {x y : α} (hx : FirstMax key xs i x) (hy : FirstMax key xs j y) :
    i = j := by
  rcases Nat.lt_trichotomy i j with hlt | heq | hlt
  · have hless := hy.isFirst i x hlt hx.getElem?
    exact absurd hless (not_lt.mpr (hx.isMax y (List.mem_of_getElem? hy.getElem?)))
  · exact heq
  · have hless := hx.isFirst j y hlt hy.getElem?
    exact absurd hless (not_lt.mpr (hy.isMax x (List.mem_of_getElem? hx.getElem?)))

/-- The head is the first maximum when no key is larger. -/
theorem head {x : α} (h : ∀ y ∈ x :: xs, key y ≤ key x) : FirstMax key (x :: xs) 0 x where
  getElem? := rfl
  isMax := h
  isFirst := fun _ _ hk => absurd hk (Nat.not_lt_zero _)

end FirstMax

/-- Start from a candidate and replace it by every strictly larger element. -/
def keepMax (key : α → β) (start : α) (xs : List α) : α :=
  xs.foldl (fun best x => if key best < key x then x else best) start

/-- Either nothing is larger than the start, which is kept, or the first maximum is found. -/
theorem keepMax_spec (key : α → β) (start : α) (xs : List α) :
    (keepMax key start xs = start ∧ ∀ y ∈ xs, key y ≤ key start) ∨
      ∃ i x, FirstMax key xs i x ∧ key start < key x ∧ keepMax key start xs = x := by
  induction xs using List.reverseRecOn with
  | nil => exact .inl ⟨rfl, by simp⟩
  | append_singleton rest x ih =>
      have hlast : (rest ++ [x])[rest.length]? = some x := by simp
      have hstep : keepMax key start (rest ++ [x]) =
          if key (keepMax key start rest) < key x then x else keepMax key start rest := by
        rw [keepMax, List.foldl_append]
        rfl
      -- What the loop has kept so far bounds the start and the elements so far.
      have hbound : key start ≤ key (keepMax key start rest) ∧
          ∀ y ∈ rest, key y ≤ key (keepMax key start rest) := by
        rcases ih with ⟨hkept, hle⟩ | ⟨i, m, hm, hlt, hkept⟩
        · rw [hkept]
          exact ⟨le_refl _, hle⟩
        · rw [hkept]
          exact ⟨le_of_lt hlt, hm.isMax⟩
      rw [hstep]
      split
      · -- The last element is larger than all before it.
        rename_i hlarger
        refine .inr ⟨rest.length, x, ⟨hlast, fun y hy => ?_, fun k y hk hy => ?_⟩,
          lt_of_le_of_lt hbound.1 hlarger, rfl⟩
        · rcases List.mem_append.mp hy with hy | hy
          · exact (hbound.2 y hy).trans (le_of_lt hlarger)
          · rw [List.mem_singleton.mp hy]
        · rw [List.getElem?_append_left hk] at hy
          exact lt_of_le_of_lt (hbound.2 y (List.mem_of_getElem? hy)) hlarger
      · rename_i hnot
        have hx : key x ≤ key (keepMax key start rest) := not_lt.mp hnot
        rcases ih with ⟨hkept, hle⟩ | ⟨i, m, hm, hlt, hkept⟩
        · refine .inl ⟨hkept, fun y hy => ?_⟩
          rcases List.mem_append.mp hy with hy | hy
          · exact hle y hy
          · rw [List.mem_singleton.mp hy, ← hkept]
            exact hx
        · have hi := (List.getElem?_eq_some_iff.mp hm.getElem?).1
          refine .inr ⟨i, m, ⟨?_, fun y hy => ?_, fun k y hk hy => ?_⟩, hlt, hkept⟩
          · rw [List.getElem?_append_left hi]
            exact hm.getElem?
          · rcases List.mem_append.mp hy with hy | hy
            · exact hm.isMax y hy
            · rw [List.mem_singleton.mp hy, ← hkept]
              exact hx
          · rw [List.getElem?_append_left (Nat.lt_trans hk hi)] at hy
            exact hm.isFirst k y hk hy

/-- From the first element on, the loop ends with the first maximum. -/
theorem keepMax_head (key : α → β) (x : α) (xs : List α) :
    ∃ i, FirstMax key (x :: xs) i (keepMax key x (x :: xs)) := by
  rcases keepMax_spec key x (x :: xs) with ⟨hkept, hle⟩ | ⟨i, m, hm, -, hkept⟩
  · rw [hkept]
    exact ⟨0, .head hle⟩
  · rw [hkept]
    exact ⟨i, hm⟩

/-- The same loop over the elements with their indices, which keeps an index and a key. -/
def scanMax (key : α → β) (start : Nat × β) (xs : List α) : Nat × β :=
  xs.zipIdx.foldl (fun best x => if best.2 < key x.1 then (x.2, key x.1) else best) start

theorem scanMax_spec (key : α → β) (start : Nat × β) (xs : List α) :
    (scanMax key start xs = start ∧ ∀ y ∈ xs, key y ≤ start.2) ∨
      ∃ i x, FirstMax key xs i x ∧ start.2 < key x ∧ scanMax key start xs = (i, key x) := by
  have hkeep : scanMax key start xs =
      keepMax (·.2) start (xs.zipIdx.map fun x => (x.2, key x.1)) := by
    rw [scanMax, keepMax, List.foldl_map]
  have hget : ∀ i : Nat, (xs.zipIdx.map fun x => (x.2, key x.1))[i]? =
      xs[i]?.map fun x => (i, key x) := fun i => by
    simp [Function.comp_def]
  have hmem : ∀ y ∈ xs, ∃ j, (j, key y) ∈ xs.zipIdx.map fun x => (x.2, key x.1) := fun y hy => by
    obtain ⟨j, hj⟩ := List.mem_iff_getElem?.mp hy
    refine ⟨j, List.mem_of_getElem? (i := j) ?_⟩
    rw [hget, hj]
    rfl
  rw [hkeep]
  rcases keepMax_spec (β := β) (·.2) start (xs.zipIdx.map fun x => (x.2, key x.1)) with
    ⟨hkept, hle⟩ | ⟨i, m, hm, hlt, hkept⟩
  · refine .inl ⟨hkept, fun y hy => ?_⟩
    obtain ⟨j, hj⟩ := hmem y hy
    exact hle (j, key y) hj
  · have hat := hm.getElem?
    rw [hget, Option.map_eq_some_iff] at hat
    obtain ⟨x, hx, rfl⟩ := hat
    refine .inr ⟨i, x, ⟨hx, fun y hy => ?_, fun k y hk hy => ?_⟩, hlt, hkept⟩
    · obtain ⟨j, hj⟩ := hmem y hy
      exact hm.isMax (j, key y) hj
    · exact hm.isFirst k (k, key y) hk (by rw [hget, hy]; rfl)

/-- A scan that starts at the first index, with a bound below every key, ends at the first
    maximum. -/
theorem scanMax_firstMax {b : β} (hne : xs ≠ []) (hstart : ∀ y ∈ xs, b ≤ key y) :
    ∃ x, FirstMax key xs (scanMax key (0, b) xs).1 x := by
  rcases scanMax_spec key (0, b) xs with ⟨hkept, hle⟩ | ⟨i, x, hx, -, hkept⟩
  · obtain ⟨x, rest, rfl⟩ := List.exists_cons_of_ne_nil hne
    rw [hkept]
    exact ⟨x, .head fun y hy => (hle y hy).trans (hstart x List.mem_cons_self)⟩
  · rw [hkept]
    exact ⟨x, hx⟩
