-- SUMMARY: Fixed-width bit masks used as sets of small indices: testing, marking and the full mask.
import Mathlib.Algebra.Group.Nat.Defs
import Mathlib.Data.Finset.Card
import Mathlib.Data.Finset.Range
import Mathlib.Tactic.ByContra

/-!
# Bit masks as sets of indices

A mask of width `w` records which of the indices below `w` are done. The
operations are written as programs write them, with a shifted one; the lemmas
read each of them as a statement about membership.
-/

namespace Bitmask

variable {w : Nat}

/-- Bit `i` of the mask is set: `m & (1 << i) != 0`. -/
def test (m : BitVec w) (i : Nat) : Bool :=
  m &&& (1#w <<< i) != 0#w

/-- The mask with bit `i` set: `m | (1 << i)`. -/
def mark (m : BitVec w) (i : Nat) : BitVec w :=
  m ||| (1#w <<< i)

/-- The mask of the indices below `n`: `(1 << n) - 1`. -/
def full (w n : Nat) : BitVec w :=
  BitVec.ofNat w (2 ^ n - 1)

/-- Every index of the first mask is one of the second. -/
def Sub (m m' : BitVec w) : Prop :=
  ∀ i, m.getLsbD i = true → m'.getLsbD i = true

theorem getLsbD_one_shift (i k : Nat) :
    (1#w <<< i).getLsbD k = decide (k < w ∧ k = i) := by
  rw [← BitVec.twoPow_eq, BitVec.getLsbD_twoPow]
  by_cases hk : k = i
  · subst hk; simp
  · have hk' : i ≠ k := fun h => hk h.symm
    simp [hk, hk']

theorem test_eq_getLsbD (m : BitVec w) (i : Nat) : test m i = m.getLsbD i := by
  unfold test
  by_cases h : m &&& (1#w <<< i) = 0#w
  · have hbit : (m &&& (1#w <<< i)).getLsbD i = false := by rw [h]; simp
    rw [BitVec.getLsbD_and, getLsbD_one_shift] at hbit
    cases hm : m.getLsbD i with
    | false => simp [h]
    | true =>
        have hrange : i < w := BitVec.lt_of_getLsbD hm
        rw [hm] at hbit
        simp [hrange] at hbit
  · have hne : ∃ k, (m &&& (1#w <<< i)).getLsbD k = true := by
      by_contra hnone
      apply h
      apply BitVec.eq_of_getLsbD_eq
      intro k hk
      have := not_exists.mp hnone k
      simpa using this
    obtain ⟨k, hk⟩ := hne
    rw [BitVec.getLsbD_and, getLsbD_one_shift] at hk
    simp only [Bool.and_eq_true, decide_eq_true_eq] at hk
    obtain ⟨hm, -, rfl⟩ := hk
    simp [h, hm]

@[simp] theorem test_zero (i : Nat) : test 0#w i = false := by
  simp [test_eq_getLsbD]

theorem test_mark {i : Nat} (hi : i < w) (m : BitVec w) (k : Nat) :
    test (mark m i) k = (test m k || decide (k = i)) := by
  rw [test_eq_getLsbD, test_eq_getLsbD, mark, BitVec.getLsbD_or, getLsbD_one_shift]
  by_cases hk : k = i
  · subst hk; simp [hi]
  · simp [hk]

theorem test_mark_self {i : Nat} (hi : i < w) (m : BitVec w) : test (mark m i) i = true := by
  simp [test_mark hi]

/-- Marking never clears a bit. -/
theorem test_mark_of_test {m : BitVec w} {i k : Nat} (h : test m k = true) :
    test (mark m i) k = true := by
  rw [test_eq_getLsbD] at h ⊢
  rw [mark, BitVec.getLsbD_or, h, Bool.true_or]

theorem test_mark_of_ne {m : BitVec w} {i k : Nat} (h : k ≠ i) :
    test (mark m i) k = test m k := by
  rw [test_eq_getLsbD, test_eq_getLsbD, mark, BitVec.getLsbD_or, getLsbD_one_shift]
  simp [h]

theorem test_full {n : Nat} (hn : n ≤ w) (i : Nat) : test (full w n) i = decide (i < n) := by
  rw [test_eq_getLsbD, full, BitVec.getLsbD_ofNat, Nat.testBit_two_pow_sub_one]
  by_cases hi : i < n
  · simp [hi, Nat.lt_of_lt_of_le hi hn]
  · simp [hi]

theorem toNat_full {n : Nat} (hn : n ≤ w) : (full w n).toNat = 2 ^ n - 1 := by
  have hle : 2 ^ n ≤ 2 ^ w := Nat.pow_le_pow_right (by decide) hn
  have hpos : 0 < 2 ^ n := Nat.two_pow_pos n
  rw [full, BitVec.toNat_ofNat, Nat.mod_eq_of_lt (by omega)]

theorem ext {m m' : BitVec w} (h : ∀ i, test m i = test m' i) : m = m' :=
  BitVec.eq_of_getLsbD_eq fun i _ => by
    simpa [test_eq_getLsbD] using h i

theorem sub_iff {m m' : BitVec w} : Sub m m' ↔ ∀ i, test m i = true → test m' i = true := by
  simp [Sub, test_eq_getLsbD]

theorem sub_full_iff {m : BitVec w} {n : Nat} (hn : n ≤ w) :
    Sub m (full w n) ↔ ∀ i, test m i = true → i < n := by
  rw [sub_iff]
  simp [test_full hn]

/-- A mask that stays below `n` is the full mask once every index below `n` is
    marked. -/
theorem eq_full_iff {m : BitVec w} {n : Nat} (hn : n ≤ w) (hsub : Sub m (full w n)) :
    m = full w n ↔ ∀ i < n, test m i = true := by
  constructor
  · rintro rfl i hi
    simp [test_full hn, hi]
  · intro h
    apply ext
    intro i
    rw [test_full hn]
    by_cases hi : i < n
    · simp [hi, h i hi]
    · cases hm : test m i with
      | false => simp [hi]
      | true => exact absurd ((sub_full_iff hn).mp hsub i hm) hi

theorem test_of_eq_full {m : BitVec w} {n i : Nat} (hn : n ≤ w) (h : m = full w n) (hi : i < n) :
    test m i = true := by
  simp [h, test_full hn, hi]

theorem sub_full_mark {m : BitVec w} {n i : Nat} (hn : n ≤ w) (h : Sub m (full w n))
    (hi : i < n) : Sub (mark m i) (full w n) := by
  rw [sub_full_iff hn] at h ⊢
  intro k hk
  rw [test_mark (Nat.lt_of_lt_of_le hi hn)] at hk
  rcases Bool.or_eq_true _ _ |>.mp hk with hk | hk
  · exact h k hk
  · simpa [of_decide_eq_true hk] using hi

theorem sub_full_zero {n : Nat} : Sub 0#w (full w n) := by
  intro i hi
  simp at hi

/-- `m & l == l` says that every index of `l` is one of `m`. -/
theorem and_eq_right_iff {m l : BitVec w} :
    m &&& l = l ↔ ∀ i, test l i = true → test m i = true := by
  constructor
  · intro h i hi
    rw [test_eq_getLsbD] at hi ⊢
    rw [← h, BitVec.getLsbD_and] at hi
    exact (Bool.and_eq_true _ _ |>.mp hi).1
  · intro h
    apply BitVec.eq_of_getLsbD_eq
    intro i _
    have hi := h i
    rw [test_eq_getLsbD, test_eq_getLsbD] at hi
    rw [BitVec.getLsbD_and]
    cases hl : l.getLsbD i with
    | false => simp
    | true => simp [hi hl]

/-! ## Counting -/

/-- The indices below `n` that are marked. -/
def marked (m : BitVec w) (n : Nat) : Finset Nat :=
  (Finset.range n).filter fun i => test m i = true

@[simp] theorem mem_marked {m : BitVec w} {n i : Nat} :
    i ∈ marked m n ↔ i < n ∧ test m i = true := by
  rw [marked, Finset.mem_filter, Finset.mem_range]

theorem marked_zero (n : Nat) : marked 0#w n = ∅ := by
  ext i
  simp

theorem card_marked_le (m : BitVec w) (n : Nat) : (marked m n).card ≤ n := by
  have hsub : (marked m n).card ≤ (Finset.range n).card :=
    Finset.card_le_card (Finset.filter_subset _ _)
  rwa [Finset.card_range] at hsub

/-- Marking an index that is not marked yet adds one. -/
theorem card_marked_mark {m : BitVec w} {n i : Nat} (hn : n ≤ w) (hi : i < n)
    (hclear : test m i = false) : (marked (mark m i) n).card = (marked m n).card + 1 := by
  have hnew : i ∉ marked m n := by
    rw [mem_marked, hclear]
    exact fun h => Bool.false_ne_true h.2
  have hinsert : marked (mark m i) n = insert i (marked m n) := by
    ext k
    rw [Finset.mem_insert, mem_marked, mem_marked, test_mark (Nat.lt_of_lt_of_le hi hn),
      Bool.or_eq_true, decide_eq_true_eq]
    constructor
    · rintro ⟨hk, htest | rfl⟩
      · exact .inr ⟨hk, htest⟩
      · exact .inl rfl
    · rintro (rfl | ⟨hk, htest⟩)
      · exact ⟨hi, .inr rfl⟩
      · exact ⟨hk, .inl htest⟩
  rw [hinsert, Finset.card_insert_of_notMem hnew]

/-- A mask that stays below `n` is full once `n` indices are marked. -/
theorem eq_full_iff_card {m : BitVec w} {n : Nat} (hn : n ≤ w) (hsub : Sub m (full w n)) :
    m = full w n ↔ (marked m n).card = n := by
  rw [eq_full_iff hn hsub]
  constructor
  · intro hall
    have hrange : marked m n = Finset.range n := by
      ext i
      rw [mem_marked, Finset.mem_range]
      exact ⟨And.left, fun hi => ⟨hi, hall i hi⟩⟩
    rw [hrange, Finset.card_range]
  · intro hcard i hi
    have hrange : marked m n = Finset.range n :=
      Finset.eq_of_subset_of_card_le (Finset.filter_subset _ _) (by rw [Finset.card_range, hcard])
    have hmem : i ∈ marked m n := by
      rw [hrange]
      exact Finset.mem_range.mpr hi
    exact (mem_marked.mp hmem).2

end Bitmask
