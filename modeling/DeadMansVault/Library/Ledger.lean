-- SUMMARY: Balances of accounts, transfers between them, and the bound a fixed supply puts on them.
import Mathlib.Algebra.BigOperators.Group.Finset.Piecewise
import Mathlib.Algebra.Order.BigOperators.Group.Finset
import Mathlib.Tactic.Ring

/-!
# Ledgers

A ledger assigns a balance to every account. `Ledger.move` debits one account
and credits another, in that order, so that it is also right when the two are
the same. `Ledger.Bounded` says that no finite set of accounts holds more than
the supply; it is why crediting an account never overflows.
-/

namespace Ledger

variable {α : Type*} [DecidableEq α]

/-- Debit `a` by `n`, then credit `b` by `n`. -/
def move (l : α → ℕ) (a b : α) (n : ℕ) : α → ℕ :=
  Function.update (Function.update l a (l a - n)) b (Function.update l a (l a - n) b + n)

/-- What a transfer does to an account, with no case split on who it is. -/
theorem move_add (l : α → ℕ) (a b : α) {n : ℕ} (h : n ≤ l a) (k : α) :
    move l a b n k + (if k = a then n else 0) = l k + (if k = b then n else 0) := by
  unfold move
  by_cases hb : k = b
  · subst hb
    by_cases ha : k = a
    · subst ha; simp; omega
    · simp [ha]
  · by_cases ha : k = a
    · subst ha; simp [hb]; omega
    · simp [ha, hb]

@[simp] theorem move_zero (l : α → ℕ) (a b : α) : move l a b 0 = l := by
  simp [move]

theorem move_of_ne {l : α → ℕ} {a b k : α} {n : ℕ} (ha : k ≠ a) (hb : k ≠ b) :
    move l a b n k = l k := by
  simp [move, ha, hb]

/-- Only the source of a transfer can lose by it. -/
theorem le_move {l : α → ℕ} {a b k : α} {n : ℕ} (ha : k ≠ a) : l k ≤ move l a b n k := by
  unfold move
  by_cases hb : k = b
  · subst hb; simp [ha]
  · simp [ha, hb]

theorem move_source {l : α → ℕ} {a b : α} {n : ℕ} (h : a ≠ b) : move l a b n a = l a - n := by
  simp [move, h]

theorem move_dest {l : α → ℕ} {a b : α} {n : ℕ} (h : b ≠ a) : move l a b n b = l b + n := by
  simp [move, h]

theorem move_self {l : α → ℕ} {a : α} {n : ℕ} (h : n ≤ l a) : move l a a n = l := by
  funext k
  have := move_add l a a h k
  omega

theorem move_of_ne_source {l : α → ℕ} {a b k : α} {n : ℕ} (ha : k ≠ a) :
    move l a b n k = l k + if k = b then n else 0 := by
  unfold move
  by_cases hb : k = b
  · subst hb
    simp [ha]
  · simp [ha, hb]

/-- A transfer between accounts of a finite set keeps what they hold together. -/
theorem sum_move {l : α → ℕ} {a b : α} {n : ℕ} {F : Finset α} (ha : a ∈ F) (hb : b ∈ F)
    (hn : n ≤ l a) : ∑ k ∈ F, move l a b n k = ∑ k ∈ F, l k := by
  have hsum : ∑ k ∈ F, move l a b n k + ∑ k ∈ F, (if k = a then n else 0) =
      ∑ k ∈ F, l k + ∑ k ∈ F, (if k = b then n else 0) := by
    rw [← Finset.sum_add_distrib, ← Finset.sum_add_distrib]
    exact Finset.sum_congr rfl fun k _ => move_add l a b hn k
  rw [Finset.sum_ite_eq', Finset.sum_ite_eq', if_pos ha, if_pos hb] at hsum
  exact Nat.add_right_cancel hsum

/-- Move all that the listed accounts hold to `b`, one after the other. -/
def drainAll (l : α → ℕ) (b : α) : List α → α → ℕ
  | [] => l
  | a :: as => drainAll (move l a b (l a)) b as

theorem drainAll_apply {l : α → ℕ} {b : α} {as : List α} (hnodup : as.Nodup) (hb : b ∉ as)
    (k : α) : drainAll l b as k =
      if k ∈ as then 0 else l k + if k = b then (as.map l).sum else 0 := by
  induction as generalizing l with
  | nil => simp [drainAll]
  | cons a as ih =>
      obtain ⟨ha, hnodup⟩ := List.nodup_cons.mp hnodup
      obtain ⟨hba, hb⟩ := not_or.mp (mt List.mem_cons.mpr hb)
      -- The accounts still to be drained hold what they did.
      have hrest : as.map (move l a b (l a)) = as.map l := by
        refine List.map_congr_left fun x hx => move_of_ne ?_ ?_
        · rintro rfl
          exact ha hx
        · rintro rfl
          exact hb hx
      rw [drainAll, ih hnodup hb, hrest, List.map_cons, List.sum_cons]
      by_cases hka : k = a
      · subst hka
        rw [if_neg ha, if_neg (Ne.symm hba), if_pos List.mem_cons_self,
          move_source (Ne.symm hba), Nat.sub_self]
      · rw [move_of_ne_source hka]
        simp only [List.mem_cons, hka, false_or]
        split
        · rfl
        · split <;> omega

theorem sum_drainAll {l : α → ℕ} {b : α} {as : List α} {F : Finset α} (has : ∀ a ∈ as, a ∈ F)
    (hb : b ∈ F) : ∑ k ∈ F, drainAll l b as k = ∑ k ∈ F, l k := by
  induction as generalizing l with
  | nil => rfl
  | cons a as ih =>
      rw [drainAll, ih fun x hx => has x (List.mem_cons_of_mem _ hx)]
      exact sum_move (has a List.mem_cons_self) hb le_rfl

/-- No finite set of accounts holds more than `supply`. -/
def Bounded (l : α → ℕ) (supply : ℕ) : Prop :=
  ∀ F : Finset α, ∑ k ∈ F, l k ≤ supply

omit [DecidableEq α] in
theorem Bounded.le {l : α → ℕ} {supply : ℕ} (h : Bounded l supply) (k : α) : l k ≤ supply := by
  simpa using h {k}

/-- The credit of a transfer stays within the supply. -/
theorem Bounded.credit_le {l : α → ℕ} {supply : ℕ} (h : Bounded l supply) {a b : α} {n : ℕ}
    (hn : n ≤ l a) : Function.update l a (l a - n) b + n ≤ supply := by
  by_cases hab : b = a
  · subst hab
    have := h.le b
    simp; omega
  · have hpair := h {a, b}
    rw [Finset.sum_pair (Ne.symm hab)] at hpair
    simp [hab]; omega

theorem Bounded.move {l : α → ℕ} {supply : ℕ} (h : Bounded l supply) {a b : α} {n : ℕ}
    (hn : n ≤ l a) : Bounded (move l a b n) supply := by
  intro F
  have hsum : ∑ k ∈ F, Ledger.move l a b n k + ∑ k ∈ F, (if k = a then n else 0) =
      ∑ k ∈ F, l k + ∑ k ∈ F, (if k = b then n else 0) := by
    rw [← Finset.sum_add_distrib, ← Finset.sum_add_distrib]
    exact Finset.sum_congr rfl fun k _ => move_add l a b hn k
  rw [Finset.sum_ite_eq', Finset.sum_ite_eq'] at hsum
  by_cases haF : a ∈ F
  · have hF := h F
    simp only [haF, if_true] at hsum
    split at hsum <;> omega
  · -- The source lies outside the set: its balance pays for what the set gains.
    have hcons := h (Finset.cons a F haF)
    rw [Finset.sum_cons] at hcons
    simp only [haF, if_false] at hsum
    split at hsum <;> omega

omit [DecidableEq α] in
theorem Bounded.mono {l l' : α → ℕ} {supply : ℕ} (h : Bounded l supply) (hle : ∀ k, l' k ≤ l k) :
    Bounded l' supply :=
  fun F => (Finset.sum_le_sum fun k _ => hle k).trans (h F)

omit [DecidableEq α] in
theorem Bounded.weaken {l : α → ℕ} {supply supply' : ℕ} (h : Bounded l supply)
    (hle : supply ≤ supply') : Bounded l supply' :=
  fun F => (h F).trans hle

/-- The ledger with the listed balances, and zero elsewhere. -/
def ofList : List (α × ℕ) → α → ℕ
  | [], _ => 0
  | (a, n) :: rest, k => if k = a then n else ofList rest k

theorem ofList_of_notMem {entries : List (α × ℕ)} {k : α} (h : ∀ entry ∈ entries, entry.1 ≠ k) :
    ofList entries k = 0 := by
  induction entries with
  | nil => rfl
  | cons entry rest ih =>
      rw [ofList, if_neg (h entry (by simp)).symm]
      exact ih fun entry hentry => h entry (List.mem_cons_of_mem _ hentry)

/-- A listed ledger holds no more than its entries together. -/
theorem bounded_ofList (entries : List (α × ℕ)) :
    Bounded (ofList entries) (entries.map Prod.snd).sum := by
  induction entries with
  | nil => simp [Bounded, ofList]
  | cons entry rest ih =>
      obtain ⟨a, n⟩ := entry
      intro F
      have hle : ∀ k ∈ F, ofList ((a, n) :: rest) k ≤ (if k = a then n else 0) + ofList rest k := by
        intro k _
        rw [ofList]
        split <;> omega
      refine (Finset.sum_le_sum hle).trans ?_
      rw [Finset.sum_add_distrib, Finset.sum_ite_eq', List.map_cons, List.sum_cons]
      have hrest := ih F
      split <;> simp only <;> omega

end Ledger
