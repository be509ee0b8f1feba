-- SUMMARY: Paying fixed bequests and pro-rata shares out of one pot, in any order, funded or not.
import Mathlib.Algebra.BigOperators.Group.Finset.Piecewise
import Mathlib.Algebra.BigOperators.Ring.Finset
import Mathlib.Algebra.Order.BigOperators.Group.Finset
import Mathlib.Tactic.Ring

/-!
# A pot that pays bequests and shares

One balance serves two kinds of debts, each paid at most once: shares, indexed
below `n`, and bequests, indexed below `m`. `Covered` says that the balance
covers everything unpaid and a reserve; it survives every payment, whatever the
order. Where the balance does not cover the bequests, nothing is left for
shares, and `Drained` says what the bequests paid so far leave of it.
-/

namespace Pot

/-- What is still owed by the debts below `n`. -/
def unpaid (n : ℕ) (paid : ℕ → Bool) (f : ℕ → ℕ) : ℕ :=
  ∑ i ∈ Finset.range n, if paid i then 0 else f i

/-- What the paid debts below `n` came to. -/
def settled (n : ℕ) (paid : ℕ → Bool) (f : ℕ → ℕ) : ℕ :=
  ∑ i ∈ Finset.range n, if paid i then f i else 0

/-- Mark debt `i` as paid. -/
def marked (paid : ℕ → Bool) (i : ℕ) : ℕ → Bool :=
  fun k => paid k || decide (k = i)

variable {n m : ℕ} {paid : ℕ → Bool} {f : ℕ → ℕ}

private theorem sum_marked (g : ℕ → ℕ → ℕ) {i : ℕ} (hi : i < n) :
    (∑ k ∈ Finset.range n, if k = i then g k i else 0) = g i i := by
  rw [Finset.sum_ite_eq' (Finset.range n) i (fun k => g k i)]
  simp [hi]

theorem unpaid_mark {i : ℕ} (hi : i < n) (hp : paid i = false) :
    unpaid n paid f = f i + unpaid n (marked paid i) f := by
  have hsplit : ∀ k ∈ Finset.range n, (if paid k then 0 else f k) =
      (if k = i then f k else 0) + (if marked paid i k then 0 else f k) := by
    intro k _
    by_cases hk : k = i
    · subst hk; simp [marked, hp]
    · simp [marked, hk]
  rw [unpaid, Finset.sum_congr rfl hsplit, Finset.sum_add_distrib]
  rw [sum_marked (fun k _ => f k) hi, unpaid]

theorem settled_mark {i : ℕ} (hi : i < n) (hp : paid i = false) :
    settled n (marked paid i) f = settled n paid f + f i := by
  have hsplit : ∀ k ∈ Finset.range n, (if marked paid i k then f k else 0) =
      (if paid k then f k else 0) + (if k = i then f k else 0) := by
    intro k _
    by_cases hk : k = i
    · subst hk; simp [marked, hp]
    · simp [marked, hk]
  rw [settled, Finset.sum_congr rfl hsplit, Finset.sum_add_distrib]
  rw [sum_marked (fun k _ => f k) hi, settled]

theorem unpaid_all_clear (h : ∀ i < n, paid i = false) :
    unpaid n paid f = ∑ i ∈ Finset.range n, f i := by
  apply Finset.sum_congr rfl
  intro i hi
  simp [h i (Finset.mem_range.mp hi)]

theorem settled_all_clear (h : ∀ i < n, paid i = false) : settled n paid f = 0 := by
  apply Finset.sum_eq_zero
  intro i hi
  simp [h i (Finset.mem_range.mp hi)]

theorem unpaid_all_paid (h : ∀ i < n, paid i = true) : unpaid n paid f = 0 := by
  apply Finset.sum_eq_zero
  intro i hi
  simp [h i (Finset.mem_range.mp hi)]

theorem settled_all_paid (h : ∀ i < n, paid i = true) :
    settled n paid f = ∑ i ∈ Finset.range n, f i := by
  apply Finset.sum_congr rfl
  intro i hi
  simp [h i (Finset.mem_range.mp hi)]

theorem unpaid_zero (h : ∀ i < n, f i = 0) : unpaid n paid f = 0 := by
  apply Finset.sum_eq_zero
  intro i hi
  simp [h i (Finset.mem_range.mp hi)]

theorem unpaid_le : unpaid n paid f ≤ ∑ i ∈ Finset.range n, f i := by
  apply Finset.sum_le_sum
  intro i _
  split
  · exact Nat.zero_le _
  · exact le_rfl

theorem le_unpaid {i : ℕ} (hi : i < n) (hp : paid i = false) : f i ≤ unpaid n paid f := by
  rw [unpaid_mark hi hp]
  exact Nat.le_add_right _ _

/-- When the paid debts are those below `j`, they come to the sum of the first
    `j` debts. Debts of zero may be in either state. -/
theorem settled_prefix {j : ℕ} (hj : j ≤ n) (hlow : ∀ k < j, f k = 0 ∨ paid k = true)
    (hhigh : ∀ k, j ≤ k → k < n → f k = 0 ∨ paid k = false) :
    settled n paid f = ∑ k ∈ Finset.range j, f k := by
  have hpoint : ∀ k ∈ Finset.range n, (if paid k then f k else 0) = if k < j then f k else 0 := by
    intro k hk
    by_cases hkj : k < j
    · rcases hlow k hkj with h | h <;> simp [h, hkj]
    · rcases hhigh k (Nat.le_of_not_lt hkj) (Finset.mem_range.mp hk) with h | h <;> simp [h, hkj]
  rw [settled, Finset.sum_congr rfl hpoint, ← Finset.sum_filter]
  congr 1
  ext k
  simp only [Finset.mem_filter, Finset.mem_range]
  omega

/-! ## A covered pot -/

/-- The balance covers every unpaid share and bequest, and the reserve. -/
def Covered (n : ℕ) (share : ℕ → ℕ) (m : ℕ) (bequest : ℕ → ℕ) (paidShare paidBequest : ℕ → Bool)
    (reserve balance : ℕ) : Prop :=
  unpaid n paidShare share + unpaid m paidBequest bequest + reserve ≤ balance

namespace Covered

variable {share bequest : ℕ → ℕ} {paidShare paidBequest : ℕ → Bool} {reserve balance : ℕ}

theorem mono {balance' : ℕ} (h : Covered n share m bequest paidShare paidBequest reserve balance)
    (hb : balance ≤ balance') :
    Covered n share m bequest paidShare paidBequest reserve balance' :=
  le_trans h hb

theorem share_le (h : Covered n share m bequest paidShare paidBequest reserve balance) {i : ℕ}
    (hi : i < n) (hp : paidShare i = false) : share i ≤ balance := by
  have hle := le_unpaid (f := share) hi hp
  unfold Covered at h
  omega

theorem pay_share (h : Covered n share m bequest paidShare paidBequest reserve balance) {i : ℕ}
    (hi : i < n) (hp : paidShare i = false) :
    Covered n share m bequest (marked paidShare i) paidBequest reserve (balance - share i) := by
  unfold Covered at h ⊢
  rw [unpaid_mark hi hp] at h
  omega

/-- A covered pot pays a bequest in full. -/
theorem min_bequest (h : Covered n share m bequest paidShare paidBequest reserve balance) {j : ℕ}
    (hj : j < m) (hp : paidBequest j = false) : min (bequest j) balance = bequest j := by
  have hle := le_unpaid (f := bequest) hj hp
  unfold Covered at h
  omega

theorem pay_bequest (h : Covered n share m bequest paidShare paidBequest reserve balance) {j : ℕ}
    (hj : j < m) (hp : paidBequest j = false) :
    Covered n share m bequest paidShare (marked paidBequest j) reserve
      (balance - min (bequest j) balance) := by
  rw [h.min_bequest hj hp]
  unfold Covered at h ⊢
  rw [unpaid_mark hj hp] at h
  omega

/-- A bequest that is written off costs the pot nothing. -/
theorem forgive_bequest (h : Covered n share m bequest paidShare paidBequest reserve balance)
    {j : ℕ} (hj : j < m) (hp : paidBequest j = false) :
    Covered n share m bequest paidShare (marked paidBequest j) reserve balance := by
  unfold Covered at h ⊢
  rw [unpaid_mark hj hp] at h
  omega

/-- A covered pot pays its reserve in full. -/
theorem min_reserve (h : Covered n share m bequest paidShare paidBequest reserve balance) :
    min reserve balance = reserve := by
  unfold Covered at h
  omega

theorem pay_reserve (h : Covered n share m bequest paidShare paidBequest reserve balance) :
    Covered n share m bequest paidShare paidBequest 0 (balance - min reserve balance) := by
  unfold Covered at h ⊢
  omega

end Covered

/-! ## A pot that bequests drain -/

/-- The paid bequests, taken in full as far as it reached, are all that has left
    the pot of `total`. -/
def Drained (m : ℕ) (bequest : ℕ → ℕ) (paidBequest : ℕ → Bool) (total balance : ℕ) : Prop :=
  balance = total - settled m paidBequest bequest

theorem Drained.pay_bequest {bequest : ℕ → ℕ} {paidBequest : ℕ → Bool} {total balance j : ℕ}
    (h : Drained m bequest paidBequest total balance) (hj : j < m) (hp : paidBequest j = false) :
    Drained m bequest (marked paidBequest j) total (balance - min (bequest j) balance) := by
  unfold Drained at h ⊢
  rw [settled_mark hj hp]
  omega

/-! ## Either way -/

/-- A pot of `total` that could pay everything is covered; one that could not owes
    no shares, and its bequests drain it. -/
def Balanced (n : ℕ) (share : ℕ → ℕ) (m : ℕ) (bequest : ℕ → ℕ) (total : ℕ)
    (paidShare paidBequest : ℕ → Bool) (reserve balance : ℕ) : Prop :=
  (∑ j ∈ Finset.range m, bequest j + reserve ≤ total ∧
    Covered n share m bequest paidShare paidBequest reserve balance) ∨
  (total < ∑ j ∈ Finset.range m, bequest j + reserve ∧ (∀ i < n, share i = 0) ∧
    Drained m bequest paidBequest total balance)

namespace Balanced

variable {share bequest : ℕ → ℕ} {paidShare paidBequest : ℕ → Bool} {total reserve balance : ℕ}

/-- Whatever is left for the shares, rounding down never promises more. -/
theorem start {snapshot : ℕ} (hsnap : snapshot = total - ∑ j ∈ Finset.range m, bequest j - reserve)
    (hshare : ∑ i ∈ Finset.range n, share i ≤ snapshot) (hs : ∀ i < n, paidShare i = false)
    (hb : ∀ j < m, bequest j = 0 ∨ paidBequest j = false) :
    Balanced n share m bequest total paidShare paidBequest reserve total := by
  by_cases hfund : ∑ j ∈ Finset.range m, bequest j + reserve ≤ total
  · refine .inl ⟨hfund, ?_⟩
    have hle : unpaid m paidBequest bequest ≤ ∑ j ∈ Finset.range m, bequest j := unpaid_le
    unfold Covered
    rw [unpaid_all_clear hs]
    omega
  · refine .inr ⟨by omega, fun i hi => ?_, ?_⟩
    · have hone := Finset.single_le_sum (f := share) (fun _ _ => Nat.zero_le _)
        (Finset.mem_range.mpr hi)
      omega
    · have hnone : settled m paidBequest bequest = 0 := by
        apply Finset.sum_eq_zero
        intro j hj
        rcases hb j (Finset.mem_range.mp hj) with h | h
        · simp [h]
        · simp [h]
      unfold Drained
      omega

theorem share_le (h : Balanced n share m bequest total paidShare paidBequest reserve balance)
    {i : ℕ} (hi : i < n) (hp : paidShare i = false) : share i ≤ balance := by
  rcases h with ⟨-, hcov⟩ | ⟨-, hzero, -⟩
  · exact hcov.share_le hi hp
  · rw [hzero i hi]
    exact Nat.zero_le _

theorem pay_share (h : Balanced n share m bequest total paidShare paidBequest reserve balance)
    {i : ℕ} (hi : i < n) (hp : paidShare i = false) :
    Balanced n share m bequest total (marked paidShare i) paidBequest reserve
      (balance - share i) := by
  rcases h with ⟨hfund, hcov⟩ | ⟨hshort, hzero, hdrained⟩
  · exact .inl ⟨hfund, hcov.pay_share hi hp⟩
  · rw [hzero i hi]
    exact .inr ⟨hshort, hzero, hdrained⟩

theorem pay_bequest (h : Balanced n share m bequest total paidShare paidBequest reserve balance)
    {j : ℕ} (hj : j < m) (hp : paidBequest j = false) :
    Balanced n share m bequest total paidShare (marked paidBequest j) reserve
      (balance - min (bequest j) balance) := by
  rcases h with ⟨hfund, hcov⟩ | ⟨hshort, hzero, hdrained⟩
  · exact .inl ⟨hfund, hcov.pay_bequest hj hp⟩
  · exact .inr ⟨hshort, hzero, hdrained.pay_bequest hj hp⟩

/-- A deposit is welcome where the pot was covered anyway. -/
theorem deposit (h : Balanced n share m bequest total paidShare paidBequest reserve balance)
    {balance' : ℕ} (hle : balance ≤ balance')
    (hsame : ∑ j ∈ Finset.range m, bequest j + reserve ≤ total ∨ balance' = balance) :
    Balanced n share m bequest total paidShare paidBequest reserve balance' := by
  rcases h with ⟨hfund, hcov⟩ | ⟨hshort, hzero, hdrained⟩
  · exact .inl ⟨hfund, hcov.mono hle⟩
  · rcases hsame with hfund | rfl
    · omega
    · exact .inr ⟨hshort, hzero, hdrained⟩

/-- A bequest takes what the ones before it have left of the total. -/
theorem min_bequest (h : Balanced n share m bequest total paidShare paidBequest reserve balance)
    {j : ℕ} (hj : j < m) (hp : paidBequest j = false)
    (hlow : ∀ k < j, bequest k = 0 ∨ paidBequest k = true)
    (hhigh : ∀ k, j ≤ k → k < m → bequest k = 0 ∨ paidBequest k = false) :
    min (bequest j) balance = min (bequest j) (total - ∑ k ∈ Finset.range j, bequest k) := by
  rcases h with ⟨hfund, hcov⟩ | ⟨-, -, hdrained⟩
  · have hprefix : ∑ k ∈ Finset.range j, bequest k + bequest j ≤
        ∑ k ∈ Finset.range m, bequest k := by
      rw [← Finset.sum_range_succ]
      exact Finset.sum_le_sum_of_subset (Finset.range_mono hj)
    have hfull := hcov.min_bequest hj hp
    omega
  · rw [hdrained, settled_prefix hj.le hlow hhigh]

/-- The reserve takes what all bequests have left of the total. -/
theorem min_reserve (h : Balanced n share m bequest total paidShare paidBequest reserve balance)
    (hall : ∀ j < m, bequest j = 0 ∨ paidBequest j = true) :
    min reserve balance = min reserve (total - ∑ j ∈ Finset.range m, bequest j) := by
  rcases h with ⟨hfund, hcov⟩ | ⟨-, -, hdrained⟩
  · have hfull := hcov.min_reserve
    omega
  · rw [hdrained, settled_prefix le_rfl hall fun k hk hk' => absurd hk (by omega)]

end Balanced

/-! ## Pro-rata shares -/

/-- Rounding each share down never pays more than the whole. -/
theorem sum_share_le (snapshot d : ℕ) (weight : ℕ → ℕ) (hd : 0 < d)
    (h : ∑ i ∈ Finset.range n, weight i ≤ d) :
    ∑ i ∈ Finset.range n, snapshot * weight i / d ≤ snapshot := by
  have hmul : (∑ i ∈ Finset.range n, snapshot * weight i / d) * d ≤ snapshot * d := by
    calc (∑ i ∈ Finset.range n, snapshot * weight i / d) * d
        = ∑ i ∈ Finset.range n, snapshot * weight i / d * d := Finset.sum_mul _ _ _
      _ ≤ ∑ i ∈ Finset.range n, snapshot * weight i :=
          Finset.sum_le_sum fun i _ => Nat.div_mul_le_self _ _
      _ = snapshot * ∑ i ∈ Finset.range n, weight i := (Finset.mul_sum _ _ _).symm
      _ ≤ snapshot * d := Nat.mul_le_mul_left _ h
  exact Nat.le_of_mul_le_mul_right hmul hd

/-- Rounding each share down loses less than one unit a share. -/
theorem lt_sum_share_add (snapshot d : ℕ) (weight : ℕ → ℕ) (hn : 0 < n) (hd : 0 < d)
    (h : ∑ i ∈ Finset.range n, weight i = d) :
    snapshot < ∑ i ∈ Finset.range n, snapshot * weight i / d + n := by
  have hone : ∀ i ∈ Finset.range n, snapshot * weight i < (snapshot * weight i / d + 1) * d :=
    fun i _ => Nat.lt_mul_of_div_lt (Nat.lt_succ_self _) hd
  have hmul : snapshot * d < (∑ i ∈ Finset.range n, snapshot * weight i / d + n) * d := by
    calc snapshot * d
        = ∑ i ∈ Finset.range n, snapshot * weight i := by rw [← h, Finset.mul_sum]
      _ < ∑ i ∈ Finset.range n, (snapshot * weight i / d + 1) * d :=
          Finset.sum_lt_sum_of_nonempty (Finset.nonempty_range_iff.mpr hn.ne') hone
      _ = (∑ i ∈ Finset.range n, snapshot * weight i / d + n) * d := by
          rw [← Finset.sum_mul, Finset.sum_add_distrib]
          simp
  exact Nat.lt_of_mul_lt_mul_right hmul

end Pot
