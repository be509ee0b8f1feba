-- SUMMARY: What a plan bequeaths of one mint, and what the saturating sums and shares of the handlers come to.
import DeadMansVault.Library.Pot
import DeadMansVault.Program.Instructions.Begin
import DeadMansVault.Program.Instructions.Payout

/-!
# Bequests and shares

The handlers add bequests up with saturating sums and truncate shares to a
`u64`. Neither is felt: a saturated sum exceeds every balance, and a share never
exceeds its snapshot.
-/

namespace DeadMansVault

/-- What the assignments give away of `mint`. -/
def bequeathed (assignments : List AssetAssignment) (mint : Pubkey) : Nat :=
  ((assignments.filter (·.mint = mint)).map (·.amount)).sum

/-- What assignment `j` gives away of `mint`. -/
def bequest (assignments : List AssetAssignment) (mint : Pubkey) (j : Nat) : Nat :=
  match assignments[j]? with
  | some a => if a.mint = mint then a.amount else 0
  | none => 0

/-- The pro-rata share of beneficiary `i` in `snapshot`. -/
def share (beneficiaries : List Beneficiary) (snapshot i : Nat) : Nat :=
  match beneficiaries[i]? with
  | some b => snapshot * b.shareBps / 10000
  | none => 0

theorem share_zero (beneficiaries : List Beneficiary) (i : Nat) : share beneficiaries 0 i = 0 := by
  unfold share
  split
  · simp
  · rfl

theorem bequest_of_mem {assignments : List AssetAssignment} {mint : Pubkey} {j : Nat}
    {a : AssetAssignment} (ha : assignments[j]? = some a) (hm : a.mint = mint) :
    bequest assignments mint j = a.amount := by
  simp [bequest, ha, hm]

theorem bequest_of_ne {assignments : List AssetAssignment} {mint : Pubkey} {j : Nat}
    {a : AssetAssignment} (ha : assignments[j]? = some a) (hm : a.mint ≠ mint) :
    bequest assignments mint j = 0 := by
  simp [bequest, ha, hm]

@[simp] theorem bequeathed_nil (mint : Pubkey) : bequeathed [] mint = 0 := rfl

theorem bequeathed_cons (a : AssetAssignment) (rest : List AssetAssignment) (mint : Pubkey) :
    bequeathed (a :: rest) mint = (if a.mint = mint then a.amount else 0) + bequeathed rest mint := by
  by_cases h : a.mint = mint
  · simp [bequeathed, h]
  · simp [bequeathed, h]

/-- The first `j` assignments give away the sum of what each of them does. -/
theorem bequeathed_take (assignments : List AssetAssignment) (mint : Pubkey) (j : Nat) :
    bequeathed (assignments.take j) mint = ∑ k ∈ Finset.range j, bequest assignments mint k := by
  induction assignments generalizing j with
  | nil => simp [bequest]
  | cons a rest ih =>
      cases j with
      | zero => simp
      | succ j =>
          rw [List.take_succ_cons, bequeathed_cons, ih, Finset.sum_range_succ', add_comm]
          simp [bequest]

theorem bequeathed_eq_sum (assignments : List AssetAssignment) (mint : Pubkey) :
    bequeathed assignments mint =
      ∑ k ∈ Finset.range assignments.length, bequest assignments mint k := by
  rw [← bequeathed_take, List.take_length]

/-- A saturating sum over the assignments of one mint, from any start. -/
private theorem foldl_saturating (bound : Nat) (mint : Pubkey) (assignments : List AssetAssignment)
    (start : Nat) :
    assignments.foldl (fun sum a =>
      if a.mint = mint then saturatingAdd bound sum a.amount else sum) (min start bound) =
      min (start + bequeathed assignments mint) bound := by
  induction assignments generalizing start with
  | nil => simp
  | cons a rest ih =>
      rw [List.foldl_cons, bequeathed_cons]
      by_cases h : a.mint = mint
      · have hsat : saturatingAdd bound (min start bound) a.amount =
            min (start + a.amount) bound := by
          unfold saturatingAdd
          omega
        rw [if_pos h, if_pos h, hsat, ih]
        congr 1
        omega
      · rw [if_neg h, if_neg h, ih, Nat.zero_add]

theorem sumSpecificSol_eq (assignments : List AssetAssignment) :
    sumSpecificSol assignments = min (bequeathed assignments .default) (2 ^ 128 - 1) := by
  have h := foldl_saturating (2 ^ 128 - 1) .default assignments 0
  rw [Nat.zero_min, Nat.zero_add] at h
  exact h

theorem sumSpecific_eq (assignments : List AssetAssignment) (mint : Pubkey) :
    sumSpecific assignments mint = min (bequeathed assignments mint) u64Max := by
  have h := foldl_saturating u64Max mint assignments 0
  rw [Nat.zero_min, Nat.zero_add] at h
  exact h

theorem asU64_of_le {n : Nat} (h : n ≤ u64Max) : asU64 n = n := by
  unfold asU64
  unfold u64Max at h
  omega

/-- The `u128` product divided by 10000 fits a `u64` again. -/
theorem shareAmount_eq {snapshot shareBps : Nat} (hs : snapshot ≤ u64Max) (hb : shareBps ≤ 10000) :
    shareAmount snapshot shareBps = snapshot * shareBps / 10000 := by
  apply asU64_of_le
  calc snapshot * shareBps / 10000
      ≤ snapshot * 10000 / 10000 := Nat.div_le_div_right (Nat.mul_le_mul_left _ hb)
    _ = snapshot := Nat.mul_div_cancel _ (by omega)
    _ ≤ u64Max := hs

theorem shareBps_le {beneficiaries : List Beneficiary}
    (hsum : (beneficiaries.map (·.shareBps)).sum = 10000) {b : Beneficiary}
    (hb : b ∈ beneficiaries) : b.shareBps ≤ 10000 := by
  rw [← hsum]
  exact List.single_le_sum (by simp) _ (List.mem_map_of_mem hb)

theorem shareAmount_eq_share {beneficiaries : List Beneficiary} {snapshot i : Nat}
    {b : Beneficiary} (hsum : (beneficiaries.map (·.shareBps)).sum = 10000)
    (hs : snapshot ≤ u64Max) (hb : beneficiaries[i]? = some b) :
    shareAmount snapshot b.shareBps = share beneficiaries snapshot i := by
  rw [shareAmount_eq hs (shareBps_le hsum (List.mem_of_getElem? hb)), share, hb]

/-- The share of beneficiary `i`, in basis points. -/
private def weight (beneficiaries : List Beneficiary) (i : Nat) : Nat :=
  match beneficiaries[i]? with
  | some b => b.shareBps
  | none => 0

private theorem sum_weight (beneficiaries : List Beneficiary) :
    ∑ i ∈ Finset.range beneficiaries.length, weight beneficiaries i =
      (beneficiaries.map (·.shareBps)).sum := by
  induction beneficiaries with
  | nil => rfl
  | cons b rest ih =>
      rw [List.length_cons, Finset.sum_range_succ', List.map_cons, List.sum_cons, add_comm, ← ih]
      rfl

private theorem sum_share_eq (beneficiaries : List Beneficiary) (snapshot : Nat) :
    ∑ i ∈ Finset.range beneficiaries.length, share beneficiaries snapshot i =
      ∑ i ∈ Finset.range beneficiaries.length, snapshot * weight beneficiaries i / 10000 := by
  apply Finset.sum_congr rfl
  intro i _
  cases hb : beneficiaries[i]? with
  | none => simp [share, weight, hb]
  | some b => simp [share, weight, hb]

/-- All shares together never exceed the snapshot. -/
theorem sum_share_le {beneficiaries : List Beneficiary} (snapshot : Nat)
    (hsum : (beneficiaries.map (·.shareBps)).sum = 10000) :
    ∑ i ∈ Finset.range beneficiaries.length, share beneficiaries snapshot i ≤ snapshot := by
  rw [sum_share_eq]
  exact Pot.sum_share_le snapshot 10000 _ (by omega) (by rw [sum_weight, hsum])

/-- What rounding every share down leaves of a snapshot. -/
def roundingLoss (beneficiaries : List Beneficiary) (snapshot : Nat) : Nat :=
  snapshot - ∑ i ∈ Finset.range beneficiaries.length, share beneficiaries snapshot i

/-- It is less than one unit a beneficiary. -/
theorem roundingLoss_le {beneficiaries : List Beneficiary} (snapshot : Nat)
    (hne : beneficiaries ≠ []) (hsum : (beneficiaries.map (·.shareBps)).sum = 10000) :
    roundingLoss beneficiaries snapshot ≤ beneficiaries.length - 1 := by
  have hpos : 0 < beneficiaries.length := List.length_pos_iff.mpr hne
  have hlt := Pot.lt_sum_share_add snapshot 10000 (weight beneficiaries) hpos (by omega)
    (by rw [sum_weight, hsum])
  rw [roundingLoss, sum_share_eq]
  omega

end DeadMansVault
