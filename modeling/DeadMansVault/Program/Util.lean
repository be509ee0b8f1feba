-- SUMMARY: Deadline arithmetic, the ordering mask of an asset plan and the dust recipient.
import Mathlib.Algebra.Order.Group.Nat
import DeadMansVault.Library.Argmax
import DeadMansVault.Library.Guard
import DeadMansVault.Program.Errors
import DeadMansVault.Program.State

namespace DeadMansVault

/-- `i64::checked_add` -/
def checkedAddI64 (a b : Int) : Option Int :=
  if i64Min ≤ a + b ∧ a + b ≤ i64Max then some (a + b) else none

/-- `uN::saturating_add` for the type whose largest value is `bound`. -/
def saturatingAdd (bound a b : Nat) : Nat := min (a + b) bound

/-- `as u64` -/
def asU64 (n : Nat) : Nat := n % 2 ^ 64

/-- `last_heartbeat + heartbeat_interval + grace_period`, as a checked chain. -/
def deadline (lastHeartbeat heartbeatInterval gracePeriod : Int) : Except ProgramError Int :=
  okOr ((checkedAddI64 lastHeartbeat heartbeatInterval).bind (checkedAddI64 · gracePeriod))
    (.vault .graceNotElapsed)

def graceElapsed (now deadlineTs : Int) : Bool := decide (deadlineTs ≤ now)

/-- Mask of the assignments below `j` that share `mint`. -/
def lowerIndexSameMintMask (plan : AssetPlan) (mint : Pubkey) (j : Nat) : BitVec 64 :=
  (List.range j).foldl (fun m k =>
    if (plan.assignments[k]?).map (·.mint) = some mint then m ||| (1#64 <<< k) else m) 0#64

/-- Index of the largest-share beneficiary; ties resolve to the lowest index. -/
def largestShareIndex (beneficiaries : List Beneficiary) : Nat :=
  (beneficiaries.zipIdx.foldl (fun (best : Nat × Nat) bi =>
    if best.2 < bi.1.shareBps then (bi.2, bi.1.shareBps) else best) (0, 0)).1

/-- A checked deadline is the plain sum. -/
theorem deadline_eq_ok {l i g dl : Int} (h : deadline l i g = .ok dl) : dl = l + i + g := by
  simp only [deadline, okOr_eq_ok, Option.bind_eq_some_iff, checkedAddI64,
    Option.ite_none_right_eq_some, Option.some.injEq] at h
  obtain ⟨a, ⟨-, rfl⟩, -, rfl⟩ := h
  rfl

/-- The chain does not overflow when its durations are not negative and the sum
    is a timestamp. -/
theorem deadline_ok {l i g : Int} (hl : i64Min ≤ l) (hi : 0 ≤ i) (hg : 0 ≤ g)
    (h : l + i + g ≤ i64Max) : deadline l i g = .ok (l + i + g) := by
  have h1 : i64Min ≤ l + i ∧ l + i ≤ i64Max := by omega
  have h2 : i64Min ≤ l + i + g ∧ l + i + g ≤ i64Max := by omega
  simp [deadline, checkedAddI64, h1, h2]

/-- The scan ends at the lowest index whose share no other exceeds. -/
theorem largestShareIndex_firstMax {beneficiaries : List Beneficiary} (hne : beneficiaries ≠ []) :
    ∃ b, FirstMax (·.shareBps) beneficiaries (largestShareIndex beneficiaries) b :=
  scanMax_firstMax hne fun b _ => Nat.zero_le b.shareBps

/-- The largest-share beneficiary exists, and no share is larger. -/
theorem largestShareIndex_spec {beneficiaries : List Beneficiary} (hne : beneficiaries ≠ []) :
    ∃ b, beneficiaries[largestShareIndex beneficiaries]? = some b ∧
      ∀ b' ∈ beneficiaries, b'.shareBps ≤ b.shareBps := by
  obtain ⟨b, hfirst⟩ := largestShareIndex_firstMax hne
  exact ⟨b, hfirst.getElem?, hfirst.isMax⟩

theorem test_lowerIndexSameMintMask (plan : AssetPlan) (mint : Pubkey) {j : Nat} (hj : j ≤ 64)
    (k : Nat) : Bitmask.test (lowerIndexSameMintMask plan mint j) k =
      decide (k < j ∧ (plan.assignments[k]?).map (·.mint) = some mint) := by
  induction j with
  | zero => simp [lowerIndexSameMintMask]
  | succ j ih =>
      have ih := ih (by omega)
      have hstep : lowerIndexSameMintMask plan mint (j + 1) =
          if (plan.assignments[j]?).map (·.mint) = some mint
          then Bitmask.mark (lowerIndexSameMintMask plan mint j) j
          else lowerIndexSameMintMask plan mint j := by
        simp [lowerIndexSameMintMask, List.range_succ, Bitmask.mark]
      rw [hstep]
      by_cases hk : k = j
      · subst hk
        split
        · rename_i h
          simp [Bitmask.test_mark_self (show k < 64 by omega), h]
        · rename_i h
          simp [ih, h]
      · have hlt : k < j + 1 ↔ k < j := by omega
        split
        · simp [Bitmask.test_mark_of_ne hk, ih, hlt]
        · simp [ih, hlt]

end DeadMansVault
