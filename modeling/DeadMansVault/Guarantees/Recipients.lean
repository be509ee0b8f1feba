-- SUMMARY: The program, the cranks and the app take the same beneficiary for the largest one.
import DeadMansVault.Device.Claim
import DeadMansVault.Program.Instructions.Finish

/-!
# The recipient of the dust

What rounding leaves over goes to the largest-share beneficiary, whom the caller of a close
has to name. The program, the cranks and the app each look for them with a loop of their own;
each of these loops finds the first of the largest shares.
-/

namespace DeadMansVault

open Crank (Routine)

/-- The scan of the cranks starts below every share. -/
theorem Crank.largestShareIndex_firstMax {beneficiaries : List Beneficiary}
    (hne : beneficiaries ≠ []) :
    ∃ b, FirstMax (fun b : Beneficiary => (b.shareBps : Int)) beneficiaries
      (Crank.largestShareIndex beneficiaries) b :=
  scanMax_firstMax hne fun b _ => by omega

/-- Shares compare as numbers of either kind. -/
theorem firstMax_natCast_iff {beneficiaries : List Beneficiary} {i : Nat} {b : Beneficiary} :
    FirstMax (fun b : Beneficiary => (b.shareBps : Int)) beneficiaries i b ↔
      FirstMax (·.shareBps) beneficiaries i b := by
  constructor
  · rintro ⟨hget, hmax, hfirst⟩
    exact ⟨hget, fun y hy => Int.ofNat_le.mp (hmax y hy),
      fun k y hk hy => Int.ofNat_lt.mp (hfirst k y hk hy)⟩
  · rintro ⟨hget, hmax, hfirst⟩
    exact ⟨hget, fun y hy => Int.ofNat_le.mpr (hmax y hy),
      fun k y hk hy => Int.ofNat_lt.mpr (hfirst k y hk hy)⟩

theorem Crank.walletAt_eq {σ : Type} {beneficiaries : List Beneficiary} {i : Nat} {b : Beneficiary}
    (h : beneficiaries[i]? = some b) :
    Crank.walletAt beneficiaries i = (pure b.wallet : Routine σ Pubkey) := by
  rw [Crank.walletAt, h]

/-- The app's loop keeps the beneficiary, and not an index. -/
theorem Device.largestShareWallet_eq {σ : Type} {beneficiaries : List Beneficiary} {i : Nat}
    {b : Beneficiary} (h : FirstMax (·.shareBps) beneficiaries i b) :
    Device.largestShareWallet beneficiaries = (pure b.wallet : Routine σ Pubkey) := by
  cases beneficiaries with
  | nil => cases h.getElem?
  | cons first rest =>
      obtain ⟨j, hj⟩ := keepMax_head (fun b : Beneficiary => b.shareBps) first rest
      have hindex := h.unique hj
      have hkept : keepMax (fun b : Beneficiary => b.shareBps) first (first :: rest) = b := by
        have hget := hj.getElem?
        rw [← hindex, h.getElem?, Option.some.injEq] at hget
        exact hget.symm
      rw [Device.largestShareWallet, ← hkept]
      rfl

/-- **Dust recipients.** In every list of beneficiaries with a member, the index that the
    program takes for the largest share is the lowest one whose share is the maximum; the
    cranks and the app take the same beneficiary; and while there is dust, the closes demand
    exactly the wallet of that beneficiary. -/
theorem largest_share_agrees {beneficiaries : List Beneficiary} (hne : beneficiaries ≠ []) :
    ∃ i b, FirstMax (·.shareBps) beneficiaries i b ∧
      largestShareIndex beneficiaries = i ∧ Crank.largestShareIndex beneficiaries = i ∧
      (∀ σ, Crank.walletAt beneficiaries (Crank.largestShareIndex beneficiaries) =
        (pure b.wallet : Routine σ Pubkey)) ∧
      (∀ σ, Device.largestShareWallet beneficiaries = (pure b.wallet : Routine σ Pubkey)) ∧
      ∀ (c : Cluster) (vault : VaultConfig) (s : World), vault.beneficiaries = beneficiaries →
        (∀ (ctx : CloseTokenDist) (decimals : Nat) (ata : Pubkey × TokenAccount),
          0 < s.tokenAmounts ctx.vaultAta →
          sweepTokenDust c ctx vault decimals (some ata) s = do
            require (ata.2.owner = b.wallet ∧ ata.2.mint = ctx.mint) (.vault .tokenAccountMismatch)
            s.transferChecked c ctx.tokenProgram ctx.vaultAta ctx.mint ata.1 ctx.vaultConfig
              (s.tokenAmounts ctx.vaultAta) decimals .tokenDust) ∧
        (∀ vaultKey largestBenef : Pubkey,
          0 < s.lamports vaultKey - c.minimumBalance VaultConfig.space →
          sweepSolDust c vault vaultKey (some largestBenef) s = do
            require (largestBenef = b.wallet) (.vault .beneficiaryMismatch)
            s.payLamports vaultKey largestBenef
              (s.lamports vaultKey - c.minimumBalance VaultConfig.space) .solDust) := by
  obtain ⟨b, hprogram⟩ := largestShareIndex_firstMax hne
  obtain ⟨b', hcrank⟩ := Crank.largestShareIndex_firstMax hne
  have hindex : Crank.largestShareIndex beneficiaries = largestShareIndex beneficiaries :=
    (firstMax_natCast_iff.mp hcrank).unique hprogram
  refine ⟨_, b, hprogram, rfl, hindex, fun σ => ?_, fun σ => ?_, fun c vault s hvault => ?_⟩
  · rw [hindex]
    exact Crank.walletAt_eq hprogram.getElem?
  · exact Device.largestShareWallet_eq hprogram
  · have hlargest : vault.beneficiaries[largestShareIndex vault.beneficiaries]? = some b := by
      rw [hvault]
      exact hprogram.getElem?
    refine ⟨fun ctx decimals ata hdust => ?_, fun vaultKey largestBenef hdust => ?_⟩
    · simp only [sweepTokenDust, if_pos hdust, hlargest]
      rfl
    · simp only [sweepSolDust, if_pos hdust, hlargest]
      rfl

/-- Two beneficiaries tie, behind one with nothing: the first of the two is taken. -/
theorem largest_share_agrees_sample :
    let beneficiaries : List Beneficiary := [⟨.key 1, 0⟩, ⟨.key 2, 5_000⟩, ⟨.key 3, 5_000⟩]
    FirstMax (·.shareBps) beneficiaries 1 ⟨.key 2, 5_000⟩ ∧
      Crank.largestShareIndex beneficiaries = 1 ∧
      ∀ σ, Device.largestShareWallet beneficiaries = (pure (.key 2) : Routine σ Pubkey) := by
  intro beneficiaries
  obtain ⟨i, b, hfirst, hprogram, hcrank, -, happ, -⟩ :=
    largest_share_agrees (show beneficiaries ≠ [] from List.cons_ne_nil _ _)
  have hi : i = 1 := hprogram.symm.trans (by decide)
  subst hi
  have hb : b = ⟨.key 2, 5_000⟩ := (Option.some.inj hfirst.getElem?).symm
  subst hb
  exact ⟨hfirst, hcrank, happ⟩

end DeadMansVault
