-- SUMMARY: Validating, setting, replacing and clearing the plan of specific bequests.
import DeadMansVault.Program.Gates

namespace DeadMansVault

open World

/-- Every bequeathed mint must be passed along and load as a mint. `s.mints`
    holds only accounts that a token program owns and that unpack as a mint. -/
def validatePlanMints (s : World) (assignments : List AssetAssignment)
    (remaining : List Pubkey) : Except ProgramError Unit :=
  require (∀ a ∈ assignments, a.mint = .default ∨
    a.mint ∈ remaining ∧ (s.mints a.mint).isSome = true) (.vault .invalidPlanMint)

/-- The range and SOL-sentinel checks of one assignment. -/
def validateAssignment (beneficiaryCount : Nat) (a : AssetAssignment) :
    Except ProgramError Unit := do
  require (a.beneficiaryIndex < beneficiaryCount) (.vault .invalidBeneficiaryIndex)
  require (a.mint = .default → a.isNft = false ∧ 0 < a.amount) (.vault .invalidSolBequest)

def validateAssignments (assignments : List AssetAssignment) (beneficiaryCount : Nat) :
    Except ProgramError Unit := do
  require (assignments.length ≤ maxAssignments) (.vault .tooManyAssignments)
  assignments.forM (validateAssignment beneficiaryCount)
  require (assignments.Pairwise fun prev a => a.isNft = true →
    ¬ (prev.isNft = true ∧ prev.mint = a.mint)) (.vault .duplicateNftAssignment)

/-- What the checks on a list of assignments accept. -/
def AssignmentsAccepted (beneficiaryCount : Nat) (assignments : List AssetAssignment) : Prop :=
  assignments.length ≤ maxAssignments ∧ ∀ a ∈ assignments, a.beneficiaryIndex < beneficiaryCount

theorem validateAssignments_ok {n : Nat} {assignments : List AssetAssignment} {u : Unit}
    (h : validateAssignments assignments n = .ok u) : AssignmentsAccepted n assignments := by
  simp only [validateAssignments, List.forM_eq_forM, Except.bind_eq_ok, require_eq_ok,
    exists_const] at h
  obtain ⟨hlen, _, hall, -⟩ := h
  refine ⟨hlen, ?_⟩
  clear hlen
  induction assignments with
  | nil => simp
  | cons a rest ih =>
      simp only [List.forM_cons, validateAssignment, Except.bind_eq_ok, require_eq_ok,
        exists_const] at hall
      obtain ⟨⟨ha, -⟩, hrest⟩ := hall
      simpa [ha] using ih hrest

structure SetAssetPlan where
  owner : Pubkey
  vaultConfig : Pubkey
  heartbeatRecord : Pubkey
  assetPlan : Pubkey
  remainingAccounts : List Pubkey

def setAssetPlan (c : Cluster) (ctx : SetAssetPlan) (assignments : List AssetAssignment)
    (s : World) : Except ProgramError World := do
  requireSigner ctx.owner
  let vault ← s.loadVaultConfig ctx.vaultConfig
  let heartbeat ← s.loadHeartbeatRecord ctx.heartbeatRecord
  requireSeeds ctx.assetPlan (.assetPlan ctx.vaultConfig)
  require (s.assetPlans ctx.assetPlan = none) (.anchor .accountAlreadyInUse)
  let s ← s.fundRent c ctx.owner ctx.assetPlan AssetPlan.space
  requireSeeds ctx.vaultConfig (.vault ctx.owner)
  require (vault.owner = ctx.owner) (.vault .unauthorizedOwner)
  require (vault.active = true) (.vault .vaultInactive)
  require (vault.executed = false) (.vault .vaultAlreadyExecuted)
  requireSeeds ctx.heartbeatRecord (.heartbeat ctx.vaultConfig)
  require (heartbeat.vault = ctx.vaultConfig) (.vault .heartbeatVaultMismatch)
  let dl ← deadline heartbeat.lastHeartbeat vault.heartbeatInterval vault.gracePeriod
  require (s.now < dl) (.vault .assetPlanImmutable)
  validateAssignments assignments vault.beneficiaries.length
  validatePlanMints s assignments ctx.remainingAccounts
  let s := s.putAssetPlan ctx.assetPlan (some {
    vault := ctx.vaultConfig
    assignments := assignments
    paidMask := 0 })
  pure (s.putVaultConfig ctx.vaultConfig (some { vault with hasAssetPlan := true }))

theorem setAssetPlan_ok {c : Cluster} {ctx : SetAssetPlan} {assignments : List AssetAssignment}
    {s s' : World} (h : setAssetPlan c ctx assignments s = .ok s') :
    ∃ vault heartbeat n, ctx.owner.canSign = true ∧ ctx.vaultConfig = .vault ctx.owner ∧
      Unfrozen s ctx.vaultConfig vault heartbeat ∧ vault.owner = ctx.owner ∧
      vault.active = true ∧ vault.executed = false ∧
      s.assetPlans (.assetPlan ctx.vaultConfig) = none ∧ n ≤ s.lamports ctx.owner ∧
      AssignmentsAccepted vault.beneficiaries.length assignments ∧
      s' = ((s.sendLamports ctx.owner (.assetPlan ctx.vaultConfig) n .rent).putAssetPlan
        (.assetPlan ctx.vaultConfig) (some ⟨ctx.vaultConfig, assignments, 0⟩)).putVaultConfig
        ctx.vaultConfig (some { vault with hasAssetPlan := true }) := by
  simp only [setAssetPlan, Except.bind_eq_ok, require_eq_ok, requireSigner_eq_ok,
    requireSeeds_eq_ok, loadVaultConfig_eq_ok, loadHeartbeatRecord_eq_ok, Except.pure_eq_ok,
    exists_const] at h
  obtain ⟨hsign, vault, hv, heartbeat, hh, hplan, hnone, s₁, hfund, hseeds, howner, hactive, hexec,
    hheart, hpin, dl, hdl, hnow, _, hvalid, _, -, rfl⟩ := h
  rw [deadline_eq_ok hdl] at hnow
  rw [hheart] at hh
  rw [hplan] at hnone hfund ⊢
  obtain ⟨n, hn, -, rfl⟩ := fundRent_ok hfund
  exact ⟨vault, heartbeat, n, hsign, hseeds, ⟨hv, hh, hpin, hnow⟩, howner, hactive, hexec, hnone,
    hn, validateAssignments_ok hvalid, rfl⟩

structure UpdateAssetPlan where
  owner : Pubkey
  vaultConfig : Pubkey
  heartbeatRecord : Pubkey
  assetPlan : Pubkey
  remainingAccounts : List Pubkey

def updateAssetPlan (ctx : UpdateAssetPlan) (assignments : List AssetAssignment) (s : World) :
    Except ProgramError World := do
  requireSigner ctx.owner
  let vault ← s.loadVaultConfig ctx.vaultConfig
  let heartbeat ← s.loadHeartbeatRecord ctx.heartbeatRecord
  let plan ← s.loadAssetPlan ctx.assetPlan
  requireSeeds ctx.vaultConfig (.vault ctx.owner)
  require (vault.owner = ctx.owner) (.vault .unauthorizedOwner)
  require (vault.active = true) (.vault .vaultInactive)
  require (vault.executed = false) (.vault .vaultAlreadyExecuted)
  require (vault.hasAssetPlan = true) (.vault .assetPlanRequired)
  requireSeeds ctx.heartbeatRecord (.heartbeat ctx.vaultConfig)
  require (heartbeat.vault = ctx.vaultConfig) (.vault .heartbeatVaultMismatch)
  requireSeeds ctx.assetPlan (.assetPlan ctx.vaultConfig)
  require (plan.vault = ctx.vaultConfig) (.vault .assetPlanRequired)
  let dl ← deadline heartbeat.lastHeartbeat vault.heartbeatInterval vault.gracePeriod
  require (s.now < dl) (.vault .assetPlanImmutable)
  validateAssignments assignments vault.beneficiaries.length
  validatePlanMints s assignments ctx.remainingAccounts
  pure (s.putAssetPlan ctx.assetPlan (some { plan with assignments := assignments, paidMask := 0 }))

theorem updateAssetPlan_ok {ctx : UpdateAssetPlan} {assignments : List AssetAssignment}
    {s s' : World} (h : updateAssetPlan ctx assignments s = .ok s') :
    ∃ vault heartbeat, ctx.owner.canSign = true ∧ ctx.vaultConfig = .vault ctx.owner ∧
      Unfrozen s ctx.vaultConfig vault heartbeat ∧ vault.owner = ctx.owner ∧
      vault.active = true ∧ vault.executed = false ∧ vault.hasAssetPlan = true ∧
      AssignmentsAccepted vault.beneficiaries.length assignments ∧
      s' = s.putAssetPlan (.assetPlan ctx.vaultConfig)
        (some ⟨ctx.vaultConfig, assignments, 0⟩) := by
  simp only [updateAssetPlan, Except.bind_eq_ok, require_eq_ok, requireSigner_eq_ok,
    requireSeeds_eq_ok, loadVaultConfig_eq_ok, loadHeartbeatRecord_eq_ok, loadAssetPlan_eq_ok,
    Except.pure_eq_ok, exists_const] at h
  obtain ⟨hsign, vault, hv, heartbeat, hh, plan, hp, hseeds, howner, hactive, hexec, hhas, hheart,
    hpin, hplan, hplanVault, dl, hdl, hnow, _, hvalid, _, -, rfl⟩ := h
  rw [deadline_eq_ok hdl] at hnow
  rw [hheart] at hh
  rw [hplan, hplanVault]
  exact ⟨vault, heartbeat, hsign, hseeds, ⟨hv, hh, hpin, hnow⟩, howner, hactive, hexec, hhas,
    validateAssignments_ok hvalid, rfl⟩

structure ClearAssetPlan where
  owner : Pubkey
  vaultConfig : Pubkey
  heartbeatRecord : Pubkey
  assetPlan : Pubkey

def clearAssetPlan (ctx : ClearAssetPlan) (s : World) : Except ProgramError World := do
  requireSigner ctx.owner
  let vault ← s.loadVaultConfig ctx.vaultConfig
  let heartbeat ← s.loadHeartbeatRecord ctx.heartbeatRecord
  let plan ← s.loadAssetPlan ctx.assetPlan
  requireSeeds ctx.vaultConfig (.vault ctx.owner)
  require (vault.owner = ctx.owner) (.vault .unauthorizedOwner)
  require (vault.active = true) (.vault .vaultInactive)
  require (vault.executed = false) (.vault .vaultAlreadyExecuted)
  require (vault.hasAssetPlan = true) (.vault .assetPlanRequired)
  requireSeeds ctx.heartbeatRecord (.heartbeat ctx.vaultConfig)
  require (heartbeat.vault = ctx.vaultConfig) (.vault .heartbeatVaultMismatch)
  requireSeeds ctx.assetPlan (.assetPlan ctx.vaultConfig)
  require (plan.vault = ctx.vaultConfig) (.vault .assetPlanRequired)
  let dl ← deadline heartbeat.lastHeartbeat vault.heartbeatInterval vault.gracePeriod
  require (s.now < dl) (.vault .vaultFrozen)
  let s ← s.closeAssetPlan ctx.assetPlan ctx.owner
  pure (s.putVaultConfig ctx.vaultConfig (some { vault with hasAssetPlan := false }))

theorem clearAssetPlan_ok {ctx : ClearAssetPlan} {s s' : World}
    (h : clearAssetPlan ctx s = .ok s') :
    ∃ vault heartbeat, ctx.owner.canSign = true ∧ ctx.vaultConfig = .vault ctx.owner ∧
      Unfrozen s ctx.vaultConfig vault heartbeat ∧ vault.owner = ctx.owner ∧
      vault.active = true ∧ vault.executed = false ∧ vault.hasAssetPlan = true ∧
      s' = ((s.sendLamports (.assetPlan ctx.vaultConfig) ctx.owner
        (s.lamports (.assetPlan ctx.vaultConfig)) .refund).putAssetPlan
        (.assetPlan ctx.vaultConfig) none).putVaultConfig ctx.vaultConfig
        (some { vault with hasAssetPlan := false }) := by
  simp only [clearAssetPlan, Except.bind_eq_ok, require_eq_ok, requireSigner_eq_ok,
    requireSeeds_eq_ok, loadVaultConfig_eq_ok, loadHeartbeatRecord_eq_ok, loadAssetPlan_eq_ok,
    Except.pure_eq_ok, exists_const] at h
  obtain ⟨hsign, vault, hv, heartbeat, hh, plan, hp, hseeds, howner, hactive, hexec, hhas, hheart,
    hpin, hplan, -, dl, hdl, hnow, s₁, hclose, rfl⟩ := h
  rw [deadline_eq_ok hdl] at hnow
  rw [hheart] at hh
  rw [hplan] at hclose
  obtain ⟨-, rfl⟩ := closeAssetPlan_eq_ok.mp hclose
  exact ⟨vault, heartbeat, hsign, hseeds, ⟨hv, hh, hpin, hnow⟩, howner, hactive, hexec, hhas, rfl⟩

end DeadMansVault
