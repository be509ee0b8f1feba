-- SUMMARY: The owner's withdrawals of tokens and SOL, and the two owner-signed closes of an unexecuted vault.
import DeadMansVault.Program.Gates

namespace DeadMansVault

open World

structure WithdrawFromVault where
  owner : Pubkey
  vaultConfig : Pubkey
  heartbeatRecord : Pubkey
  mint : Pubkey
  sourceTokenAccount : Pubkey
  destinationTokenAccount : Pubkey
  tokenProgram : TokenProgram

def withdrawFromVault (c : Cluster) (ctx : WithdrawFromVault) (amount : Nat) (s : World) :
    Except ProgramError World := do
  requireSigner ctx.owner
  let vault ← s.loadVaultConfig ctx.vaultConfig
  let heartbeat ← s.loadHeartbeatRecord ctx.heartbeatRecord
  let mint ← s.loadMint ctx.mint
  let source ← s.loadTokenAccount ctx.sourceTokenAccount
  let destination ← s.loadTokenAccount ctx.destinationTokenAccount
  requireSeeds ctx.vaultConfig (.vault ctx.owner)
  require (vault.owner = ctx.owner) (.vault .unauthorizedOwner)
  requireSeeds ctx.heartbeatRecord (.heartbeat ctx.vaultConfig)
  require (heartbeat.vault = ctx.vaultConfig) (.vault .heartbeatVaultMismatch)
  require (source.owner = ctx.vaultConfig) (.vault .unauthorizedOwner)
  require (source.mint = ctx.mint) (.vault .mintMismatch)
  require (destination.mint = ctx.mint) (.vault .mintMismatch)
  let dl ← deadline heartbeat.lastHeartbeat vault.heartbeatInterval vault.gracePeriod
  require (s.now < dl) (.vault .vaultFrozen)
  require (ctx.tokenProgram = c.tokenProgram ctx.mint) (.vault .tokenAccountMismatch)
  s.transferChecked c ctx.tokenProgram ctx.sourceTokenAccount ctx.mint
    ctx.destinationTokenAccount ctx.vaultConfig amount mint.decimals .withdrawal

theorem withdrawFromVault_ok {c : Cluster} {ctx : WithdrawFromVault} {amount : Nat}
    {s s' : World} (h : withdrawFromVault c ctx amount s = .ok s') :
    ∃ vault heartbeat recipient, ctx.owner.canSign = true ∧ ctx.vaultConfig = .vault ctx.owner ∧
      Unfrozen s ctx.vaultConfig vault heartbeat ∧ vault.owner = ctx.owner ∧
      s.tokenAccounts ctx.sourceTokenAccount =
        some ⟨some (c.tokenProgram ctx.mint), ctx.mint, ctx.vaultConfig⟩ ∧
      s.tokenAccounts ctx.destinationTokenAccount =
        some ⟨some (c.tokenProgram ctx.mint), ctx.mint, recipient⟩ ∧
      amount ≤ s.tokenAmounts ctx.sourceTokenAccount ∧
      s' = s.sendTokens ctx.sourceTokenAccount ctx.mint ctx.destinationTokenAccount recipient
        amount .withdrawal := by
  simp only [withdrawFromVault, Except.bind_eq_ok, require_eq_ok, requireSigner_eq_ok,
    requireSeeds_eq_ok, loadVaultConfig_eq_ok, loadHeartbeatRecord_eq_ok, loadMint_eq_ok,
    loadTokenAccount_eq_ok, exists_const] at h
  obtain ⟨hsign, vault, hv, heartbeat, hh, mint, -, source, -, dest, -, hseeds, howner, hheart, hpin,
    -, -, -, dl, hdl, hnow, -, h⟩ := h
  rw [deadline_eq_ok hdl] at hnow
  rw [hheart] at hh
  obtain ⟨recipient, hs, hd, hn, rfl⟩ := transferChecked_ok h
  exact ⟨vault, heartbeat, recipient, hsign, hseeds, ⟨hv, hh, hpin, hnow⟩, howner, hs, hd, hn, rfl⟩

structure WithdrawSolFromVault where
  owner : Pubkey
  vaultConfig : Pubkey
  heartbeatRecord : Pubkey

def withdrawSolFromVault (c : Cluster) (ctx : WithdrawSolFromVault) (amount : Nat) (s : World) :
    Except ProgramError World := do
  requireSigner ctx.owner
  let vault ← s.loadVaultConfig ctx.vaultConfig
  let heartbeat ← s.loadHeartbeatRecord ctx.heartbeatRecord
  requireSeeds ctx.vaultConfig (.vault ctx.owner)
  require (vault.owner = ctx.owner) (.vault .unauthorizedOwner)
  requireSeeds ctx.heartbeatRecord (.heartbeat ctx.vaultConfig)
  require (heartbeat.vault = ctx.vaultConfig) (.vault .heartbeatVaultMismatch)
  require (0 < amount) (.vault .insufficientVaultBalance)
  let dl ← deadline heartbeat.lastHeartbeat vault.heartbeatInterval vault.gracePeriod
  require (s.now < dl) (.vault .vaultFrozen)
  let minBalance := c.minimumBalance VaultConfig.space
  require (minBalance ≤ s.lamports ctx.vaultConfig) (.vault .insufficientVaultBalance)
  require (amount ≤ s.lamports ctx.vaultConfig - minBalance) (.vault .insufficientVaultBalance)
  s.payLamports ctx.vaultConfig ctx.owner amount .withdrawal

theorem withdrawSolFromVault_ok {c : Cluster} {ctx : WithdrawSolFromVault} {amount : Nat}
    {s s' : World} (h : withdrawSolFromVault c ctx amount s = .ok s') :
    ∃ vault heartbeat, ctx.owner.canSign = true ∧ ctx.vaultConfig = .vault ctx.owner ∧
      Unfrozen s ctx.vaultConfig vault heartbeat ∧ vault.owner = ctx.owner ∧
      c.minimumBalance VaultConfig.space + amount ≤ s.lamports ctx.vaultConfig ∧
      s' = s.sendLamports ctx.vaultConfig ctx.owner amount .withdrawal := by
  simp only [withdrawSolFromVault, Except.bind_eq_ok, require_eq_ok, requireSigner_eq_ok,
    requireSeeds_eq_ok, loadVaultConfig_eq_ok, loadHeartbeatRecord_eq_ok, exists_const] at h
  obtain ⟨hsign, vault, hv, heartbeat, hh, hseeds, howner, hheart, hpin, -, dl, hdl, hnow, hmin, hfit,
    h⟩ := h
  rw [deadline_eq_ok hdl] at hnow
  rw [hheart] at hh
  obtain ⟨-, -, rfl⟩ := payLamports_eq_ok.mp h
  exact ⟨vault, heartbeat, hsign, hseeds, ⟨hv, hh, hpin, hnow⟩, howner, by omega, rfl⟩

structure RevokeVault where
  owner : Pubkey
  vaultConfig : Pubkey
  heartbeatRecord : Pubkey
  assetPlan : Option Pubkey

/-- The plan a close must take along: required and pinned when the vault has one. -/
def closeRegisteredPlan (s : World) (vault : VaultConfig) (plan : Option AssetPlan)
    (vaultKey dest : Pubkey) : Except ProgramError World :=
  if vault.hasAssetPlan then do
    let plan ← okOr plan (.vault .assetPlanRequired)
    require (plan.vault = vaultKey) (.vault .assetPlanRequired)
    s.closeAssetPlan (.assetPlan vaultKey) dest
  else pure s

theorem closeRegisteredPlan_ok {s s' : World} {vault : VaultConfig} {plan : Option AssetPlan}
    {vaultKey dest : Pubkey} (h : closeRegisteredPlan s vault plan vaultKey dest = .ok s') :
    s' = s.closePlan vault vaultKey dest := by
  unfold closeRegisteredPlan at h
  unfold World.closePlan
  split at h
  · rename_i hhas
    simp only [Except.bind_eq_ok, okOr_eq_ok, require_eq_ok, exists_const] at h
    obtain ⟨_, -, -, hclose⟩ := h
    rw [if_pos hhas]
    exact (closeAssetPlan_eq_ok.mp hclose).2
  · rename_i hhas
    rw [if_neg hhas]
    cases h
    rfl

def revokeVault (ctx : RevokeVault) (s : World) : Except ProgramError World := do
  requireSigner ctx.owner
  let vault ← s.loadVaultConfig ctx.vaultConfig
  let heartbeat ← s.loadHeartbeatRecord ctx.heartbeatRecord
  let plan ← s.loadOptionalAssetPlan ctx.vaultConfig ctx.assetPlan
  requireSeeds ctx.vaultConfig (.vault ctx.owner)
  require (vault.owner = ctx.owner) (.vault .unauthorizedOwner)
  require (vault.active = true) (.vault .vaultInactive)
  require (vault.executed = false) (.vault .vaultAlreadyExecuted)
  require (vault.isMutable = true) (.vault .vaultImmutable)
  requireSeeds ctx.heartbeatRecord (.heartbeat ctx.vaultConfig)
  require (heartbeat.vault = ctx.vaultConfig) (.vault .heartbeatVaultMismatch)
  let dl ← deadline heartbeat.lastHeartbeat vault.heartbeatInterval vault.gracePeriod
  require (s.now < dl) (.vault .vaultFrozen)
  let s ← closeRegisteredPlan s vault plan ctx.vaultConfig ctx.owner
  let s ← s.refundLamports ctx.vaultConfig ctx.owner
  let s := s.putVaultConfig ctx.vaultConfig none
  let s ← s.refundLamports ctx.heartbeatRecord ctx.owner
  pure (s.putHeartbeatRecord ctx.heartbeatRecord none)

theorem revokeVault_ok {ctx : RevokeVault} {s s' : World} (h : revokeVault ctx s = .ok s') :
    ∃ vault heartbeat, ctx.owner.canSign = true ∧ ctx.vaultConfig = .vault ctx.owner ∧
      Unfrozen s ctx.vaultConfig vault heartbeat ∧ vault.owner = ctx.owner ∧
      vault.active = true ∧ vault.executed = false ∧ vault.isMutable = true ∧
      s' = (s.closePlan vault ctx.vaultConfig ctx.owner).closePair ctx.vaultConfig ctx.owner := by
  simp only [revokeVault, Except.bind_eq_ok, require_eq_ok, requireSigner_eq_ok,
    requireSeeds_eq_ok, loadVaultConfig_eq_ok, loadHeartbeatRecord_eq_ok, Except.pure_eq_ok,
    exists_const] at h
  obtain ⟨hsign, vault, hv, heartbeat, hh, plan, -, hseeds, howner, hactive, hexec, hmut, hheart,
    hpin, dl, hdl, hnow, s₁, hplan, s₂, hrefund, s₃, hrefund', rfl⟩ := h
  rw [deadline_eq_ok hdl] at hnow
  rw [hheart] at hh hrefund' ⊢
  obtain rfl := closeRegisteredPlan_ok hplan
  obtain ⟨-, rfl⟩ := refundLamports_eq_ok.mp hrefund
  obtain ⟨-, rfl⟩ := refundLamports_eq_ok.mp hrefund'
  exact ⟨vault, heartbeat, hsign, hseeds, ⟨hv, hh, hpin, hnow⟩, howner, hactive, hexec, hmut, rfl⟩

structure CloseRevokedVault where
  owner : Pubkey
  vaultConfig : Pubkey
  heartbeatRecord : Pubkey

def closeRevokedVault (ctx : CloseRevokedVault) (s : World) : Except ProgramError World := do
  requireSigner ctx.owner
  let vault ← s.loadVaultConfig ctx.vaultConfig
  let heartbeat ← s.loadHeartbeatRecord ctx.heartbeatRecord
  requireSeeds ctx.vaultConfig (.vault ctx.owner)
  require (vault.owner = ctx.owner) (.vault .unauthorizedOwner)
  require (vault.active = false) (.vault .vaultStillActive)
  require (vault.executed = false) (.vault .vaultAlreadyExecuted)
  requireSeeds ctx.heartbeatRecord (.heartbeat ctx.vaultConfig)
  require (heartbeat.vault = ctx.vaultConfig) (.vault .heartbeatVaultMismatch)
  let s ← s.refundLamports ctx.vaultConfig ctx.owner
  let s := s.putVaultConfig ctx.vaultConfig none
  let s ← s.refundLamports ctx.heartbeatRecord ctx.owner
  pure (s.putHeartbeatRecord ctx.heartbeatRecord none)

theorem closeRevokedVault_ok {ctx : CloseRevokedVault} {s s' : World}
    (h : closeRevokedVault ctx s = .ok s') :
    ∃ vault heartbeat, ctx.owner.canSign = true ∧ ctx.vaultConfig = .vault ctx.owner ∧
      s.vaultConfigs ctx.vaultConfig = some vault ∧
      s.heartbeatRecords (.heartbeat ctx.vaultConfig) = some heartbeat ∧
      vault.owner = ctx.owner ∧ vault.active = false ∧ vault.executed = false ∧
      s' = s.closePair ctx.vaultConfig ctx.owner := by
  simp only [closeRevokedVault, Except.bind_eq_ok, require_eq_ok, requireSigner_eq_ok,
    requireSeeds_eq_ok, loadVaultConfig_eq_ok, loadHeartbeatRecord_eq_ok, Except.pure_eq_ok,
    exists_const] at h
  obtain ⟨hsign, vault, hv, heartbeat, hh, hseeds, howner, hactive, hexec, hheart, -, s₁, hrefund,
    s₂, hrefund', rfl⟩ := h
  rw [hheart] at hh hrefund' ⊢
  obtain ⟨-, rfl⟩ := refundLamports_eq_ok.mp hrefund
  obtain ⟨-, rfl⟩ := refundLamports_eq_ok.mp hrefund'
  exact ⟨vault, heartbeat, hsign, hseeds, hv, hh, howner, hactive, hexec, rfl⟩

end DeadMansVault
