-- SUMMARY: Creating a vault, editing it, recording heartbeats and rotating the agent.
import DeadMansVault.Program.Gates

namespace DeadMansVault

open World

structure InitializeVault where
  owner : Pubkey
  vaultConfig : Pubkey
  heartbeatRecord : Pubkey
  feeRecipient : Pubkey

structure InitializeVaultParams where
  agentPubkey : Pubkey
  heartbeatInterval : Int
  gracePeriod : Int
  beneficiaries : List Beneficiary
  isMutable : Bool
  keeperBounty : Nat

def initializeVault (c : Cluster) (ctx : InitializeVault) (params : InitializeVaultParams)
    (s : World) : Except ProgramError World := do
  requireSigner ctx.owner
  requireSeeds ctx.vaultConfig (.vault ctx.owner)
  require (s.vaultConfigs ctx.vaultConfig = none) (.anchor .accountAlreadyInUse)
  let s ← s.fundRent c ctx.owner ctx.vaultConfig VaultConfig.space
  requireSeeds ctx.heartbeatRecord (.heartbeat ctx.vaultConfig)
  require (s.heartbeatRecords ctx.heartbeatRecord = none) (.anchor .accountAlreadyInUse)
  let s ← s.fundRent c ctx.owner ctx.heartbeatRecord HeartbeatRecord.space
  require (ctx.feeRecipient = feeWallet) (.vault .invalidFeeRecipient)
  require (minHeartbeatInterval c.devnet ≤ params.heartbeatInterval)
    (.vault .heartbeatIntervalTooShort)
  require (params.heartbeatInterval ≤ maxHeartbeatInterval) (.vault .heartbeatIntervalTooLong)
  require (minGracePeriod c.devnet ≤ params.gracePeriod) (.vault .gracePeriodTooShort)
  require (params.gracePeriod ≤ maxGracePeriod) (.vault .gracePeriodTooLong)
  require (params.beneficiaries ≠ [] ∧ params.beneficiaries.length ≤ maxBeneficiaries)
    (.vault .invalidBeneficiaryCount)
  require ((params.beneficiaries.map (·.shareBps)).sum = 10000) (.vault .invalidShareAllocation)
  require (∀ b ∈ params.beneficiaries, b.wallet ≠ ctx.owner) (.vault .ownerCannotBeBeneficiary)
  require (params.agentPubkey ≠ .default) (.vault .invalidAgentPubkey)
  require (params.agentPubkey ≠ ctx.owner) (.vault .agentCannotBeOwner)
  require (params.keeperBounty ≤ maxKeeperBountyLamports) (.vault .keeperBountyTooLarge)
  let s := s.putVaultConfig ctx.vaultConfig (some {
    owner := ctx.owner
    agentPubkey := params.agentPubkey
    heartbeatInterval := params.heartbeatInterval
    gracePeriod := params.gracePeriod
    beneficiaries := params.beneficiaries
    executed := false
    active := true
    createdAt := s.now
    updatedAt := s.now
    isMutable := params.isMutable
    hasAssetPlan := false
    openTokenDists := 0
    keeperBounty := params.keeperBounty })
  let s := s.putHeartbeatRecord ctx.heartbeatRecord (some {
    vault := ctx.vaultConfig
    lastHeartbeat := s.now
    lastMethod := .activeTap
    totalHeartbeats := 1 })
  s.systemTransfer ctx.owner ctx.feeRecipient vaultCreationFeeLamports .creationFee

theorem initializeVault_ok {c : Cluster} {ctx : InitializeVault} {params : InitializeVaultParams}
    {s s' : World} (h : initializeVault c ctx params s = .ok s') :
    ∃ vault heartbeat n n' fee, ctx.owner.canSign = true ∧ ctx.vaultConfig = .vault ctx.owner ∧
      s.vaultConfigs ctx.vaultConfig = none ∧
      s.heartbeatRecords (.heartbeat ctx.vaultConfig) = none ∧
      n ≤ s.lamports ctx.owner ∧
      c.minimumBalance VaultConfig.space ≤ s.lamports ctx.vaultConfig + n ∧
      n' ≤ (s.sendLamports ctx.owner ctx.vaultConfig n .rent).lamports ctx.owner ∧
      vault.Accepted c ∧ vault.owner = ctx.owner ∧ vault.executed = false ∧
      vault.active = true ∧ vault.hasAssetPlan = false ∧ vault.openTokenDists = 0 ∧
      vault.keeperBounty ≤ maxKeeperBountyLamports ∧
      heartbeat.vault = ctx.vaultConfig ∧ heartbeat.lastHeartbeat = s.now ∧
      fee ≤ ((s.sendLamports ctx.owner ctx.vaultConfig n .rent).sendLamports ctx.owner
        (.heartbeat ctx.vaultConfig) n' .rent).lamports ctx.owner ∧
      s' = ((((s.sendLamports ctx.owner ctx.vaultConfig n .rent).sendLamports ctx.owner
        (.heartbeat ctx.vaultConfig) n' .rent).putVaultConfig ctx.vaultConfig
        (some vault)).putHeartbeatRecord (.heartbeat ctx.vaultConfig)
        (some heartbeat)).sendLamports ctx.owner feeWallet fee .creationFee := by
  simp only [initializeVault, Except.bind_eq_ok, require_eq_ok, requireSigner_eq_ok,
    requireSeeds_eq_ok, exists_const] at h
  obtain ⟨hsign, hvault, hnone, s₁, hfund, hheart, hnone', s₂, hfund', hfee, hi, hi', hg, hg',
    hcount, hshares, howner, -, -, hbounty, h⟩ := h
  rw [hheart] at hnone' hfund'
  simp only [hheart, hfee] at h
  obtain ⟨n, hn, hrent, rfl⟩ := fundRent_ok hfund
  obtain ⟨n', hn', -, rfl⟩ := fundRent_ok hfund'
  obtain ⟨hpaid, -, rfl⟩ := transferLamports_eq_ok.mp h
  exact ⟨_, _, n, n', _, hsign, hvault, hnone, hnone', hn, hrent, hn',
    ⟨⟨hi, hi'⟩, ⟨hg, hg'⟩, hcount, hshares, howner⟩, rfl, rfl, rfl, rfl, rfl, hbounty, rfl, rfl,
    hpaid, rfl⟩

/-- The new config carries the bounty that was asked for. -/
theorem initializeVault_keeperBounty {c : Cluster} {ctx : InitializeVault}
    {params : InitializeVaultParams} {s s' : World} (h : initializeVault c ctx params s = .ok s') :
    ∃ vault, s'.vaultConfigs ctx.vaultConfig = some vault ∧
      vault.keeperBounty = params.keeperBounty := by
  simp only [initializeVault, Except.bind_eq_ok, require_eq_ok, requireSigner_eq_ok,
    requireSeeds_eq_ok, exists_const] at h
  obtain ⟨-, -, -, s₁, -, -, -, s₂, -, -, -, -, -, -, -, -, -, -, -, -, h⟩ := h
  obtain ⟨-, -, rfl⟩ := transferLamports_eq_ok.mp h
  exact ⟨_, Function.update_self .., rfl⟩

structure UpdateVault where
  owner : Pubkey
  vaultConfig : Pubkey
  heartbeatRecord : Pubkey

structure UpdateVaultParams where
  heartbeatInterval : Option Int
  gracePeriod : Option Int
  beneficiaries : Option (List Beneficiary)

/-- The optional new heartbeat interval of `update_vault`. -/
def updateInterval (c : Cluster) (vault : VaultConfig) :
    Option Int → Except ProgramError VaultConfig
  | none => pure vault
  | some interval => do
    require (minHeartbeatInterval c.devnet ≤ interval) (.vault .heartbeatIntervalTooShort)
    require (interval ≤ maxHeartbeatInterval) (.vault .heartbeatIntervalTooLong)
    pure { vault with heartbeatInterval := interval }

/-- The optional new grace period of `update_vault`. -/
def updateGrace (c : Cluster) (vault : VaultConfig) :
    Option Int → Except ProgramError VaultConfig
  | none => pure vault
  | some grace => do
    require (minGracePeriod c.devnet ≤ grace) (.vault .gracePeriodTooShort)
    require (grace ≤ maxGracePeriod) (.vault .gracePeriodTooLong)
    pure { vault with gracePeriod := grace }

/-- The optional new beneficiary list of `update_vault`. -/
def updateBeneficiaries (vault : VaultConfig) :
    Option (List Beneficiary) → Except ProgramError VaultConfig
  | none => pure vault
  | some beneficiaries => do
    require (vault.hasAssetPlan = false) (.vault .beneficiariesLockedByPlan)
    require (beneficiaries ≠ [] ∧ beneficiaries.length ≤ maxBeneficiaries)
      (.vault .invalidBeneficiaryCount)
    require ((beneficiaries.map (·.shareBps)).sum = 10000) (.vault .invalidShareAllocation)
    require (∀ b ∈ beneficiaries, b.wallet ≠ vault.owner) (.vault .ownerCannotBeBeneficiary)
    pure { vault with beneficiaries := beneficiaries }

def updateVault (c : Cluster) (ctx : UpdateVault) (params : UpdateVaultParams) (s : World) :
    Except ProgramError World := do
  requireSigner ctx.owner
  let vault ← s.loadVaultConfig ctx.vaultConfig
  let heartbeat ← s.loadHeartbeatRecord ctx.heartbeatRecord
  requireSeeds ctx.vaultConfig (.vault ctx.owner)
  require (vault.owner = ctx.owner) (.vault .unauthorizedOwner)
  require (vault.active = true) (.vault .vaultInactive)
  require (vault.executed = false) (.vault .vaultAlreadyExecuted)
  require (vault.isMutable = true) (.vault .vaultImmutable)
  requireSeeds ctx.heartbeatRecord (.heartbeat ctx.vaultConfig)
  require (heartbeat.vault = ctx.vaultConfig) (.vault .heartbeatVaultMismatch)
  let dl ← deadline heartbeat.lastHeartbeat vault.heartbeatInterval vault.gracePeriod
  require (s.now < dl) (.vault .vaultFrozen)
  let vault ← updateInterval c vault params.heartbeatInterval
  let vault ← updateGrace c vault params.gracePeriod
  let vault ← updateBeneficiaries vault params.beneficiaries
  pure (s.putVaultConfig ctx.vaultConfig (some { vault with updatedAt := s.now }))

theorem updateInterval_ok {c : Cluster} {vault vault' : VaultConfig} {interval : Option Int}
    (h : updateInterval c vault interval = .ok vault') :
    vault.Edited c vault' ∧ vault'.hasAssetPlan = vault.hasAssetPlan ∧
      vault'.beneficiaries = vault.beneficiaries := by
  cases interval with
  | none =>
      cases h
      exact ⟨.refl vault, rfl, rfl⟩
  | some interval =>
      simp only [updateInterval, Except.bind_eq_ok, require_eq_ok, exists_const,
        Except.pure_eq_ok] at h
      obtain ⟨hi, hi', rfl⟩ := h
      exact ⟨{ (.refl vault : vault.Edited c vault) with
        accepted := fun ha => { ha with intervalRange := ⟨hi, hi'⟩ } }, rfl, rfl⟩

theorem updateGrace_ok {c : Cluster} {vault vault' : VaultConfig} {grace : Option Int}
    (h : updateGrace c vault grace = .ok vault') :
    vault.Edited c vault' ∧ vault'.hasAssetPlan = vault.hasAssetPlan ∧
      vault'.beneficiaries = vault.beneficiaries := by
  cases grace with
  | none =>
      cases h
      exact ⟨.refl vault, rfl, rfl⟩
  | some grace =>
      simp only [updateGrace, Except.bind_eq_ok, require_eq_ok, exists_const,
        Except.pure_eq_ok] at h
      obtain ⟨hg, hg', rfl⟩ := h
      exact ⟨{ (.refl vault : vault.Edited c vault) with
        accepted := fun ha => { ha with graceRange := ⟨hg, hg'⟩ } }, rfl, rfl⟩

/-- A plan locks the list its assignments index. -/
theorem updateBeneficiaries_ok {c : Cluster} {vault vault' : VaultConfig}
    {beneficiaries : Option (List Beneficiary)}
    (h : updateBeneficiaries vault beneficiaries = .ok vault') :
    vault.Edited c vault' ∧ vault'.hasAssetPlan = vault.hasAssetPlan ∧
      (vault.hasAssetPlan = true → vault'.beneficiaries = vault.beneficiaries) := by
  cases beneficiaries with
  | none =>
      cases h
      exact ⟨.refl vault, rfl, fun _ => rfl⟩
  | some beneficiaries =>
      simp only [updateBeneficiaries, Except.bind_eq_ok, require_eq_ok, exists_const,
        Except.pure_eq_ok] at h
      obtain ⟨hlock, hcount, hshares, howner, rfl⟩ := h
      refine ⟨{ (.refl vault : vault.Edited c vault) with accepted := fun ha => ?_ }, rfl, ?_⟩
      · exact { ha with count := hcount, shares := hshares, notOwner := howner }
      · intro hplan
        rw [hlock] at hplan
        cases hplan

theorem updateVault_ok {c : Cluster} {ctx : UpdateVault} {params : UpdateVaultParams}
    {s s' : World} (h : updateVault c ctx params s = .ok s') :
    ∃ vault vault' heartbeat, ctx.owner.canSign = true ∧ ctx.vaultConfig = .vault ctx.owner ∧
      Unfrozen s ctx.vaultConfig vault heartbeat ∧ vault.owner = ctx.owner ∧
      vault.active = true ∧ vault.executed = false ∧ vault.isMutable = true ∧
      vault.Edited c vault' ∧ vault'.hasAssetPlan = vault.hasAssetPlan ∧
      (vault.hasAssetPlan = true → vault'.beneficiaries = vault.beneficiaries) ∧
      s' = s.putVaultConfig ctx.vaultConfig (some vault') := by
  simp only [updateVault, Except.bind_eq_ok, require_eq_ok, requireSigner_eq_ok,
    requireSeeds_eq_ok, loadVaultConfig_eq_ok, loadHeartbeatRecord_eq_ok, Except.pure_eq_ok,
    exists_const] at h
  obtain ⟨hsign, vault, hv, heartbeat, hh, hseeds, howner, hactive, hexec, hmut, hheart, hpin,
    dl, hdl, hnow, v₁, h₁, v₂, h₂, v₃, h₃, rfl⟩ := h
  obtain ⟨he₁, hp₁, hb₁⟩ := updateInterval_ok h₁
  obtain ⟨he₂, hp₂, hb₂⟩ := updateGrace_ok h₂
  obtain ⟨he₃, hp₃, hb₃⟩ := updateBeneficiaries_ok (c := c) h₃
  have hedit := (he₁.trans he₂).trans he₃
  rw [hheart] at hh
  refine ⟨vault, { v₃ with updatedAt := s.now }, heartbeat, hsign, hseeds, ⟨hv, hh, hpin, ?_⟩,
    howner, hactive, hexec, hmut, ⟨hedit.owner, hedit.executed, hedit.active, hedit.isMutable, hedit.openTokenDists,
      hedit.keeperBounty, fun ha => ?_⟩, ?_, ?_, rfl⟩
  · rw [deadline_eq_ok hdl] at hnow
    exact hnow
  · have hnew := hedit.accepted ha
    exact ⟨hnew.intervalRange, hnew.graceRange, hnew.count, hnew.shares, hnew.notOwner⟩
  · exact hp₃.trans (hp₂.trans hp₁)
  · intro hplan
    exact (hb₃ ((hp₂.trans hp₁).trans hplan)).trans (hb₂.trans hb₁)

theorem updateBeneficiaries_list {vault vault' : VaultConfig}
    {beneficiaries : Option (List Beneficiary)}
    (h : updateBeneficiaries vault beneficiaries = .ok vault') :
    vault'.beneficiaries = beneficiaries.getD vault.beneficiaries := by
  cases beneficiaries with
  | none =>
      cases h
      rfl
  | some beneficiaries =>
      simp only [updateBeneficiaries, Except.bind_eq_ok, require_eq_ok, exists_const,
        Except.pure_eq_ok] at h
      obtain ⟨-, -, -, -, rfl⟩ := h
      rfl

/-- The config keeps its beneficiaries, unless there are new ones. -/
theorem updateVault_beneficiaries {c : Cluster} {ctx : UpdateVault} {params : UpdateVaultParams}
    {s s' : World} (h : updateVault c ctx params s = .ok s') :
    ∃ vault vault', s.vaultConfigs ctx.vaultConfig = some vault ∧
      s'.vaultConfigs ctx.vaultConfig = some vault' ∧
      vault'.beneficiaries = params.beneficiaries.getD vault.beneficiaries := by
  simp only [updateVault, Except.bind_eq_ok, require_eq_ok, requireSigner_eq_ok,
    requireSeeds_eq_ok, loadVaultConfig_eq_ok, loadHeartbeatRecord_eq_ok, Except.pure_eq_ok,
    exists_const] at h
  obtain ⟨-, vault, hv, _, -, -, -, -, -, -, -, -, _, -, -, v₁, h₁, v₂, h₂, v₃, h₃, rfl⟩ := h
  have hsame : v₂.beneficiaries = vault.beneficiaries :=
    (updateGrace_ok h₂).2.2.trans (updateInterval_ok h₁).2.2
  have hlist : v₃.beneficiaries = params.beneficiaries.getD vault.beneficiaries := by
    rw [← hsame]
    exact updateBeneficiaries_list h₃
  exact ⟨vault, _, hv, Function.update_self .., hlist⟩

structure RecordHeartbeat where
  agent : Pubkey
  vaultConfig : Pubkey
  heartbeatRecord : Pubkey

def recordHeartbeat (ctx : RecordHeartbeat) (method : HeartbeatMethod) (s : World) :
    Except ProgramError World := do
  requireSigner ctx.agent
  let vault ← s.loadVaultConfig ctx.vaultConfig
  let heartbeat ← s.loadHeartbeatRecord ctx.heartbeatRecord
  requireSeeds ctx.vaultConfig (.vault vault.owner)
  require (vault.agentPubkey = ctx.agent) (.vault .unauthorizedAgent)
  require (vault.active = true) (.vault .vaultInactive)
  require (vault.executed = false) (.vault .vaultAlreadyExecuted)
  requireSeeds ctx.heartbeatRecord (.heartbeat ctx.vaultConfig)
  require (heartbeat.vault = ctx.vaultConfig) (.vault .heartbeatVaultMismatch)
  let dl ← deadline heartbeat.lastHeartbeat vault.heartbeatInterval vault.gracePeriod
  require (s.now < dl) (.vault .vaultFrozen)
  require (heartbeat.totalHeartbeats + 1 ≤ u64Max) (.vault .heartbeatIntervalTooShort)
  pure (s.putHeartbeatRecord ctx.heartbeatRecord (some { heartbeat with
    lastHeartbeat := s.now
    lastMethod := method
    totalHeartbeats := heartbeat.totalHeartbeats + 1 }))

theorem recordHeartbeat_ok {ctx : RecordHeartbeat} {method : HeartbeatMethod} {s s' : World}
    (h : recordHeartbeat ctx method s = .ok s') :
    ∃ vault heartbeat heartbeat', ctx.agent.canSign = true ∧
      Unfrozen s ctx.vaultConfig vault heartbeat ∧ ctx.vaultConfig = .vault vault.owner ∧
      vault.agentPubkey = ctx.agent ∧ vault.active = true ∧ vault.executed = false ∧
      heartbeat'.vault = ctx.vaultConfig ∧ heartbeat'.lastHeartbeat = s.now ∧
      s' = s.putHeartbeatRecord (.heartbeat ctx.vaultConfig) (some heartbeat') := by
  simp only [recordHeartbeat, Except.bind_eq_ok, require_eq_ok, requireSigner_eq_ok,
    requireSeeds_eq_ok, loadVaultConfig_eq_ok, loadHeartbeatRecord_eq_ok, Except.pure_eq_ok,
    exists_const] at h
  obtain ⟨hsign, vault, hv, heartbeat, hh, hseeds, hagent, hactive, hexec, hheart, hpin,
    dl, hdl, hnow, -, rfl⟩ := h
  rw [deadline_eq_ok hdl] at hnow
  rw [hheart] at hh ⊢
  exact ⟨vault, heartbeat, { heartbeat with
    lastHeartbeat := s.now
    lastMethod := method
    totalHeartbeats := heartbeat.totalHeartbeats + 1 }, hsign, ⟨hv, hh, hpin, hnow⟩, hseeds,
    hagent, hactive, hexec, hpin, rfl, rfl⟩

structure RotateAgent where
  owner : Pubkey
  vaultConfig : Pubkey
  heartbeatRecord : Pubkey

/-- The one handler whose vault is pinned by `has_one = owner` and not by seeds. -/
def rotateAgent (ctx : RotateAgent) (newAgentPubkey : Pubkey) (s : World) :
    Except ProgramError World := do
  requireSigner ctx.owner
  let vault ← s.loadVaultConfig ctx.vaultConfig
  let heartbeat ← s.loadHeartbeatRecord ctx.heartbeatRecord
  require (vault.owner = ctx.owner) (.vault .unauthorizedOwner)
  require (vault.active = true) (.vault .vaultInactive)
  require (vault.executed = false) (.vault .vaultAlreadyExecuted)
  requireSeeds ctx.heartbeatRecord (.heartbeat ctx.vaultConfig)
  require (heartbeat.vault = ctx.vaultConfig) (.vault .heartbeatVaultMismatch)
  let dl ← deadline heartbeat.lastHeartbeat vault.heartbeatInterval vault.gracePeriod
  require (s.now < dl) (.vault .vaultFrozen)
  require (newAgentPubkey ≠ .default) (.vault .invalidAgentPubkey)
  require (newAgentPubkey ≠ vault.owner) (.vault .agentCannotBeOwner)
  require (newAgentPubkey ≠ vault.agentPubkey) (.vault .agentKeyUnchanged)
  let s := s.putVaultConfig ctx.vaultConfig (some { vault with
    agentPubkey := newAgentPubkey
    updatedAt := s.now })
  pure (s.putHeartbeatRecord ctx.heartbeatRecord (some { heartbeat with lastHeartbeat := s.now }))

theorem rotateAgent_ok {c : Cluster} {ctx : RotateAgent} {newAgentPubkey : Pubkey} {s s' : World}
    (h : rotateAgent ctx newAgentPubkey s = .ok s') :
    ∃ vault vault' heartbeat heartbeat', ctx.owner.canSign = true ∧
      Unfrozen s ctx.vaultConfig vault heartbeat ∧ vault.owner = ctx.owner ∧
      vault.active = true ∧ vault.executed = false ∧
      vault.Edited c vault' ∧ vault'.hasAssetPlan = vault.hasAssetPlan ∧
      vault'.beneficiaries = vault.beneficiaries ∧
      heartbeat'.vault = ctx.vaultConfig ∧ heartbeat'.lastHeartbeat = s.now ∧
      s' = (s.putVaultConfig ctx.vaultConfig (some vault')).putHeartbeatRecord
        (.heartbeat ctx.vaultConfig) (some heartbeat') := by
  simp only [rotateAgent, Except.bind_eq_ok, require_eq_ok, requireSigner_eq_ok,
    requireSeeds_eq_ok, loadVaultConfig_eq_ok, loadHeartbeatRecord_eq_ok, Except.pure_eq_ok,
    exists_const] at h
  obtain ⟨hsign, vault, hv, heartbeat, hh, howner, hactive, hexec, hheart, hpin, dl, hdl, hnow,
    -, -, -, rfl⟩ := h
  rw [deadline_eq_ok hdl] at hnow
  rw [hheart] at hh ⊢
  exact ⟨vault, { vault with agentPubkey := newAgentPubkey, updatedAt := s.now }, heartbeat,
    { heartbeat with lastHeartbeat := s.now }, hsign, ⟨hv, hh, hpin, hnow⟩, howner, hactive, hexec,
    ⟨rfl, rfl, rfl, rfl, rfl, rfl, fun ha => ⟨ha.1, ha.2, ha.3, ha.4, ha.5⟩⟩, rfl, rfl, hpin,
    rfl, rfl⟩

end DeadMansVault
