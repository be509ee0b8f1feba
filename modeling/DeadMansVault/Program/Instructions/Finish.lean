-- SUMMARY: Finalizing an execution, closing a mint's distribution, and the two closes of an executed vault.
import DeadMansVault.Program.Instructions.Withdraw

namespace DeadMansVault

open World

structure FinalizeExecution where
  payer : Pubkey
  vaultConfig : Pubkey
  executionLog : Pubkey
  assetPlan : Option Pubkey

/-- The plan check of `finalize_execution`: every specific bequest is paid. -/
def requirePlanPaid (vault : VaultConfig) (plan : Option AssetPlan) (vaultKey : Pubkey) :
    Except ProgramError Unit :=
  if vault.hasAssetPlan then do
    let plan ← okOr plan (.vault .assetPlanRequired)
    require (plan.vault = vaultKey) (.vault .assetPlanRequired)
    require (plan.paidMask = fullMaskU64 plan.assignments.length) (.vault .notAllSharesPaid)
  else pure ()

def finalizeExecution (c : Cluster) (ctx : FinalizeExecution) (s : World) :
    Except ProgramError World := do
  requireSigner ctx.payer
  let vault ← s.loadVaultConfig ctx.vaultConfig
  let log ← s.loadExecutionLog ctx.executionLog
  let plan ← s.loadOptionalAssetPlan ctx.vaultConfig ctx.assetPlan
  requireSeeds ctx.vaultConfig (.vault vault.owner)
  require (vault.executed = false) (.vault .executionFinalized)
  requireSeeds ctx.executionLog (.execution ctx.vaultConfig)
  require (log.vault = ctx.vaultConfig) (.vault .heartbeatVaultMismatch)
  require (log.solPaidMask = fullMaskU32 vault.beneficiaries.length) (.vault .notAllSharesPaid)
  requirePlanPaid vault plan ctx.vaultConfig
  let s := s.putVaultConfig ctx.vaultConfig (some { vault with executed := true, active := false })
  let s := s.putExecutionLog ctx.executionLog (some { log with completed := true })
  let available := s.lamports ctx.vaultConfig - c.minimumBalance VaultConfig.space
  let amt := min vault.keeperBounty available
  s.payPositive ctx.vaultConfig ctx.payer amt .bounty

theorem requirePlanPaid_ok {s : World} {vault : VaultConfig} {vaultKey : Pubkey}
    {key : Option Pubkey} {plan : Option AssetPlan} {u : Unit}
    (hplan : s.loadOptionalAssetPlan vaultKey key = .ok plan)
    (h : requirePlanPaid vault plan vaultKey = .ok u) :
    vault.hasAssetPlan = true → ∃ p, s.assetPlans (.assetPlan vaultKey) = some p ∧
      p.paidMask = fullMaskU64 p.assignments.length := by
  intro hhas
  simp only [requirePlanPaid, hhas, if_true, Except.bind_eq_ok, okOr_eq_ok, require_eq_ok,
    exists_const] at h
  obtain ⟨p, rfl, -, hfull⟩ := h
  exact ⟨p, loadOptionalAssetPlan_some hplan, hfull⟩

theorem finalizeExecution_ok {c : Cluster} {ctx : FinalizeExecution} {s s' : World}
    (h : finalizeExecution c ctx s = .ok s') :
    ∃ vault log, ctx.payer.canSign = true ∧ Executing s ctx.vaultConfig vault log ∧
      vault.executed = false ∧ log.solPaidMask = fullMaskU32 vault.beneficiaries.length ∧
      (vault.hasAssetPlan = true → ∃ p, s.assetPlans (.assetPlan ctx.vaultConfig) = some p ∧
        p.paidMask = fullMaskU64 p.assignments.length) ∧
      s' = ((s.putVaultConfig ctx.vaultConfig (some { vault with
          executed := true, active := false })).putExecutionLog (.execution ctx.vaultConfig)
        (some { log with completed := true })).paySol ctx.vaultConfig ctx.payer
        (min vault.keeperBounty
          (s.lamports ctx.vaultConfig - c.minimumBalance VaultConfig.space)) .bounty := by
  simp only [finalizeExecution, Except.bind_eq_ok, require_eq_ok, requireSigner_eq_ok,
    requireSeeds_eq_ok, loadVaultConfig_eq_ok, loadExecutionLog_eq_ok, exists_const] at h
  obtain ⟨hsign, vault, hv, log, hl, plan, hplan, hseeds, hexec, hlog, -, hfull, _, hpaid, h⟩ := h
  rw [hlog] at hl h
  obtain ⟨-, rfl⟩ := payPositive_ok h
  exact ⟨vault, log, hsign, ⟨hv, hl, hseeds⟩, hexec, hfull, requirePlanPaid_ok hplan hpaid, rfl⟩

structure CloseTokenDist where
  payer : Pubkey
  owner : Pubkey
  vaultConfig : Pubkey
  mint : Pubkey
  vaultAta : Pubkey
  tokenDist : Pubkey
  largestBenefAta : Option Pubkey
  tokenProgram : TokenProgram

/-- `Option<InterfaceAccount<TokenAccount>>` -/
def loadOptionalTokenAccount (s : World) :
    Option Pubkey → Except ProgramError (Option (Pubkey × TokenAccount))
  | none => pure none
  | some k => do
    let account ← s.loadTokenAccount k
    pure (some (k, account))

/-- Sweep what is left of a mint to a token account of the largest-share beneficiary. -/
def sweepTokenDust (c : Cluster) (ctx : CloseTokenDist) (vault : VaultConfig) (decimals : Nat)
    (largestBenefAta : Option (Pubkey × TokenAccount)) (s : World) :
    Except ProgramError World := do
  let dust := s.tokenAmounts ctx.vaultAta
  if 0 < dust then do
    let maxIdx := largestShareIndex vault.beneficiaries
    let maxBenef ← okOr vault.beneficiaries[maxIdx]? .arithmeticOverflow
    let dustAta ← okOr largestBenefAta (.vault .tokenAccountMismatch)
    require (dustAta.2.owner = maxBenef.wallet ∧ dustAta.2.mint = ctx.mint)
      (.vault .tokenAccountMismatch)
    s.transferChecked c ctx.tokenProgram ctx.vaultAta ctx.mint dustAta.1 ctx.vaultConfig dust
      decimals .tokenDust
  else pure s

theorem loadOptionalTokenAccount_ok {s : World} {key : Option Pubkey}
    {loaded : Option (Pubkey × TokenAccount)} (h : loadOptionalTokenAccount s key = .ok loaded) :
    ∀ entry, loaded = some entry → s.tokenAccounts entry.1 = some entry.2 := by
  cases key with
  | none =>
      cases h
      simp
  | some k =>
      simp only [loadOptionalTokenAccount, Except.bind_eq_ok, loadTokenAccount_eq_ok,
        Except.pure_eq_ok] at h
      obtain ⟨account, ⟨hacc, -⟩, rfl⟩ := h
      rintro entry ⟨⟩
      exact hacc

theorem sweepTokenDust_ok {c : Cluster} {ctx : CloseTokenDist} {vault : VaultConfig}
    {decimals : Nat} {ata : Option (Pubkey × TokenAccount)} {s s' : World}
    (hata : ∀ entry, ata = some entry → s.tokenAccounts entry.1 = some entry.2)
    (h : sweepTokenDust c ctx vault decimals ata s = .ok s') :
    ∃ dest recipient,
      (0 < s.tokenAmounts ctx.vaultAta →
        (∃ benef, vault.beneficiaries[largestShareIndex vault.beneficiaries]? = some benef ∧
          recipient = benef.wallet) ∧
        s.tokenAccounts ctx.vaultAta =
          some ⟨some (c.tokenProgram ctx.mint), ctx.mint, ctx.vaultConfig⟩ ∧
        s.tokenAccounts dest = some ⟨some (c.tokenProgram ctx.mint), ctx.mint, recipient⟩) ∧
      s' = s.payTokens ctx.vaultAta ctx.mint dest recipient (s.tokenAmounts ctx.vaultAta)
        .tokenDust := by
  simp only [sweepTokenDust] at h
  split at h
  · rename_i hpos
    simp only [Except.bind_eq_ok, okOr_eq_ok, require_eq_ok, exists_const] at h
    obtain ⟨benef, hbenef, entry, hentry, ⟨howner, -⟩, h⟩ := h
    obtain ⟨recipient, hs, hd, -, rfl⟩ := transferChecked_ok h
    have hacc := hata entry hentry
    rw [hd, Option.some.injEq] at hacc
    refine ⟨entry.1, recipient, fun _ => ⟨⟨benef, hbenef, ?_⟩, hs, hd⟩, ?_⟩
    · rw [← howner, ← hacc]
    · rw [payTokens_eq, if_pos hpos]
  · rename_i hzero
    cases h
    refine ⟨ctx.vaultAta, ctx.vaultAta, fun hpos => absurd hpos hzero, ?_⟩
    rw [payTokens_eq, if_neg hzero]

def closeTokenDist (c : Cluster) (ctx : CloseTokenDist) (s : World) :
    Except ProgramError World := do
  requireSigner ctx.payer
  let vault ← s.loadVaultConfig ctx.vaultConfig
  let mint ← s.loadMint ctx.mint
  let vaultAta ← s.loadTokenAccount ctx.vaultAta
  let dist ← s.loadTokenDist ctx.tokenDist
  let largestBenefAta ← loadOptionalTokenAccount s ctx.largestBenefAta
  require (ctx.owner = vault.owner) (.vault .unauthorizedOwner)
  requireSeeds ctx.vaultConfig (.vault vault.owner)
  require (vault.executed = true) (.vault .vaultNotExecuted)
  require (vaultAta.owner = ctx.vaultConfig) (.vault .tokenAccountMismatch)
  require (vaultAta.mint = ctx.mint) (.vault .tokenAccountMismatch)
  requireSeeds ctx.tokenDist (.tokenDist ctx.vaultConfig ctx.mint)
  require (dist.vault = ctx.vaultConfig) (.vault .mintMismatch)
  require (dist.paidMask = fullMaskU32 vault.beneficiaries.length) (.vault .notAllSharesPaid)
  require (ctx.vaultAta = World.canonicalAta c ctx.vaultConfig ctx.mint) (.vault .invalidVaultAta)
  let s ← sweepTokenDust c ctx vault mint.decimals largestBenefAta s
  let s ← s.closeTokenAccount ctx.tokenProgram ctx.vaultAta ctx.owner ctx.vaultConfig
  let s := s.putVaultConfig ctx.vaultConfig (some { vault with
    openTokenDists := vault.openTokenDists - 1 })
  let s ← s.refundLamports ctx.tokenDist ctx.payer
  pure (s.putTokenDist ctx.tokenDist none)

theorem closeTokenDist_ok {c : Cluster} {ctx : CloseTokenDist} {s s' : World}
    (h : closeTokenDist c ctx s = .ok s') :
    ∃ vault dist dest recipient s₁ s₂, ctx.payer.canSign = true ∧
      s.vaultConfigs ctx.vaultConfig = some vault ∧ ctx.vaultConfig = .vault vault.owner ∧
      vault.executed = true ∧
      s.tokenDists (.tokenDist ctx.vaultConfig ctx.mint) = some dist ∧
      dist.paidMask = fullMaskU32 vault.beneficiaries.length ∧
      (0 < s.tokenAmounts (canonicalAta c ctx.vaultConfig ctx.mint) →
        (∃ benef, vault.beneficiaries[largestShareIndex vault.beneficiaries]? = some benef ∧
          recipient = benef.wallet) ∧
        s.tokenAccounts (canonicalAta c ctx.vaultConfig ctx.mint) =
          some ⟨some (c.tokenProgram ctx.mint), ctx.mint, ctx.vaultConfig⟩ ∧
        s.tokenAccounts dest = some ⟨some (c.tokenProgram ctx.mint), ctx.mint, recipient⟩) ∧
      s₁ = s.payTokens (canonicalAta c ctx.vaultConfig ctx.mint) ctx.mint dest recipient
        (s.tokenAmounts (canonicalAta c ctx.vaultConfig ctx.mint)) .tokenDust ∧
      (∃ program mint, s.tokenAccounts (canonicalAta c ctx.vaultConfig ctx.mint) =
        some ⟨some program, mint, ctx.vaultConfig⟩) ∧
      s₁.tokenAmounts (canonicalAta c ctx.vaultConfig ctx.mint) = 0 ∧
      s₂ = ((s₁.sendLamports (canonicalAta c ctx.vaultConfig ctx.mint) vault.owner
        (s₁.lamports (canonicalAta c ctx.vaultConfig ctx.mint)) .refund).dropTokenAccount
        (canonicalAta c ctx.vaultConfig ctx.mint)).putVaultConfig ctx.vaultConfig
        (some { vault with openTokenDists := vault.openTokenDists - 1 }) ∧
      s' = (s₂.sendLamports (.tokenDist ctx.vaultConfig ctx.mint) ctx.payer
        (s₂.lamports (.tokenDist ctx.vaultConfig ctx.mint)) .refund).putTokenDist
        (.tokenDist ctx.vaultConfig ctx.mint) none := by
  simp only [closeTokenDist, Except.bind_eq_ok, require_eq_ok, requireSigner_eq_ok,
    requireSeeds_eq_ok, loadVaultConfig_eq_ok, loadMint_eq_ok, loadTokenDist_eq_ok,
    Except.pure_eq_ok, exists_const] at h
  obtain ⟨hsign, vault, hv, mint, -, vaultAta, -, dist, hd, entry, hentry, howner, hseeds, hexec,
    -, -, hkey, -, hfull, hata, s₁, hsweep, s₂, hclose, s₃, hrefund, rfl⟩ := h
  rw [hata, howner] at hclose
  rw [hkey] at hd hrefund ⊢
  obtain ⟨dest, recipient, hdust, rfl⟩ := sweepTokenDust_ok (loadOptionalTokenAccount_ok hentry) hsweep
  rw [hata] at hdust hclose
  obtain ⟨mint', hacc, hzero, rfl⟩ := closeTokenAccount_ok hclose
  obtain ⟨-, rfl⟩ := refundLamports_eq_ok.mp hrefund
  exact ⟨vault, dist, dest, recipient, _, _, hsign, hv, hseeds, hexec, hd, hfull, hdust, rfl,
    ⟨_, mint', hacc⟩, hzero, rfl, rfl⟩

/-- Sweep the lamports above rent to the wallet of the largest-share beneficiary. -/
def sweepSolDust (c : Cluster) (vault : VaultConfig) (vaultKey : Pubkey)
    (largestBenef : Option Pubkey) (s : World) : Except ProgramError World := do
  let dust := s.lamports vaultKey - c.minimumBalance VaultConfig.space
  if 0 < dust then do
    let maxIdx := largestShareIndex vault.beneficiaries
    let maxBenef ← okOr vault.beneficiaries[maxIdx]? .arithmeticOverflow
    let benef ← okOr largestBenef (.vault .beneficiaryMismatch)
    require (benef = maxBenef.wallet) (.vault .beneficiaryMismatch)
    s.payLamports vaultKey benef dust .solDust
  else pure s

/-- What both closes of an executed vault do once their gates are passed: sweep
    the dust, take the plan along, and refund the three core accounts to `dest`. -/
def settleAndClose (c : Cluster) (vault : VaultConfig) (plan : Option AssetPlan)
    (vaultKey heartbeatKey logKey dest : Pubkey) (largestBenef : Option Pubkey) (s : World) :
    Except ProgramError World := do
  let s ← sweepSolDust c vault vaultKey largestBenef s
  let s ← closeRegisteredPlan s vault plan vaultKey dest
  let s ← s.refundLamports vaultKey dest
  let s := s.putVaultConfig vaultKey none
  let s ← s.refundLamports heartbeatKey dest
  let s := s.putHeartbeatRecord heartbeatKey none
  let s ← s.refundLamports logKey dest
  pure (s.putExecutionLog logKey none)

theorem sweepSolDust_ok {c : Cluster} {vault : VaultConfig} {vaultKey : Pubkey}
    {largestBenef : Option Pubkey} {s s' : World}
    (h : sweepSolDust c vault vaultKey largestBenef s = .ok s') :
    ∃ recipient,
      (0 < s.lamports vaultKey - c.minimumBalance VaultConfig.space →
        ∃ benef, vault.beneficiaries[largestShareIndex vault.beneficiaries]? = some benef ∧
          recipient = benef.wallet) ∧
      s' = s.paySol vaultKey recipient
        (s.lamports vaultKey - c.minimumBalance VaultConfig.space) .solDust := by
  simp only [sweepSolDust] at h
  split at h
  · rename_i hpos
    simp only [Except.bind_eq_ok, okOr_eq_ok, require_eq_ok, exists_const] at h
    obtain ⟨benef, hbenef, recipient, -, rfl, h⟩ := h
    obtain ⟨-, -, rfl⟩ := payLamports_eq_ok.mp h
    exact ⟨benef.wallet, fun _ => ⟨benef, hbenef, rfl⟩, by rw [paySol_eq, if_pos hpos]⟩
  · rename_i hzero
    cases h
    refine ⟨vaultKey, fun hpos => absurd hpos hzero, ?_⟩
    rw [paySol_eq, if_neg hzero]

theorem settleAndClose_ok {c : Cluster} {vault : VaultConfig} {plan : Option AssetPlan}
    {vaultKey dest : Pubkey} {largestBenef : Option Pubkey} {s s' : World}
    (h : settleAndClose c vault plan vaultKey (.heartbeat vaultKey) (.execution vaultKey) dest
      largestBenef s = .ok s') :
    ∃ recipient s₁,
      (0 < s.lamports vaultKey - c.minimumBalance VaultConfig.space →
        ∃ benef, vault.beneficiaries[largestShareIndex vault.beneficiaries]? = some benef ∧
          recipient = benef.wallet) ∧
      s₁ = ((s.paySol vaultKey recipient
        (s.lamports vaultKey - c.minimumBalance VaultConfig.space) .solDust).closePlan vault
        vaultKey dest).closePair vaultKey dest ∧
      s' = (s₁.sendLamports (.execution vaultKey) dest (s₁.lamports (.execution vaultKey))
        .refund).putExecutionLog (.execution vaultKey) none := by
  simp only [settleAndClose, Except.bind_eq_ok, Except.pure_eq_ok] at h
  obtain ⟨s₁, hsweep, s₂, hplan, s₃, hrefund, s₄, hrefund', s₅, hrefund'', rfl⟩ := h
  obtain ⟨recipient, hdust, rfl⟩ := sweepSolDust_ok hsweep
  obtain rfl := closeRegisteredPlan_ok hplan
  obtain ⟨-, rfl⟩ := refundLamports_eq_ok.mp hrefund
  obtain ⟨-, rfl⟩ := refundLamports_eq_ok.mp hrefund'
  obtain ⟨-, rfl⟩ := refundLamports_eq_ok.mp hrefund''
  exact ⟨recipient, _, hdust, rfl, rfl⟩

/-- The gate both closes of an executed vault pass. -/
structure Closable (s : World) (vaultKey : Pubkey) (vault : VaultConfig) (log : ExecutionLog) :
    Prop extends Executing s vaultKey vault log where
  record : (s.heartbeatRecords (.heartbeat vaultKey)).isSome = true
  executed : vault.executed = true
  swept : vault.openTokenDists = 0

structure CloseExecutedVault where
  payer : Pubkey
  vaultConfig : Pubkey
  heartbeatRecord : Pubkey
  executionLog : Pubkey
  assetPlan : Option Pubkey
  largestBenef : Option Pubkey

def closeExecutedVault (c : Cluster) (ctx : CloseExecutedVault) (s : World) :
    Except ProgramError World := do
  requireSigner ctx.payer
  let vault ← s.loadVaultConfig ctx.vaultConfig
  let heartbeat ← s.loadHeartbeatRecord ctx.heartbeatRecord
  let log ← s.loadExecutionLog ctx.executionLog
  let plan ← s.loadOptionalAssetPlan ctx.vaultConfig ctx.assetPlan
  requireSeeds ctx.vaultConfig (.vault vault.owner)
  require (vault.executed = true) (.vault .vaultNotExecuted)
  requireSeeds ctx.heartbeatRecord (.heartbeat ctx.vaultConfig)
  require (heartbeat.vault = ctx.vaultConfig) (.vault .heartbeatVaultMismatch)
  requireSeeds ctx.executionLog (.execution ctx.vaultConfig)
  require (log.vault = ctx.vaultConfig) (.anchor .constraintRaw)
  require (log.completed = true) (.vault .notAllSharesPaid)
  require (vault.openTokenDists = 0) (.vault .tokensRemain)
  -- `started_at + EXECUTED_CLOSE_DELAY` is a plain addition under `overflow-checks`.
  let opensAt ← okOr (checkedAddI64 log.startedAt (executedCloseDelay c.devnet)) .arithmeticOverflow
  require (opensAt ≤ s.now) (.vault .closeDelayNotElapsed)
  settleAndClose c vault plan ctx.vaultConfig ctx.heartbeatRecord ctx.executionLog ctx.payer
    ctx.largestBenef s

theorem closeExecutedVault_ok {c : Cluster} {ctx : CloseExecutedVault} {s s' : World}
    (h : closeExecutedVault c ctx s = .ok s') :
    ∃ vault log plan, ctx.payer.canSign = true ∧ Closable s ctx.vaultConfig vault log ∧
      log.completed = true ∧ log.startedAt + executedCloseDelay c.devnet ≤ s.now ∧
      settleAndClose c vault plan ctx.vaultConfig (.heartbeat ctx.vaultConfig)
        (.execution ctx.vaultConfig) ctx.payer ctx.largestBenef s = .ok s' := by
  simp only [closeExecutedVault, Except.bind_eq_ok, require_eq_ok, requireSigner_eq_ok,
    requireSeeds_eq_ok, loadVaultConfig_eq_ok, loadHeartbeatRecord_eq_ok, loadExecutionLog_eq_ok,
    okOr_eq_ok, exists_const] at h
  obtain ⟨hsign, vault, hv, heartbeat, hh, log, hl, plan, -, hseeds, hexec, hheart, -, hlog, -,
    hdone, hopen, opensAt, hdelay, hnow, h⟩ := h
  rw [hheart] at hh h
  rw [hlog] at hl h
  simp only [checkedAddI64, Option.ite_none_right_eq_some, Option.some.injEq] at hdelay
  obtain ⟨-, rfl⟩ := hdelay
  exact ⟨vault, log, plan, hsign, ⟨⟨hv, hl, hseeds⟩, by simp [hh], hexec, hopen⟩, hdone, hnow, h⟩

structure CloseExecutedVaultByOwner where
  owner : Pubkey
  vaultConfig : Pubkey
  heartbeatRecord : Pubkey
  executionLog : Pubkey
  assetPlan : Option Pubkey
  largestBenef : Option Pubkey

def closeExecutedVaultByOwner (c : Cluster) (ctx : CloseExecutedVaultByOwner) (s : World) :
    Except ProgramError World := do
  requireSigner ctx.owner
  let vault ← s.loadVaultConfig ctx.vaultConfig
  let heartbeat ← s.loadHeartbeatRecord ctx.heartbeatRecord
  let log ← s.loadExecutionLog ctx.executionLog
  let plan ← s.loadOptionalAssetPlan ctx.vaultConfig ctx.assetPlan
  requireSeeds ctx.vaultConfig (.vault ctx.owner)
  require (vault.owner = ctx.owner) (.vault .unauthorizedOwner)
  require (vault.executed = true) (.vault .vaultNotExecuted)
  requireSeeds ctx.heartbeatRecord (.heartbeat ctx.vaultConfig)
  require (heartbeat.vault = ctx.vaultConfig) (.vault .heartbeatVaultMismatch)
  requireSeeds ctx.executionLog (.execution ctx.vaultConfig)
  require (log.vault = ctx.vaultConfig) (.anchor .constraintRaw)
  require (vault.openTokenDists = 0) (.vault .tokensRemain)
  settleAndClose c vault plan ctx.vaultConfig ctx.heartbeatRecord ctx.executionLog ctx.owner
    ctx.largestBenef s

theorem closeExecutedVaultByOwner_ok {c : Cluster} {ctx : CloseExecutedVaultByOwner}
    {s s' : World} (h : closeExecutedVaultByOwner c ctx s = .ok s') :
    ∃ vault log plan, ctx.owner.canSign = true ∧ Closable s ctx.vaultConfig vault log ∧
      vault.owner = ctx.owner ∧
      settleAndClose c vault plan ctx.vaultConfig (.heartbeat ctx.vaultConfig)
        (.execution ctx.vaultConfig) ctx.owner ctx.largestBenef s = .ok s' := by
  simp only [closeExecutedVaultByOwner, Except.bind_eq_ok, require_eq_ok, requireSigner_eq_ok,
    requireSeeds_eq_ok, loadVaultConfig_eq_ok, loadHeartbeatRecord_eq_ok, loadExecutionLog_eq_ok,
    exists_const] at h
  obtain ⟨hsign, vault, hv, heartbeat, hh, log, hl, plan, -, hseeds, howner, hexec, hheart, -, hlog,
    -, hopen, h⟩ := h
  rw [hheart] at hh h
  rw [hlog] at hl h
  exact ⟨vault, log, plan, hsign, ⟨⟨hv, hl, howner ▸ hseeds⟩, by simp [hh], hexec, hopen⟩, howner, h⟩

end DeadMansVault
