-- SUMMARY: Starting an execution and opening the distribution of one mint: the two snapshots.
import DeadMansVault.Program.Gates

namespace DeadMansVault

open World

structure BeginExecution where
  payer : Pubkey
  vaultConfig : Pubkey
  heartbeatRecord : Pubkey
  executionLog : Pubkey
  assetPlan : Option Pubkey

/-- `u128::saturating_add` over the SOL-sentinel assignments. -/
def sumSpecificSol (assignments : List AssetAssignment) : Nat :=
  assignments.foldl (fun sum a =>
    if a.mint = .default then saturatingAdd (2 ^ 128 - 1) sum a.amount else sum) 0

/-- The SOL bequests of the registered plan, which must be passed when there is one. -/
def registeredSpecificSol (vault : VaultConfig) (plan : Option AssetPlan) (vaultKey : Pubkey) :
    Except ProgramError Nat :=
  if vault.hasAssetPlan then do
    let plan ← okOr plan (.vault .assetPlanRequired)
    require (plan.vault = vaultKey) (.vault .assetPlanRequired)
    pure (sumSpecificSol plan.assignments)
  else pure 0

def beginExecution (c : Cluster) (ctx : BeginExecution) (s : World) :
    Except ProgramError World := do
  requireSigner ctx.payer
  let vault ← s.loadVaultConfig ctx.vaultConfig
  let heartbeat ← s.loadHeartbeatRecord ctx.heartbeatRecord
  requireSeeds ctx.executionLog (.execution ctx.vaultConfig)
  require (s.executionLogs ctx.executionLog = none) (.anchor .accountAlreadyInUse)
  let s ← s.fundRent c ctx.payer ctx.executionLog ExecutionLog.space
  let plan ← s.loadOptionalAssetPlan ctx.vaultConfig ctx.assetPlan
  requireSeeds ctx.vaultConfig (.vault vault.owner)
  require (vault.executed = false) (.vault .vaultAlreadyExecuted)
  requireSeeds ctx.heartbeatRecord (.heartbeat ctx.vaultConfig)
  require (heartbeat.vault = ctx.vaultConfig) (.vault .heartbeatVaultMismatch)
  let dl ← deadline heartbeat.lastHeartbeat vault.heartbeatInterval vault.gracePeriod
  require (graceElapsed s.now dl = true) (.vault .graceNotElapsed)
  let specificSol ← registeredSpecificSol vault plan ctx.vaultConfig
  let distributable := s.lamports ctx.vaultConfig - c.minimumBalance VaultConfig.space
  pure (s.putExecutionLog ctx.executionLog (some {
    vault := ctx.vaultConfig
    solSnapshot := asU64 (distributable - specificSol - vault.keeperBounty)
    solPaidMask := 0
    startedAt := s.now
    completed := false
    transferCount := 0
    totalSolDistributed := 0 }))

/-- The sum is taken over the plan of the vault, and over nothing when it has none. -/
theorem registeredSpecificSol_ok {s : World} {vault : VaultConfig} {vaultKey : Pubkey}
    {key : Option Pubkey} {plan : Option AssetPlan} {sum : Nat}
    (hplan : s.loadOptionalAssetPlan vaultKey key = .ok plan)
    (h : registeredSpecificSol vault plan vaultKey = .ok sum) :
    (vault.hasAssetPlan = true → (s.assetPlans (.assetPlan vaultKey)).isSome = true) ∧
      sum = (s.registeredPlan vaultKey vault).elim 0 (sumSpecificSol ·.assignments) := by
  unfold registeredSpecificSol at h
  unfold World.registeredPlan
  split at h
  · rename_i hhas
    simp only [Except.bind_eq_ok, okOr_eq_ok, require_eq_ok, exists_const, Except.pure_eq_ok] at h
    obtain ⟨p, rfl, -, rfl⟩ := h
    simp [hhas, loadOptionalAssetPlan_some hplan]
  · rename_i hhas
    cases h
    simp [hhas]

theorem beginExecution_ok {c : Cluster} {ctx : BeginExecution} {s s' : World}
    (h : beginExecution c ctx s = .ok s') :
    ∃ vault heartbeat n, ctx.payer.canSign = true ∧ s.vaultConfigs ctx.vaultConfig = some vault ∧
      s.heartbeatRecords (.heartbeat ctx.vaultConfig) = some heartbeat ∧
      s.executionLogs (.execution ctx.vaultConfig) = none ∧ n ≤ s.lamports ctx.payer ∧
      ctx.vaultConfig = .vault vault.owner ∧ vault.executed = false ∧
      heartbeat.vault = ctx.vaultConfig ∧ vault.deadlineAt heartbeat ≤ s.now ∧
      (vault.hasAssetPlan = true → (s.assetPlans (.assetPlan ctx.vaultConfig)).isSome = true) ∧
      s' = (s.sendLamports ctx.payer (.execution ctx.vaultConfig) n .rent).putExecutionLog
        (.execution ctx.vaultConfig) (some {
          vault := ctx.vaultConfig
          solSnapshot := asU64 (s.lamports ctx.vaultConfig - c.minimumBalance VaultConfig.space -
            (s.registeredPlan ctx.vaultConfig vault).elim 0 (sumSpecificSol ·.assignments) -
            vault.keeperBounty)
          solPaidMask := 0
          startedAt := s.now
          completed := false
          transferCount := 0
          totalSolDistributed := 0 }) := by
  simp only [beginExecution, Except.bind_eq_ok, require_eq_ok, requireSigner_eq_ok,
    requireSeeds_eq_ok, loadVaultConfig_eq_ok, loadHeartbeatRecord_eq_ok, Except.pure_eq_ok,
    exists_const] at h
  obtain ⟨hsign, vault, hv, heartbeat, hh, hlog, hnone, s₁, hfund, plan, hplan, hseeds, hexec, hheart,
    hpin, dl, hdl, hnow, sum, hsum, rfl⟩ := h
  rw [hlog] at hnone hfund ⊢
  rw [hheart] at hh
  obtain ⟨n, hn, -, rfl⟩ := fundRent_ok hfund
  obtain ⟨hhas, rfl⟩ := registeredSpecificSol_ok hplan hsum
  rw [deadline_eq_ok hdl] at hnow
  have hkeep : (s.sendLamports ctx.payer (.execution ctx.vaultConfig) n .rent).lamports
      ctx.vaultConfig = s.lamports ctx.vaultConfig := by
    rw [hseeds, sendLamports_lamports]
    apply Ledger.move_of_ne
    · exact (Pubkey.ne_vault_of_canSign hsign).symm
    · simp
  rw [hkeep]
  exact ⟨vault, heartbeat, n, hsign, hv, hh, hnone, hn, hseeds, hexec, hpin,
    of_decide_eq_true hnow, hhas, rfl⟩

structure BeginTokenDist where
  payer : Pubkey
  vaultConfig : Pubkey
  executionLog : Pubkey
  mint : Pubkey
  vaultAta : Pubkey
  assetPlan : Option Pubkey
  tokenDist : Pubkey

/-- The balance of an ATA that may not exist, read without an owner check. -/
def readVaultAta (s : World) (ata mint vaultKey : Pubkey) : Except ProgramError Nat :=
  match s.tokenAccounts ata with
  | none => pure 0
  | some account => do
    require (account.mint = mint ∧ account.owner = vaultKey) (.vault .tokenAccountMismatch)
    pure (s.tokenAmounts ata)

/-- `u64::saturating_add` over the assignments of `mint`. -/
def sumSpecific (assignments : List AssetAssignment) (mint : Pubkey) : Nat :=
  assignments.foldl (fun sum a =>
    if a.mint = mint then saturatingAdd u64Max sum a.amount else sum) 0

/-- The bequests of `mint` in the registered plan, and whether it appears there. -/
def registeredSpecific (vault : VaultConfig) (plan : Option AssetPlan) (vaultKey mint : Pubkey) :
    Except ProgramError (Nat × Bool) :=
  if vault.hasAssetPlan then do
    let plan ← okOr plan (.vault .assetPlanRequired)
    require (plan.vault = vaultKey) (.vault .assetPlanRequired)
    pure (sumSpecific plan.assignments mint, plan.assignments.any (·.mint = mint))
  else pure (0, false)

def beginTokenDist (c : Cluster) (ctx : BeginTokenDist) (s : World) :
    Except ProgramError World := do
  requireSigner ctx.payer
  let vault ← s.loadVaultConfig ctx.vaultConfig
  let log ← s.loadExecutionLog ctx.executionLog
  let _ ← s.loadMint ctx.mint
  let plan ← s.loadOptionalAssetPlan ctx.vaultConfig ctx.assetPlan
  requireSeeds ctx.tokenDist (.tokenDist ctx.vaultConfig ctx.mint)
  require (s.tokenDists ctx.tokenDist = none) (.anchor .accountAlreadyInUse)
  let s ← s.fundRent c ctx.payer ctx.tokenDist TokenDist.space
  requireSeeds ctx.vaultConfig (.vault vault.owner)
  requireSeeds ctx.executionLog (.execution ctx.vaultConfig)
  require (log.vault = ctx.vaultConfig) (.vault .heartbeatVaultMismatch)
  require (ctx.vaultAta = World.canonicalAta c ctx.vaultConfig ctx.mint) (.vault .invalidVaultAta)
  let bal ← readVaultAta s ctx.vaultAta ctx.mint ctx.vaultConfig
  let (specSum, mintInPlan) ← registeredSpecific vault plan ctx.vaultConfig ctx.mint
  require (0 < bal ∨ mintInPlan = true) (.vault .nothingToDistribute)
  let s := s.putTokenDist ctx.tokenDist (some {
    vault := ctx.vaultConfig
    mint := ctx.mint
    snapshot := bal - specSum
    paidMask := 0 })
  pure (s.putVaultConfig ctx.vaultConfig (some { vault with
    openTokenDists := saturatingAdd u16Max vault.openTokenDists 1 }))

theorem readVaultAta_ok {s : World} {ata mint vaultKey : Pubkey} {bal : Nat}
    (hvacant : s.tokenAccounts ata = none → s.tokenAmounts ata = 0)
    (h : readVaultAta s ata mint vaultKey = .ok bal) : bal = s.tokenAmounts ata := by
  unfold readVaultAta at h
  split at h
  · rename_i hnone
    cases h
    exact (hvacant hnone).symm
  · simp only [Except.bind_eq_ok, require_eq_ok, exists_const, Except.pure_eq_ok] at h
    exact h.2.symm

theorem registeredSpecific_ok {s : World} {vault : VaultConfig} {vaultKey mint : Pubkey}
    {key : Option Pubkey} {plan : Option AssetPlan} {sum : Nat} {found : Bool}
    (hplan : s.loadOptionalAssetPlan vaultKey key = .ok plan)
    (h : registeredSpecific vault plan vaultKey mint = .ok (sum, found)) :
    sum = (s.registeredPlan vaultKey vault).elim 0 (sumSpecific ·.assignments mint) ∧
      found = (s.registeredPlan vaultKey vault).elim false (·.assignments.any (·.mint = mint)) := by
  unfold registeredSpecific at h
  unfold World.registeredPlan
  split at h
  · rename_i hhas
    simp only [Except.bind_eq_ok, okOr_eq_ok, require_eq_ok, exists_const, Except.pure_eq_ok,
      Prod.mk.injEq] at h
    obtain ⟨p, rfl, -, rfl, rfl⟩ := h
    simp [hhas, loadOptionalAssetPlan_some hplan]
  · rename_i hhas
    cases h
    simp [hhas]

theorem beginTokenDist_ok {c : Cluster} {ctx : BeginTokenDist} {s s' : World}
    (hplaus : ∀ k, s.tokenAccounts k = none → s.tokenAmounts k = 0)
    (h : beginTokenDist c ctx s = .ok s') :
    ∃ vault log n, ctx.payer.canSign = true ∧ Executing s ctx.vaultConfig vault log ∧
      (s.mints ctx.mint).isSome = true ∧
      s.tokenDists (.tokenDist ctx.vaultConfig ctx.mint) = none ∧ n ≤ s.lamports ctx.payer ∧
      (0 < s.tokenAmounts (canonicalAta c ctx.vaultConfig ctx.mint) ∨
        (s.registeredPlan ctx.vaultConfig vault).elim false
          (·.assignments.any (·.mint = ctx.mint)) = true) ∧
      s' = ((s.sendLamports ctx.payer (.tokenDist ctx.vaultConfig ctx.mint) n .rent).putTokenDist
        (.tokenDist ctx.vaultConfig ctx.mint) (some {
          vault := ctx.vaultConfig
          mint := ctx.mint
          snapshot := s.tokenAmounts (canonicalAta c ctx.vaultConfig ctx.mint) -
            (s.registeredPlan ctx.vaultConfig vault).elim 0 (sumSpecific ·.assignments ctx.mint)
          paidMask := 0 })).putVaultConfig ctx.vaultConfig (some { vault with
            openTokenDists := saturatingAdd u16Max vault.openTokenDists 1 }) := by
  simp only [beginTokenDist, Except.bind_eq_ok, require_eq_ok, requireSigner_eq_ok,
    requireSeeds_eq_ok, loadVaultConfig_eq_ok, loadExecutionLog_eq_ok, loadMint_eq_ok,
    Except.pure_eq_ok, exists_const] at h
  obtain ⟨hsign, vault, hv, log, hl, mint, hmint, plan, hplan, hdist, hnone, s₁, hfund, hseeds, hlog, -,
    hata, bal, hbal, ⟨sum, found⟩, hsum, hopen, rfl⟩ := h
  rw [hdist] at hnone hfund ⊢
  rw [hlog] at hl
  rw [hata] at hbal
  obtain ⟨n, hn, -, rfl⟩ := fundRent_ok hfund
  obtain ⟨rfl, rfl⟩ := registeredSpecific_ok hplan hsum
  obtain rfl := readVaultAta_ok (hplaus _) hbal
  exact ⟨vault, log, n, hsign, ⟨hv, hl, hseeds⟩, by simp [hmint], hnone, hn, hopen, rfl⟩

end DeadMansVault
