-- SUMMARY: The two cranks: the server's executor, and the keeper's crank with its cleanup of executed vaults.
import DeadMansVault.Crank.Steps

/-!
# The cranks

Both run the steps in the same order. The server reads the vault itself and
checks the deadline; the keeper is handed a vault that its scan has found due,
and cleans up after an execution.
-/

namespace DeadMansVault.Crank

variable {σ : Type}

/-- Steps 1 to 6, with the mints that they have worked on. -/
def Job.distribute (job : Job σ) (expire : Routine σ PUnit) (cfg : VaultConfig) :
    Routine σ (List (Pubkey × ProgramId)) := do
  job.beginExecution cfg.hasAssetPlan
  let plan ← job.fetchPlan cfg.hasAssetPlan
  let mints ← collectMints job.client expire job.vault plan
  mints.forM (job.beginTokenDist cfg.hasAssetPlan)
  (plan.toList.flatMap (·.assignments.zipIdx)).forM
    (job.specificBequest cfg.beneficiaries mints ((plan.map (·.paidMask)).getD 0))
  let log ← fetch (job.client.executionLog (.execution job.vault))
  (chunk (Job.unpaid cfg.beneficiaries log.solPaidMask) batch).forM
    (job.solShares cfg.beneficiaries)
  job.finalize cfg.beneficiaries cfg.hasAssetPlan
  mints.forM (job.tokenShares cfg.beneficiaries)
  pure mints

/-- Step 7; before the vault is executed the program would refuse it. -/
def Job.closeTokenDists (job : Job σ) (executed : Bool) (owner : Pubkey)
    (beneficiaries : List Beneficiary) (mints : List (Pubkey × ProgramId)) : Routine σ PUnit :=
  if executed then mints.forM (job.closeTokenDist owner beneficiaries) else pure ⟨⟩

/-! ## The server -/

inductive Action
  | noVault
  | alreadyExecuted
  | notDue
  | executed (skipped : List (Option Pubkey × StuckStep))
  | cranked (skipped : List (Option Pubkey × StuckStep))
  | executorDisabled
  | busy
  | abortedReadinessRevoked
  deriving DecidableEq

def executorJob (client : Client σ) (cranker vault : Pubkey) (canSubmit : CanSubmit σ) : Job σ where
  client := client
  payer := cranker
  vault := vault
  guard := makeSubmitGuard canSubmit
  revoked := readinessRevoked

/-- The run over a vault whose deadline has passed. -/
def executeDue (job : Job σ) (cfg : VaultConfig) : Routine σ Action := do
  let mints ← job.distribute (pure ⟨⟩) cfg
  let finalizedCfg ← fetch (job.client.vaultConfig job.vault)
  job.closeTokenDists finalizedCfg.executed cfg.owner cfg.beneficiaries mints
  let finalCfg ← fetch (job.client.vaultConfig job.vault)
  let skipped := (← get).skipped
  return if finalCfg.executed then .executed skipped else .cranked skipped

def runExecutorInner (client : Client σ) (cranker vault : Pubkey) (canSubmit : CanSubmit σ) :
    Routine σ Action := do
  call client.priorityFee
  match ← call (client.vaultConfig vault) with
  | none => pure .noVault
  | some cfg =>
    if cfg.executed then pure .alreadyExecuted
    else
      let hb ← fetch (client.heartbeatRecord (.heartbeat vault))
      let lastHeartbeat ← toNumber hb.lastHeartbeat
      let heartbeatInterval ← toNumber cfg.heartbeatInterval
      let gracePeriod ← toNumber cfg.gracePeriod
      let now ← call fun net => let (now, net) := client.now net; (.ok now, net)
      if now < lastHeartbeat + heartbeatInterval + gracePeriod then pure .notDue
      else executeDue (executorJob client cranker vault canSubmit) cfg

/-- `inFlight` are the vaults that other runs are at; without a cranker the executor is off. -/
def runExecutor (client : Client σ) (cranker : Option Pubkey) (inFlight : List Pubkey)
    (vault : Pubkey) (canSubmit : CanSubmit σ) : Routine σ Action :=
  match canSubmit, cranker with
  | none, _ => throw (error "runExecutor requires a canSubmit readiness guard (fail-closed)")
  | some _, none => pure .executorDisabled
  | some _, some cranker =>
    if vault ∈ inFlight then pure .busy
    else tryCatch (runExecutorInner client cranker vault canSubmit) fun e =>
      if e.message = readinessRevoked then pure .abortedReadinessRevoked else throw e

/-! ## The keeper -/

def keeperJob (client : Client σ) (keeper vault : Pubkey) (canSubmit : CanSubmit σ) : Job σ where
  client := client
  payer := keeper
  vault := vault
  guard := makeKeeperGuard canSubmit
  revoked := keeperHalt

/-- The result is whether the vault is executed, and what was left out. -/
def crankVault (client : Client σ) (keeper vault : Pubkey) (cfg : VaultConfig)
    (canSubmit : CanSubmit σ) : Routine σ (Bool × List (Option Pubkey × StuckStep)) :=
  match canSubmit with
  | none => throw (error "crankVault requires a canSubmit readiness guard (fail-closed)")
  | some _ => do
    let job := keeperJob client keeper vault canSubmit
    call client.priorityFee
    let mints ← job.distribute (call client.deadline) cfg
    let freshCfg ← fetch (client.vaultConfig vault)
    job.closeTokenDists freshCfg.executed freshCfg.owner cfg.beneficiaries mints
    return (freshCfg.executed, (← get).skipped)

def vaultHoldsUndistributedTokens (client : Client σ) (vault : Pubkey) : Routine σ Bool := do
  let classic ← call (client.tokenAccountsByOwner vault .token)
  if classic.any fun account => decide (0 < account.2) then pure true
  else
    let extended ← call (client.tokenAccountsByOwner vault .token2022)
    pure (extended.any fun account => decide (0 < account.2))

inductive Cleanup
  | noExecutionLog
  | tokenDistsOpen
  | heldMintsRemain
  | closed
  | windowOpen
  deriving DecidableEq

/-- Close the core accounts; the program itself checks the owner's window. -/
def closeCore (job : Job σ) (cfg : VaultConfig) : Routine σ Cleanup := do
  let maxWallet ← walletAt cfg.beneficiaries (largestShareIndex cfg.beneficiaries)
  tryCatch (do
    job.guard
    submit job.client (.invoke (.closeExecutedVault {
      payer := job.payer
      vaultConfig := job.vault
      heartbeatRecord := .heartbeat job.vault
      executionLog := .execution job.vault
      assetPlan := job.optionalPlan cfg.hasAssetPlan
      largestBenef := some maxWallet }))
    pure .closed) fun e =>
      if "CloseDelayNotElapsed".toList <:+: (e.name ++ ": " ++ e.message).toList then pure .windowOpen
      else throw e

/-- Finish the token distributions that a crank has left open, whether any is left then. -/
def finishTokenDists (client : Client σ) (keeper vault : Pubkey) (cfg : VaultConfig)
    (canSubmit : CanSubmit σ) : Routine σ Bool :=
  if 0 < cfg.openTokenDists then do
    let _ ← crankVault client keeper vault cfg canSubmit
    let fresh ← fetch (client.vaultConfig vault)
    pure (decide (0 < fresh.openTokenDists))
  else pure false

def cleanupExecutedVault (client : Client σ) (keeper vault : Pubkey) (cfg : VaultConfig)
    (canSubmit : CanSubmit σ) : Routine σ Cleanup :=
  match canSubmit with
  | none => throw (error "cleanupExecutedVault requires a canSubmit readiness guard (fail-closed)")
  | some _ => do
    call client.priorityFee
    match ← call (client.executionLog (.execution vault)) with
    | none => pure .noExecutionLog
    | some log =>
      if log.completed = false then pure .noExecutionLog
      else if ← finishTokenDists client keeper vault cfg canSubmit then pure .tokenDistsOpen
      else if ← vaultHoldsUndistributedTokens client vault then pure .heldMintsRemain
      else closeCore (keeperJob client keeper vault canSubmit) cfg

end DeadMansVault.Crank
