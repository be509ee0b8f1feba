-- SUMMARY: The app's own pass over a due vault, which the owner's device drives with its agent key.
import DeadMansVault.Device.Claim

/-!
# The app's pass

`ExecutionService.execute` is the third crank, beside the server's and the keeper's. It has
its own copy of the nine steps. The step list for the screen and the notifications are left
out, and so is the sleep between two polls of the deadline.
-/

namespace DeadMansVault.Device

open Crank

variable {σ : Type}

/-- What a pass calls, besides the reads of a crank. -/
structure ExecutionEnv (σ : Type) where
  client : Client σ
  getOnChainDeadline : Pubkey → σ → Option Int × σ
  /-- `getSlot`, then `getBlockTime`. -/
  blockTime : σ → Except JsError (Option Int) × σ
  /-- `Date.now()` -/
  now : σ → Nat × σ
  getLastCompletedStep : Pubkey → σ → Except JsError Int × σ
  /-- The steps and the snapshots of an earlier run are cleared. -/
  clearMirror : Pubkey → σ → Except JsError Unit × σ
  getKeypair : σ → Except JsError Pubkey × σ
  /-- Whether the confirmation comes without an error of the transaction. -/
  sendWithPayer : Transaction → σ → Except JsError Bool × σ

/-- What the later steps of a pass know. -/
structure Pass where
  agent : Pubkey
  owner : Pubkey
  config : VaultConfig
  mints : List Pubkey
  largestBenef : Pubkey

/-- A call that does not throw. -/
def answer {α : Type} (f : σ → α × σ) : Routine σ α :=
  call fun net => let (a, net) := f net; (.ok a, net)

namespace ExecutionEnv

variable (env : ExecutionEnv σ) (agent owner : Pubkey)

/-- Milliseconds. -/
def maxWait : Nat := 120000

/-- A poll is followed by a wait of five seconds. -/
def maxPolls : Nat := 24

def bufferSeconds : Int := 2

/-- The device may reach the last stage before the chain does. -/
def waitForOnChainDeadline (start : Nat) : Nat → Routine σ PUnit
  | 0 => pure ⟨⟩
  | polls + 1 => do
    let now ← answer env.now
    if maxWait ≤ now - start then pure ⟨⟩
    else
      match ← answer (env.getOnChainDeadline owner) with
      | none => pure ⟨⟩
      | some deadline =>
        match ← call env.blockTime with
        | none => pure ⟨⟩
        | some blockTime =>
          if deadline + bufferSeconds < blockTime then pure ⟨⟩
          else waitForOnChainDeadline start polls

/-! ## The cranks of the transaction service -/

/-- A transaction is signed, sent and confirmed; what its confirmation says is not looked at. -/
def send (tx : Transaction) : Routine σ PUnit := do
  tx.forM fun submission => record (.submitted submission)
  let _ ← call (env.sendWithPayer tx)

/-- A transaction that may turn out to have nothing to do. -/
def sendAny (tx : Transaction) : Routine σ PUnit :=
  if tx = [] then pure ⟨⟩ else env.send tx

def crankBeginExecution (hasAssetPlan : Bool) : Routine σ PUnit :=
  env.send [ClaimEnv.beginExecutionIx agent owner hasAssetPlan]

def crankBeginTokenDist (hasAssetPlan : Bool) (mint : Pubkey) : Routine σ PUnit := do
  let tokenProgram ← getTokenProgramForMint env.client mint
  let vaultAta ← ataFor env.client mint (.vault owner) true tokenProgram
  env.send [
    .createAta vaultAta (.vault owner) mint (.token tokenProgram),
    .invoke (.beginTokenDist {
      payer := agent
      vaultConfig := .vault owner
      executionLog := .execution (.vault owner)
      mint := mint
      vaultAta := vaultAta
      assetPlan := ClaimEnv.optionalPlan owner hasAssetPlan
      tokenDist := .tokenDist (.vault owner) mint })]

def crankExecuteSpecificSol (config : VaultConfig) (a : AssetAssignment) (j : Nat) :
    Routine σ PUnit := do
  let benef ← walletAt config.beneficiaries a.beneficiaryIndex
  env.send [.invoke (.executeSpecificSol {
    payer := agent
    vaultConfig := .vault owner
    executionLog := .execution (.vault owner)
    assetPlan := .assetPlan (.vault owner)
    beneficiary := benef } j)]

def crankExecuteSpecificAsset (config : VaultConfig) (a : AssetAssignment) (j : Nat) :
    Routine σ PUnit := do
  let tokenProgram ← getTokenProgramForMint env.client a.mint
  let vaultAta ← ataFor env.client a.mint (.vault owner) true tokenProgram
  let benef ← walletAt config.beneficiaries a.beneficiaryIndex
  let benefAta ← ataFor env.client a.mint benef false tokenProgram
  let create ← createIfMissing env.client benefAta benef a.mint tokenProgram
  env.send (create ++ [.invoke (.executeSpecificAsset {
    payer := agent
    vaultConfig := .vault owner
    executionLog := .execution (.vault owner)
    assetPlan := .assetPlan (.vault owner)
    mint := a.mint
    tokenDist := .tokenDist (.vault owner) a.mint
    vaultAta := vaultAta
    beneficiaryAta := benefAta
    tokenProgram := tokenProgram } j)])

def crankExecuteSolShares (config : VaultConfig) (part : List Nat) : Routine σ PUnit := do
  env.send [← ClaimEnv.executeSolSharesIx agent owner config part]

def crankFinalize (hasAssetPlan : Bool) : Routine σ PUnit :=
  env.send [ClaimEnv.finalizeExecutionIx agent owner hasAssetPlan]

/-- The accounts that are missing are created in a transaction of their own. -/
def crankExecuteTokenShares (config : VaultConfig) (mint : Pubkey) (part : List Nat) :
    Routine σ PUnit := do
  let tokenProgram ← getTokenProgramForMint env.client mint
  let vaultAta ← ataFor env.client mint (.vault owner) true tokenProgram
  let accounts ← part.mapM fun i => do
    let wallet ← walletAt config.beneficiaries i
    let ata ← ataFor env.client mint wallet false tokenProgram
    return (ata, ← createIfMissing env.client ata wallet mint tokenProgram)
  env.sendAny (accounts.flatMap (·.2))
  env.send [.invoke (.executeTokenShares {
    payer := agent
    vaultConfig := .vault owner
    tokenDist := .tokenDist (.vault owner) mint
    mint := mint
    vaultAta := vaultAta
    tokenProgram := tokenProgram
    remainingAccounts := accounts.map fun account => ⟨account.1, true⟩ } part)]

/-- Where the dust goes, and the creation of that account where it is missing. -/
def dustAccount (mint largestBenef : Pubkey) (tokenProgram : TokenProgram) (dust : Nat) :
    Routine σ (Option Pubkey × Transaction) :=
  if 0 < dust then do
    let ata ← ataFor env.client mint largestBenef false tokenProgram
    return (some ata, ← createIfMissing env.client ata largestBenef mint tokenProgram)
  else pure (none, [])

def crankCloseTokenDist (mint largestBenef : Pubkey) : Routine σ PUnit := do
  let tokenProgram ← getTokenProgramForMint env.client mint
  let vaultAta ← ataFor env.client mint (.vault owner) true tokenProgram
  let dust ← tryCatch (Prod.fst <$> call (env.client.tokenAccount vaultAta (.token tokenProgram)))
    fun _ => pure 0
  let (largestBenefAta, setup) ← env.dustAccount mint largestBenef tokenProgram dust
  env.sendAny setup
  env.send [.invoke (.closeTokenDist {
    payer := agent
    owner := owner
    vaultConfig := .vault owner
    mint := mint
    vaultAta := vaultAta
    tokenDist := .tokenDist (.vault owner) mint
    largestBenefAta := largestBenefAta
    tokenProgram := tokenProgram })]

/-! ## The steps -/

/-- 1. The account's being there is as good as the instruction's success. -/
def beginExecution (hasAssetPlan : Bool) : Routine σ PUnit := do
  match ← call (env.client.executionLog (.execution (.vault owner))) with
  | some _ => pure ⟨⟩
  | none =>
    env.crankBeginExecution agent owner hasAssetPlan
    let _ ← call (env.client.executionLog (.execution (.vault owner)))

/-- 3. Whatever fails, the mint is skipped from here on. -/
def beginTokenDist (hasAssetPlan : Bool) (mint : Pubkey) : Routine σ PUnit := do
  match ← call (env.client.tokenDist (.tokenDist (.vault owner) mint)) with
  | some _ => pure ⟨⟩
  | none =>
    tryCatch (env.crankBeginTokenDist agent owner hasAssetPlan mint) fun _ =>
      markStuck mint .beginTokenDist

def specificBequest (config : VaultConfig) (paidMask : BitVec 64) (entry : AssetAssignment × Nat) :
    Routine σ PUnit := do
  let (a, j) := entry
  if bitSet paidMask j then pure ⟨⟩
  else if a.mint = .default then
    tryCatch (env.crankExecuteSpecificSol agent owner config a j) fun _ => pure ⟨⟩
  else if ← isStuck a.mint then pure ⟨⟩
  else
    tryCatch (env.crankExecuteSpecificAsset agent owner config a j) fun _ =>
      markStuck a.mint .executeSpecificAsset

/-- 4. The bequests, on a plan that is read again. -/
def specificBequests (config : VaultConfig) (plan : Option AssetPlan) : Routine σ PUnit :=
  match plan with
  | none => pure ⟨⟩
  | some _ => do
    match ← call (env.client.assetPlan (.assetPlan (.vault owner))) with
    | none => pure ⟨⟩
    | some plan =>
      plan.assignments.zipIdx.forM (env.specificBequest agent owner config plan.paidMask)

/-- 5. The SOL shares, in batches. -/
def solShares (config : VaultConfig) : Routine σ PUnit := do
  let log ← call (env.client.executionLog (.execution (.vault owner)))
  (chunk (unpaidIndices (log.elim 0 (·.solPaidMask)) config.beneficiaries.length) batch).forM
    (env.crankExecuteSolShares agent owner config)

/-- What the screen still shows of an earlier run is cleared. -/
def clearStale (config : VaultConfig) : Routine σ PUnit := do
  let last ← call (env.getLastCompletedStep owner)
  if 0 ≤ last ∧ config.executed = false then call (env.clearMirror owner)

/-- Steps 1 to 5, with nothing where there is no vault. -/
def distribute : Routine σ (Option Pass) := do
  let start ← answer env.now
  env.waitForOnChainDeadline owner start maxPolls
  match ← fetchVaultConfig env.client (.vault owner) with
  | none => return none
  | some config =>
    env.clearStale owner config
    let agent ← call env.getKeypair
    let largestBenef ← largestShareWallet config.beneficiaries
    env.beginExecution agent owner config.hasAssetPlan
    let held ← heldMints env.client (.vault owner)
    let plan ← fetchAssetPlan env.client (.vault owner) config.hasAssetPlan
    let mints := selectMints held plan
    mints.forM (env.beginTokenDist agent owner config.hasAssetPlan)
    env.specificBequests agent owner config plan
    env.solShares agent owner config
    return some { agent, owner, config, mints, largestBenef }

/-- 6. The gate of the finalization: both masks are full. A plan that cannot be parsed counts as
    paid. -/
def finalizeDue (pass : Pass) : Routine σ Bool := do
  let log ← call (env.client.executionLog (.execution (.vault pass.owner)))
  let plan ← fetchAssetPlan env.client (.vault pass.owner) pass.config.hasAssetPlan
  let solDone := log.any fun log =>
    decide (log.solPaidMask = fullMaskU32 pass.config.beneficiaries.length)
  let assetDone := plan.all fun plan => decide (plan.paidMask = fullMaskU64 plan.assignments.length)
  return log.any (fun log => !log.completed) && solDone && assetDone

def finalize (pass : Pass) : Routine σ PUnit := do
  if ← env.finalizeDue pass then
    env.crankFinalize pass.agent pass.owner pass.config.hasAssetPlan

/-- 7. The shares of a mint's residual. -/
def tokenShares (pass : Pass) (mint : Pubkey) : Routine σ PUnit := do
  if ← isStuck mint then pure ⟨⟩
  else
    match ← call (env.client.tokenDist (.tokenDist (.vault pass.owner) mint)) with
    | none => pure ⟨⟩
    | some td =>
      tryCatch ((chunk (unpaidIndices td.paidMask pass.config.beneficiaries.length) batch).forM
        (env.crankExecuteTokenShares pass.agent pass.owner pass.config mint)) fun _ =>
          markStuck mint .executeTokenShares

/-- 8. Close a TokenDist whose shares are paid. -/
def closeTokenDist (pass : Pass) (mint : Pubkey) : Routine σ PUnit := do
  if ← isStuck mint then pure ⟨⟩
  else
    match ← call (env.client.tokenDist (.tokenDist (.vault pass.owner) mint)) with
    | none => pure ⟨⟩
    | some td =>
      if td.paidMask = fullMaskU32 pass.config.beneficiaries.length then
        tryCatch (env.crankCloseTokenDist pass.agent pass.owner mint pass.largestBenef) fun _ =>
          markStuck mint .closeTokenDist

/-- Steps 6 to 9: whether the store is told that the execution is over. -/
def conclude (pass : Pass) : Routine σ Bool := do
  env.finalize pass
  pass.mints.forM (env.tokenShares pass)
  pass.mints.forM (env.closeTokenDist pass)
  let log ← call (env.client.executionLog (.execution (.vault pass.owner)))
  return log.any (·.completed)

/-- `executionInProgress` tells whether another pass is running. Whatever escapes a step ends the
    pass. -/
def execute (executionInProgress : Bool) : Routine σ Bool :=
  if executionInProgress then pure false
  else
    tryCatch (do
      match ← env.distribute owner with
      | none => return false
      | some pass => env.conclude pass) fun _ => pure false

end ExecutionEnv

end DeadMansVault.Device
