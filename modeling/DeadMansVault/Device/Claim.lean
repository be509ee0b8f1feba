-- SUMMARY: A beneficiary's claim: the builder of what remains to be done, and the loop that signs and sends it.
import DeadMansVault.Crank.Client

/-!
# Claims

An heir triggers the distribution from their own wallet. `buildClaimTransactions`
derives what remains to be done from the accounts as they stand; `runClaim` signs and
sends it and builds again, until nothing is left or nothing goes through. The labels
and the progress callback are for the screen.
-/

namespace DeadMansVault.Device

open Crank

variable {σ : Type}

/-- An instruction of a transaction is a submission; the compute budget and the fee are left
out. -/
abbrev Transaction := List Submission

/-- What a claim calls, besides the reads of a crank. -/
structure ClaimEnv (σ : Type) where
  client : Client σ
  getOnChainDeadline : Pubkey → σ → Option Int × σ
  /-- `getSlot`, then `getBlockTime`. -/
  blockTime : σ → Except JsError (Option Int) × σ
  /-- `signOnly`: a recent blockhash, and the wallet's prompt. -/
  signOnly : Transaction → σ → Except JsError Unit × σ
  sendConfirm : Transaction → σ → Except JsError Unit × σ
  toBase58 : Pubkey → String

structure ClaimStep where
  label : String
  tx : Transaction

/-! ## Reads of the transaction service -/

/-- `fetchVaultConfig` turns whatever fails into `null`. -/
def fetchVaultConfig (client : Client σ) (vault : Pubkey) : Routine σ (Option VaultConfig) :=
  tryCatch (call (client.vaultConfig vault)) fun _ => pure none

/-- `getVaultTokenBalances`: the mints of the accounts that hold something. -/
def heldMints (client : Client σ) (vault : Pubkey) : Routine σ (List Pubkey) := do
  let classic ← call (client.tokenAccountsByOwner vault .token)
  let extended ← call (client.tokenAccountsByOwner vault .token2022)
  return ((classic ++ extended).filter fun account => 0 < account.2).map (·.1)

/-- `best` starts as the first beneficiary, and is undefined when there is none. -/
def largestShareWallet : List Beneficiary → Routine σ Pubkey
  | [] => throw typeError
  | first :: rest => pure ((first :: rest).foldl
      (fun best b => if best.shareBps < b.shareBps then b else best) first).wallet

/-- `mintMap.set` -/
def insertMint (mints : List Pubkey) (mint : Pubkey) : List Pubkey :=
  if mint ∈ mints then mints else mints ++ [mint]

/-- The mints held, and then those that the plan bequeaths. -/
def selectMints (held : List Pubkey) (plan : Option AssetPlan) : List Pubkey :=
  (plan.elim [] (·.assignments)).foldl
    (fun mints a => if a.mint = .default then mints else insertMint mints a.mint)
    (held.foldl insertMint [])

def fetchAssetPlan (client : Client σ) (vault : Pubkey) (hasAssetPlan : Bool) :
    Routine σ (Option AssetPlan) :=
  if hasAssetPlan then call (client.assetPlan (.assetPlan vault)) else pure none

def getTokenProgramForMint (client : Client σ) (mint : Pubkey) : Routine σ TokenProgram := do
  let info ← call (client.accountInfo mint)
  return if info = some (.token .token2022) then .token2022 else .token

def ataFor (client : Client σ) (mint owner : Pubkey) (allowOffCurve : Bool)
    (tokenProgram : TokenProgram) : Routine σ Pubkey :=
  getAssociatedTokenAddress client mint owner allowOffCurve (.token tokenProgram)

/-- Create a token account, if there is none yet. -/
def createIfMissing (client : Client σ) (ata owner mint : Pubkey) (tokenProgram : TokenProgram) :
    Routine σ Transaction := do
  match ← call (client.accountInfo ata) with
  | some _ => return []
  | none => return [.createAta ata owner mint (.token tokenProgram)]

/-- `unpaidIndices`; the shift of the host takes the index modulo 32. -/
def unpaidIndices (mask : BitVec 32) (n : Nat) : List Nat :=
  (List.range n).filter fun i => mask.getLsbD (i % 32) = false

/-! ## Building -/

namespace ClaimEnv

variable (env : ClaimEnv σ) (heir owner : Pubkey)

def shortMint (mint : Pubkey) : String := ((env.toBase58 mint).take 4).toString ++ "…"

def optionalPlan (hasAssetPlan : Bool) : Option Pubkey :=
  if hasAssetPlan then some (.assetPlan (.vault owner)) else none

def beginExecutionIx (hasAssetPlan : Bool) : Submission :=
  .invoke (.beginExecution {
    payer := heir
    vaultConfig := .vault owner
    heartbeatRecord := .heartbeat (.vault owner)
    executionLog := .execution (.vault owner)
    assetPlan := optionalPlan owner hasAssetPlan })

def executeSolSharesIx (config : VaultConfig) (batch : List Nat) : Routine σ Submission := do
  let accounts ← batch.mapM fun i => do
    return (⟨← walletAt config.beneficiaries i, true⟩ : AccountMeta)
  return .invoke (.executeSolShares {
    payer := heir
    vaultConfig := .vault owner
    executionLog := .execution (.vault owner)
    remainingAccounts := accounts } batch)

def finalizeExecutionIx (hasAssetPlan : Bool) : Submission :=
  .invoke (.finalizeExecution {
    payer := heir
    vaultConfig := .vault owner
    executionLog := .execution (.vault owner)
    assetPlan := optionalPlan owner hasAssetPlan })

/-- Fresh, only SOL, and few beneficiaries: everything in one transaction. -/
def fastPath (config : VaultConfig) : Routine σ (List ClaimStep) := do
  let shares ← executeSolSharesIx heir owner config (List.range config.beneficiaries.length)
  return [{
    label := "Distribute estate"
    tx := [beginExecutionIx heir owner false, shares, finalizeExecutionIx heir owner false] }]

/-- What opens the distribution of a mint. -/
def snapshotStep (hasAssetPlan : Bool) (mint vaultAta : Pubkey) (tokenProgram : TokenProgram) :
    ClaimStep where
  label := "Snapshot " ++ env.shortMint mint ++ " balance"
  tx := [
    .createAta vaultAta (.vault owner) mint (.token tokenProgram),
    .invoke (.beginTokenDist {
      payer := heir
      vaultConfig := .vault owner
      executionLog := .execution (.vault owner)
      mint := mint
      vaultAta := vaultAta
      assetPlan := optionalPlan owner hasAssetPlan
      tokenDist := .tokenDist (.vault owner) mint })]

def snapshotSteps (hasAssetPlan : Bool) (mint : Pubkey) : Routine σ (List ClaimStep) := do
  match ← call (env.client.tokenDist (.tokenDist (.vault owner) mint)) with
  | some _ => return []
  | none =>
    let tokenProgram ← getTokenProgramForMint env.client mint
    let vaultAta ← ataFor env.client mint (.vault owner) true tokenProgram
    return [env.snapshotStep heir owner hasAssetPlan mint vaultAta tokenProgram]

/-- A bequest that is not paid yet. -/
def bequestSteps (config : VaultConfig) (paidMask : BitVec 64) (entry : AssetAssignment × Nat) :
    Routine σ (List ClaimStep) := do
  let (a, j) := entry
  if bitSet paidMask j then return []
  else
    let benef ← walletAt config.beneficiaries a.beneficiaryIndex
    if a.mint = .default then
      return [{
        label := "Pay bequest #" ++ toString (j + 1) ++ " (SOL)"
        tx := [.invoke (.executeSpecificSol {
          payer := heir
          vaultConfig := .vault owner
          executionLog := .execution (.vault owner)
          assetPlan := .assetPlan (.vault owner)
          beneficiary := benef } j)] }]
    else
      let tokenProgram ← getTokenProgramForMint env.client a.mint
      let vaultAta ← ataFor env.client a.mint (.vault owner) true tokenProgram
      let benefAta ← ataFor env.client a.mint benef false tokenProgram
      let create ← createIfMissing env.client benefAta benef a.mint tokenProgram
      return [{
        label := "Pay bequest #" ++ toString (j + 1)
        tx := create ++ [.invoke (.executeSpecificAsset {
          payer := heir
          vaultConfig := .vault owner
          executionLog := .execution (.vault owner)
          assetPlan := .assetPlan (.vault owner)
          mint := a.mint
          tokenDist := .tokenDist (.vault owner) a.mint
          vaultAta := vaultAta
          beneficiaryAta := benefAta
          tokenProgram := tokenProgram } j)] }]

def solShareStep (config : VaultConfig) (part : List Nat) : Routine σ ClaimStep := do
  return {
    label := "Distribute SOL shares"
    tx := [← executeSolSharesIx heir owner config part] }

/-- The account of a beneficiary, and its creation where it is missing. -/
def shareAccount (config : VaultConfig) (mint : Pubkey) (tokenProgram : TokenProgram) (i : Nat) :
    Routine σ (Pubkey × Transaction) := do
  let wallet ← walletAt config.beneficiaries i
  let ata ← ataFor env.client mint wallet false tokenProgram
  return (ata, ← createIfMissing env.client ata wallet mint tokenProgram)

def tokenShareStep (config : VaultConfig) (mint vaultAta : Pubkey) (tokenProgram : TokenProgram)
    (part : List Nat) : Routine σ ClaimStep := do
  let accounts ← part.mapM (env.shareAccount config mint tokenProgram)
  return {
    label := "Distribute " ++ env.shortMint mint
    tx := accounts.flatMap (·.2) ++ [.invoke (.executeTokenShares {
      payer := heir
      vaultConfig := .vault owner
      tokenDist := .tokenDist (.vault owner) mint
      mint := mint
      vaultAta := vaultAta
      tokenProgram := tokenProgram
      remainingAccounts := accounts.map fun account => ⟨account.1, true⟩ } part)] }

def tokenShareSteps (config : VaultConfig) (mint : Pubkey) : Routine σ (List ClaimStep) := do
  match ← call (env.client.tokenDist (.tokenDist (.vault owner) mint)) with
  | none => return []
  | some td =>
    let tokenProgram ← getTokenProgramForMint env.client mint
    let vaultAta ← ataFor env.client mint (.vault owner) true tokenProgram
    (chunk (unpaidIndices td.paidMask config.beneficiaries.length) batch).mapM
      (env.tokenShareStep heir owner config mint vaultAta tokenProgram)

/-- The steps in the order of the other cranks. -/
def generalPath (config : VaultConfig) (log : Option ExecutionLog) (plan : Option AssetPlan)
    (mints : List Pubkey) : Routine σ (List ClaimStep) := do
  let begins : List ClaimStep := if log.isNone then [{
    label := "Begin distribution"
    tx := [beginExecutionIx heir owner config.hasAssetPlan] }] else []
  let snapshots ← mints.mapM (env.snapshotSteps heir owner config.hasAssetPlan)
  let bequests ← (plan.elim [] (·.assignments.zipIdx)).mapM
    (env.bequestSteps heir owner config (plan.elim 0 (·.paidMask)))
  let solShares ← (chunk (unpaidIndices (log.elim 0 (·.solPaidMask))
    config.beneficiaries.length) batch).mapM (solShareStep heir owner config)
  let finalizes : List ClaimStep := if log.any (·.completed) then [] else [{
    label := "Finalize distribution"
    tx := [finalizeExecutionIx heir owner config.hasAssetPlan] }]
  let tokenShares ← mints.mapM (env.tokenShareSteps heir owner config)
  return begins ++ snapshots.flatten ++ bequests.flatten ++ solShares ++ finalizes ++
    tokenShares.flatten

def buildClaimTransactions : Routine σ (List ClaimStep) := do
  match ← fetchVaultConfig env.client (.vault owner) with
  | none => throw (error "No vault found for this owner.")
  | some config =>
    let log ← call (env.client.executionLog (.execution (.vault owner)))
    let held ← heldMints env.client (.vault owner)
    let plan ← fetchAssetPlan env.client (.vault owner) config.hasAssetPlan
    let mints := selectMints held plan
    if log.isNone ∧ mints = [] ∧ config.hasAssetPlan = false ∧ config.beneficiaries.length ≤ 8 then
      fastPath heir owner config
    else env.generalPath heir owner config log plan mints

/-! ## Closing -/

/-- What closes the distribution of a mint whose shares are all paid. -/
def closeSteps (config : VaultConfig) (largestBenef mint : Pubkey) :
    Routine σ (List ClaimStep) := do
  match ← call (env.client.tokenDist (.tokenDist (.vault owner) mint)) with
  | none => return []
  | some td =>
    if td.paidMask ≠ fullMaskU32 config.beneficiaries.length then return []
    else
      let tokenProgram ← getTokenProgramForMint env.client mint
      let vaultAta ← ataFor env.client mint (.vault owner) true tokenProgram
      let read := call (env.client.tokenAccount vaultAta (.token tokenProgram))
      let dust ← tryCatch (Prod.fst <$> read) fun _ => pure 0
      let largestBenefAta ← if 0 < dust then
          some <$> ataFor env.client mint largestBenef false tokenProgram
        else pure none
      let create ← match largestBenefAta with
        | some ata => createIfMissing env.client ata largestBenef mint tokenProgram
        | none => pure []
      -- Withheld fees are harvested along with the close.
      let withheld ← if tokenProgram = .token2022 then
          tryCatch (Prod.snd <$> read) fun _ => pure 0
        else pure 0
      return [{
        label := "Close " ++ env.shortMint mint ++ " account"
        tx := create ++ [.invokeWith (.token tokenProgram) (if 0 < withheld then [vaultAta] else [])
          fun program => .closeTokenDist {
            payer := heir
            owner := owner
            vaultConfig := .vault owner
            mint := mint
            vaultAta := vaultAta
            tokenDist := .tokenDist (.vault owner) mint
            largestBenefAta := largestBenefAta
            tokenProgram := program }] }]

def buildCloseTokenDistTransactions : Routine σ (List ClaimStep) := do
  match ← fetchVaultConfig env.client (.vault owner) with
  | none => return []
  | some config =>
    let largestBenef ← largestShareWallet config.beneficiaries
    let held ← heldMints env.client (.vault owner)
    let plan ← fetchAssetPlan env.client (.vault owner) config.hasAssetPlan
    let steps ← (selectMints held plan).mapM (env.closeSteps heir owner config largestBenef)
    return steps.flatten

/-! ## The claim -/

/-- Transactions that went through, and what the first failed one threw. -/
structure ClaimProgress where
  steps : Nat := 0
  firstSendError : Option JsError := none

/-- A transaction is handed to the cluster. -/
def send (tx : Transaction) : Routine σ PUnit := do
  tx.forM fun submission => record (.submitted submission)
  call (env.sendConfirm tx)

/-- Sign and send; the heir's refusal escapes, a revert does not. -/
def sendStep (progress : ClaimProgress × Nat) (step : ClaimStep) :
    Routine σ (ClaimProgress × Nat) := do
  call (env.signOnly step.tx)
  tryCatch (do
    env.send step.tx
    return ({ progress.1 with steps := progress.1.steps + 1 }, progress.2 + 1)) fun e =>
      return ({ progress.1 with firstSendError := some (progress.1.firstSendError.getD e) },
        progress.2)

/-- So many passes at most. -/
def passes : Nat → List ClaimStep → ClaimProgress → Routine σ ClaimProgress
  | 0, _, progress => pure progress
  | _ + 1, [], progress => pure progress
  | n + 1, pass, progress => do
    let (progress, progressed) ← pass.foldlM env.sendStep (progress, 0)
    if progressed = 0 then pure progress
    else passes n (← env.buildClaimTransactions heir owner) progress

def maxPasses : Nat := 10

/-- Best effort: a close that fails does not keep the others from being tried. -/
def closeAll (steps : Nat) : Routine σ Nat :=
  tryCatch (do
    let closes ← env.buildCloseTokenDistTransactions heir owner
    closes.foldlM (fun steps step => tryCatch (do
      call (env.signOnly step.tx)
      env.send step.tx
      return steps + 1) fun _ => return steps) steps) fun _ => pure steps

def notClaimable : JsError :=
  error "This estate is not claimable yet — the owner is still active."

def alreadyDistributed : JsError := error "This estate has already been distributed."

/-- The deadline is checked again, where it can be read. -/
def checkDeadline : Routine σ PUnit := do
  match ← call fun net => let (deadline, net) := env.getOnChainDeadline owner net; (.ok deadline, net) with
  | none => pure ⟨⟩
  | some deadline =>
    let blockTime ← call env.blockTime
    if blockTime.any (· < deadline) then throw notClaimable

/-- `claimInProgress` tells whether another claim is running. -/
def runClaim (claimInProgress : Bool) : Routine σ Nat := do
  if claimInProgress then throw (error "A claim is already in progress.")
  else
    env.checkDeadline owner
    let firstPass ← env.buildClaimTransactions heir owner
    if firstPass = [] then throw alreadyDistributed
    else
      let progress ← env.passes heir owner maxPasses firstPass {}
      match progress.steps, progress.firstSendError with
      | 0, some e => throw e
      | steps, _ => env.closeAll heir owner steps

end ClaimEnv

end DeadMansVault.Device
