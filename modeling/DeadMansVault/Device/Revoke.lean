-- SUMMARY: The owner's exit: everything is withdrawn in batches, the vault is revoked or closed, and the device is cleared.
import DeadMansVault.Device.Claim

/-!
# Exits

The owner gives the vault up from the app. The lamports of the agent's key go back to the owner
first. An active vault is emptied by withdrawals, packed in batches, of which the last revokes it;
an executed one is closed. Then the key is destroyed and the stores are reset. The amounts shown
to the user are in lamports here.
-/

namespace DeadMansVault.Device

open Crank

variable {σ : Type}

/-- What an exit calls, besides what a claim does. -/
structure RevokeEnv (σ : Type) extends ClaimEnv σ where
  getBalance : Pubkey → σ → Except JsError Int × σ
  /-- `getAccountInfo` of the vault: its lamports, and the length of its data. -/
  vaultInfo : Pubkey → σ → Except JsError (Option (Nat × Nat)) × σ
  getMinimumBalanceForRentExemption : Nat → σ → Except JsError Nat × σ
  hasAgentKey : σ → Except JsError Bool × σ
  getKeypair : σ → Except JsError Pubkey × σ
  /-- A transfer of lamports that the agent's key signs, sent and confirmed. -/
  transferFrom : Pubkey → Pubkey → Int → σ → Except JsError Unit × σ
  destroyKey : σ → Except JsError Unit × σ
  /-- The stores of the vault, the heartbeat and the escalation. -/
  resetStores : σ → σ
  /-- The setting `heartbeat_config`. -/
  deleteSetting : σ → Except JsError Unit × σ

/-! ## The agent's lamports -/

structure AgentRefund where
  refunded : Bool := false
  lamports : Int := 0
  alreadyEmpty : Bool := false
  error : String := ""

namespace RevokeEnv

variable (env : RevokeEnv σ) (owner : Pubkey)

/-- `FEE_RESERVE` -/
def feeReserve : Int := 5000

/-- Whether there was anything to sweep. -/
def refundAgentSol (agent : Pubkey) : Routine σ Bool := do
  let balance ← call (env.getBalance agent)
  if balance - feeReserve ≤ 0 then return false
  else
    call (env.transferFrom agent owner (balance - feeReserve))
    return true

/-- Whatever fails is only told to the user. -/
def refundAgent : Routine σ AgentRefund :=
  tryCatch (do
    if ← call env.hasAgentKey then
      let agent ← call env.getKeypair
      let agentBal ← call (env.getBalance agent)
      if 10000 < agentBal then
        let refunded ← env.refundAgentSol owner agent
        return { refunded, lamports := if refunded then agentBal - feeReserve else 0 }
      else return { alreadyEmpty := true }
    else return { error := "no agent key on this device" }) fun e =>
      return { error := if e.message = "" then "Unknown error" else e.message }

/-! ## Building -/

/-- The mint and the amount of each account of the vault that holds something. -/
def getVaultTokenBalances : Routine σ (List (Pubkey × Nat)) := do
  let classic ← call (env.client.tokenAccountsByOwner (.vault owner) .token)
  let extended ← call (env.client.tokenAccountsByOwner (.vault owner) .token2022)
  return (classic ++ extended).filter fun account => 0 < account.2

/-- The withdrawal of one balance; the account of the owner is created if it cannot be read. -/
def withdrawToken (token : Pubkey × Nat) : Routine σ Transaction := do
  let (mint, amount) := token
  let tokenProgram ← getTokenProgramForMint env.client mint
  let ownerAta ← ataFor env.client mint owner false tokenProgram
  let vaultAta ← ataFor env.client mint (.vault owner) true tokenProgram
  let create ← tryCatch (do
    let _ ← call (env.client.tokenAccount ownerAta (.token tokenProgram))
    return []) fun _ => return [.createAta ownerAta owner mint (.token tokenProgram)]
  return create ++ [.invoke (.withdrawFromVault {
    owner := owner
    vaultConfig := .vault owner
    heartbeatRecord := .heartbeat (.vault owner)
    mint := mint
    sourceTokenAccount := vaultAta
    destinationTokenAccount := ownerAta
    tokenProgram := tokenProgram } amount)]

/-- The withdrawal of what the vault holds above its rent. -/
def withdrawSol : Routine σ Transaction := do
  match ← call (env.vaultInfo (.vault owner)) with
  | none => return []
  | some (lamports, length) =>
    let rent ← call (env.getMinimumBalanceForRentExemption length)
    if lamports ≤ rent then return []
    else return [.invoke (.withdrawSolFromVault {
      owner := owner
      vaultConfig := .vault owner
      heartbeatRecord := .heartbeat (.vault owner) } (lamports - rent))]

/-- The instructions, and how many assets they withdraw. -/
def buildWithdrawAllInstructions : Routine σ (Transaction × Nat) := do
  let vaultTokens ← env.getVaultTokenBalances owner
  let tokens ← vaultTokens.mapM (env.withdrawToken owner)
  let sol ← env.withdrawSol owner
  return (tokens.flatten ++ sol, vaultTokens.length + sol.length)

def assetPlanIfPresent : Routine σ (Option Pubkey) := do
  let config ← fetchVaultConfig env.client (.vault owner)
  return if config.any (·.hasAssetPlan) then some (.assetPlan (.vault owner)) else none

/-- `MAX_IXS_PER_TX` -/
def maxIxsPerTx : Nat := 8

/-- `chunks[chunks.length - 1].push(ix)` -/
def pushLast : List Transaction → Submission → List Transaction
  | [], _ => []
  | [last], ix => [last ++ [ix]]
  | chunk :: rest, ix => chunk :: pushLast rest ix

/-- The withdrawals in batches, with the revoke in the last one: `includeRevoke` is always set. -/
def buildBatchedTxs (withdrawIxs : Transaction) : Routine σ (List Transaction) := do
  let chunks := chunk withdrawIxs maxIxsPerTx
  let assetPlan ← env.assetPlanIfPresent owner
  return pushLast (if chunks = [] then [[]] else chunks) (.invoke (.revokeVault {
    owner := owner
    vaultConfig := .vault owner
    heartbeatRecord := .heartbeat (.vault owner)
    assetPlan := assetPlan }))

def buildCloseExecutedVaultTx : Routine σ Transaction := do
  let config ← fetchVaultConfig env.client (.vault owner)
  let largestBenef ← match config.elim [] (·.beneficiaries) with
    | [] => pure none
    | beneficiaries => some <$> largestShareWallet beneficiaries
  return [.invoke (.closeExecutedVaultByOwner {
    owner := owner
    vaultConfig := .vault owner
    heartbeatRecord := .heartbeat (.vault owner)
    executionLog := .execution (.vault owner)
    assetPlan := if config.any (·.hasAssetPlan) then some (.assetPlan (.vault owner)) else none
    largestBenef := largestBenef })]

/-! ## The exit -/

inductive RevokeStatus
  | revoked (assetCount : Nat)
  | cleared (executed : Bool)
  deriving DecidableEq, Repr

structure RevokeResult where
  status : RevokeStatus
  agent : AgentRefund
  vaultReturned : Int
  totalReturned : Int
  /-- The labels of the transactions, in order. -/
  txs : List String

def notOwnerError : JsError := { name := "NotOwnerError", message := "NOT_OWNER" }

/-- `computeReturnedSol`: zero where a balance is not known. The source divides into SOL, as
    floating-point numbers; here the amounts stay in lamports. -/
def computeReturnedSol (before after : Option Int) (refunded : Int) : Int × Int :=
  match before, after with
  | some before, some after =>
    let total := max 0 (after - before)
    (total, max 0 (total - refunded))
  | _, _ => (0, 0)

/-- The owner signs the transaction, and it is sent and confirmed. -/
def sendOwnerTx (tx : Transaction) : Routine σ PUnit := do
  call (env.signOnly tx)
  env.toClaimEnv.send tx

/-- A balance, where it can be read. -/
def balanceIfKnown : Routine σ (Option Int) :=
  tryCatch (some <$> call (env.getBalance owner)) fun _ => pure none

/-- The device gives up its key and its record of the vault. -/
def clearDevice : Routine σ PUnit := do
  tryCatch (call env.destroyKey) fun _ => pure ⟨⟩
  call fun net => (.ok ⟨⟩, env.resetStores net)
  tryCatch (call env.deleteSetting) fun _ => pure ⟨⟩

def withdrawLabel (count : Nat) (i : Nat) : String :=
  if 1 < count then
    "Withdraw + close vault (" ++ toString (i + 1) ++ "/" ++ toString count ++ ")"
  else "Withdraw + close vault"

/-- The transactions on the vault as it stands: their labels, and what has become of the vault. -/
def leave (vault : Option VaultConfig) : Routine σ (RevokeStatus × List String) := do
  if vault.any fun v => v.active && !v.executed then
    let (withdrawIxs, assetCount) ← env.buildWithdrawAllInstructions owner
    let batchTxs ← env.buildBatchedTxs owner withdrawIxs
    batchTxs.forM env.sendOwnerTx
    return (.revoked assetCount, (List.range batchTxs.length).map (withdrawLabel batchTxs.length))
  else if vault.any (·.executed) then
    let tdTxs ← env.toClaimEnv.buildCloseTokenDistTransactions owner owner
    tdTxs.forM fun step => env.sendOwnerTx step.tx
    let close ← env.buildCloseExecutedVaultTx owner
    env.sendOwnerTx close
    return (.cleared true, tdTxs.map (·.label) ++ ["Close vault & reclaim rent"])
  else return (.cleared false, [])

def revokeVault : Routine σ RevokeResult := do
  let vault ← fetchVaultConfig env.client (.vault owner)
  if vault.any fun v => decide (v.owner ≠ owner) then throw notOwnerError
  else
    let ownerBalBefore ← env.balanceIfKnown owner
    let agent ← env.refundAgent owner
    let (status, labels) ← env.leave owner vault
    env.clearDevice
    let ownerBalAfter ← env.balanceIfKnown owner
    let (totalReturned, vaultReturned) :=
      computeReturnedSol ownerBalBefore ownerBalAfter agent.lamports
    let refundLabel := if agent.refunded then ["Agent key refund"] else []
    return { status, agent, vaultReturned, totalReturned, txs := refundLabel ++ labels }

end RevokeEnv

end DeadMansVault.Device
