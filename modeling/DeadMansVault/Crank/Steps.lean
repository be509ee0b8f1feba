-- SUMMARY: The steps that the two cranks share: selection of the mints, the payouts, the finalization, the closings.
import DeadMansVault.Crank.Client

/-!
# The steps of a crank

The server's executor and the keeper submit the same sequence of instructions.
Here each step takes what differs between the two as a `Job`: the client, the
payer, the guard and the message with which it revokes.
-/

namespace DeadMansVault.Crank

structure Job (σ : Type) where
  client : Client σ
  payer : Pubkey
  vault : Pubkey
  guard : Routine σ PUnit
  /-- The message of the guard's error. -/
  revoked : String

variable {σ : Type}

/-! ## Mints -/

structure MintInfo where
  programId : ProgramId
  amount : Nat
  inPlan : Bool

/-- A map from mints in the order of their insertion. -/
abbrev MintMap := List (Pubkey × MintInfo)

def MintMap.get (info : MintMap) (mint : Pubkey) : Option MintInfo :=
  (info.find? fun entry => entry.1 = mint).map (·.2)

def MintMap.set (info : MintMap) (mint : Pubkey) (v : MintInfo) : MintMap :=
  if info.any fun entry => entry.1 = mint then
    info.map fun entry => if entry.1 = mint then (mint, v) else entry
  else info ++ [(mint, v)]

/-- A held token account; a mint may have several. -/
def addHeld (programId : ProgramId) (info : MintMap) (account : Pubkey × Nat) : MintMap :=
  if account.2 = 0 then info
  else
    let prev := info.get account.1
    info.set account.1 {
      programId := programId
      amount := (prev.map (·.amount)).getD 0 + account.2
      inPlan := (prev.map (·.inPlan)).getD false }

/-- `getAccountInfoRetry`, with so many tries left. -/
def getAccountInfoRetry (client : Client σ) (key : Pubkey) : Nat → Routine σ (Option ProgramId)
  | 0 => pure none
  | tries + 1 => do
    let acc ← tryCatch (call (client.accountInfo key)) fun e =>
      if e.name ≠ "TimeoutError" ∧ isOperational e = false then throw e else pure none
    match acc with
    | some owner => pure (some owner)
    | none => getAccountInfoRetry client key tries

/-- A bequeathed mint is kept even where the vault holds none of it. `expire` is what bounds the
    lookup: it throws once the time of the run is up. -/
def addPlanned (client : Client σ) (expire : Routine σ PUnit) (info : MintMap)
    (a : AssetAssignment) : Routine σ MintMap :=
  if a.mint = .default then pure info
  else match info.get a.mint with
  | some prev => pure (info.set a.mint { prev with inPlan := true })
  | none => do
    let owner ← getAccountInfoRetry client a.mint 4
    expire
    match owner with
    | some owner => pure (info.set a.mint { programId := owner, amount := 0, inPlan := true })
    | none => pure info

/-- Bound on the mints whose rent a run pays, beyond those of the plan. -/
def maxAutoMints : Nat := 16

/-- The mints of a run: those of the plan, then the largest balances up to the cap. -/
def chooseMints (info : MintMap) : List (Pubkey × ProgramId) :=
  let planMints := info.filter fun entry => entry.2.inPlan
  let heldOnly := (info.filter fun entry => !entry.2.inPlan).insertionSort
    fun a b => b.2.amount ≤ a.2.amount
  (planMints ++ heldOnly.take (maxAutoMints - planMints.length)).map fun entry =>
    (entry.1, entry.2.programId)

def collectMints (client : Client σ) (expire : Routine σ PUnit) (vault : Pubkey)
    (plan : Option AssetPlan) : Routine σ (List (Pubkey × ProgramId)) := do
  let classic ← call (client.tokenAccountsByOwner vault .token)
  let extended ← call (client.tokenAccountsByOwner vault .token2022)
  let held := extended.foldl (addHeld (.token .token2022))
    (classic.foldl (addHeld (.token .token)) [])
  match plan with
  | none => return chooseMints held
  | some plan => return chooseMints (← plan.assignments.foldlM (addPlanned client expire) held)

/-! ## Submissions -/

namespace Job

variable (job : Job σ)

/-- Create a token account if it is missing. -/
def ensureAta (ata mint owner : Pubkey) (programId : ProgramId) : Routine σ PUnit := do
  match ← call (job.client.accountInfo ata) with
  | some _ => pure ⟨⟩
  | none => do
    job.guard
    submit job.client (.createAta ata owner mint programId)

/-- The `catch` around the work on one asset: a revocation and an unknown fault escape. -/
def attempt (body giveUp : Routine σ PUnit) : Routine σ PUnit :=
  tryCatch body fun e =>
    if e.message = job.revoked then throw e
    else if isOperational e = false then throw e
    else giveUp

def optionalPlan (hasPlan : Bool) : Option Pubkey :=
  if hasPlan then some (.assetPlan job.vault) else none

/-- 1. Snapshot the SOL residual. -/
def beginExecution (hasPlan : Bool) : Routine σ PUnit := do
  match ← call (job.client.executionLog (.execution job.vault)) with
  | some _ => pure ⟨⟩
  | none => do
    job.guard
    submit job.client (.invoke (.beginExecution {
      payer := job.payer
      vaultConfig := job.vault
      heartbeatRecord := .heartbeat job.vault
      executionLog := .execution job.vault
      assetPlan := job.optionalPlan hasPlan }))
    let _ ← fetch (job.client.executionLog (.execution job.vault))

/-- 2. Freeze the residual of a mint. -/
def beginTokenDist (hasPlan : Bool) (entry : Pubkey × ProgramId) : Routine σ PUnit := do
  let (mint, programId) := entry
  match ← call (job.client.tokenDist (.tokenDist job.vault mint)) with
  | some _ => pure ⟨⟩
  | none =>
    job.attempt (do
      let vaultAta ← getAssociatedTokenAddress job.client mint job.vault true programId
      job.ensureAta vaultAta mint job.vault programId
      job.guard
      submit job.client (.invoke (.beginTokenDist {
        payer := job.payer
        vaultConfig := job.vault
        executionLog := .execution job.vault
        mint := mint
        vaultAta := vaultAta
        assetPlan := job.optionalPlan hasPlan
        tokenDist := .tokenDist job.vault mint })))
      (markStuck mint .beginTokenDist)

/-- 3. A bequest that is not paid yet. -/
def specificBequest (beneficiaries : List Beneficiary) (mints : List (Pubkey × ProgramId))
    (paidMask : BitVec 64) (entry : AssetAssignment × Nat) : Routine σ PUnit := do
  let (a, j) := entry
  if bitSet paidMask j then pure ⟨⟩
  else
    let isSol : Bool := decide (a.mint = .default)
    if !isSol && (← isStuck a.mint) then pure ⟨⟩
    else
      let benWallet ← walletAt beneficiaries a.beneficiaryIndex
      job.attempt (do
        if isSol then
          job.guard
          submit job.client (.invoke (.executeSpecificSol {
            payer := job.payer
            vaultConfig := job.vault
            executionLog := .execution job.vault
            assetPlan := .assetPlan job.vault
            beneficiary := benWallet } j))
        else
          let programId := ((mints.find? fun m => m.1 = a.mint).map (·.2)).getD (.token .token)
          let vaultAta ← getAssociatedTokenAddress job.client a.mint job.vault true programId
          let benAta ← getAssociatedTokenAddress job.client a.mint benWallet false programId
          job.ensureAta benAta a.mint benWallet programId
          job.guard
          submit job.client (.invokeWith programId [] fun program => .executeSpecificAsset {
            payer := job.payer
            vaultConfig := job.vault
            executionLog := .execution job.vault
            assetPlan := .assetPlan job.vault
            mint := a.mint
            tokenDist := .tokenDist job.vault a.mint
            vaultAta := vaultAta
            beneficiaryAta := benAta
            tokenProgram := program } j))
        (if isSol then record .skippedSol else markStuck a.mint .executeSpecificAsset)

def unpaid (beneficiaries : List Beneficiary) (paidMask : BitVec 32) : List Nat :=
  (List.range beneficiaries.length).filter fun i => !bitSet paidMask i

/-- 4. The SOL shares of one batch. -/
def solShares (beneficiaries : List Beneficiary) (part : List Nat) : Routine σ PUnit := do
  job.guard
  let accounts ← part.mapM fun i => do
    return (⟨← walletAt beneficiaries i, true⟩ : AccountMeta)
  submit job.client (.invoke (.executeSolShares {
    payer := job.payer
    vaultConfig := job.vault
    executionLog := .execution job.vault
    remainingAccounts := accounts } part))

end Job

/-- Finalize on fresh masks, and never while a mint is stuck: its residual would be stranded. -/
def shouldFinalize (log : ExecutionLog) (plan : Option AssetPlan) (benCount stuckCount : Nat) : Bool :=
  if log.completed then false
  else if 0 < stuckCount then false
  else
    let solFull := decide (log.solPaidMask.toNat = fullMask benCount)
    let planFull := match plan with
      | none => true
      | some plan => decide (plan.paidMask.toNat = fullMask plan.assignments.length)
    solFull && planFull

namespace Job

variable (job : Job σ)

/-- The plan that the vault's flag says is there. -/
def fetchPlan (hasPlan : Bool) : Routine σ (Option AssetPlan) :=
  if hasPlan then do
    let plan ← fetch (job.client.assetPlan (.assetPlan job.vault))
    pure (some plan)
  else pure none

/-- 5. Finalize once everything is paid. -/
def finalize (beneficiaries : List Beneficiary) (hasPlan : Bool) : Routine σ PUnit := do
  let log ← fetch (job.client.executionLog (.execution job.vault))
  let plan ← job.fetchPlan hasPlan
  if shouldFinalize log plan beneficiaries.length (← get).stuckMints.length then
    job.guard
    submit job.client (.invoke (.finalizeExecution {
      payer := job.payer
      vaultConfig := job.vault
      executionLog := .execution job.vault
      assetPlan := job.optionalPlan hasPlan }))

/-- The token account of the beneficiary at this index, created if it is missing. -/
def shareAccount (beneficiaries : List Beneficiary) (mint : Pubkey) (programId : ProgramId)
    (i : Nat) : Routine σ AccountMeta := do
  let wallet ← walletAt beneficiaries i
  let benAta ← getAssociatedTokenAddress job.client mint wallet false programId
  job.ensureAta benAta mint wallet programId
  return ⟨benAta, true⟩

/-- 6. The shares of a mint's residual. -/
def tokenShares (beneficiaries : List Beneficiary) (entry : Pubkey × ProgramId) :
    Routine σ PUnit := do
  let (mint, programId) := entry
  if ← isStuck mint then pure ⟨⟩
  else
    match ← call (job.client.tokenDist (.tokenDist job.vault mint)) with
    | none => pure ⟨⟩
    | some td =>
      job.attempt (do
        let vaultAta ← getAssociatedTokenAddress job.client mint job.vault true programId
        (chunk (unpaid beneficiaries td.paidMask) batch).forM fun part => do
          let remaining ← part.mapM (job.shareAccount beneficiaries mint programId)
          job.guard
          submit job.client (.invokeWith programId [] fun program => .executeTokenShares {
            payer := job.payer
            vaultConfig := job.vault
            tokenDist := .tokenDist job.vault mint
            mint := mint
            vaultAta := vaultAta
            tokenProgram := program
            remainingAccounts := remaining } part))
        (markStuck mint .executeTokenShares)

/-- What is left in the vault's token account, as far as it can be read. -/
def dust (vaultAta : Pubkey) (programId : ProgramId) : Routine σ (Nat × Nat) :=
  tryCatch (call (job.client.tokenAccount vaultAta programId)) fun e =>
    if e.name ≠ "TokenAccountNotFoundError" ∧ e.name ≠ "TokenInvalidAccountOwnerError" ∧
        isOperational e = false then throw e
    else pure (0, 0)

/-- Where the dust goes, created if it is missing. -/
def dustAccount (mint maxWallet : Pubkey) (programId : ProgramId) (dust : Nat) :
    Routine σ (Option Pubkey) :=
  if 0 < dust then do
    let dustAta ← getAssociatedTokenAddress job.client mint maxWallet false programId
    job.ensureAta dustAta mint maxWallet programId
    pure (some dustAta)
  else pure none

/-- 7. Close a mint's TokenDist once its shares are paid. -/
def closeTokenDist (owner : Pubkey) (beneficiaries : List Beneficiary)
    (entry : Pubkey × ProgramId) : Routine σ PUnit := do
  let (mint, programId) := entry
  if ← isStuck mint then pure ⟨⟩
  else
    match ← call (job.client.tokenDist (.tokenDist job.vault mint)) with
    | none => pure ⟨⟩
    | some td =>
      if td.paidMask.toNat ≠ fullMask beneficiaries.length then pure ⟨⟩
      else
        job.attempt (do
          let vaultAta ← getAssociatedTokenAddress job.client mint job.vault true programId
          let maxWallet ← walletAt beneficiaries (largestShareIndex beneficiaries)
          let (dust, withheld) ← job.dust vaultAta programId
          let dustAta ← job.dustAccount mint maxWallet programId dust
          job.guard
          let preIxs := if 0 < withheld then [vaultAta] else []
          submit job.client (.invokeWith programId preIxs fun program =>
            .closeTokenDist {
              payer := job.payer
              owner := owner
              vaultConfig := job.vault
              mint := mint
              vaultAta := vaultAta
              tokenDist := .tokenDist job.vault mint
              largestBenefAta := dustAta
              tokenProgram := program }))
          (markStuck mint .closeTokenDist)

end Job

end DeadMansVault.Crank
