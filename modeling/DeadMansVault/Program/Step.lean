-- SUMMARY: Instructions, the environment around the program, and the runs of the whole system.
import DeadMansVault.Library.Trace
import DeadMansVault.Program.Instructions.Setup
import DeadMansVault.Program.Instructions.Plan
import DeadMansVault.Program.Instructions.Begin
import DeadMansVault.Program.Instructions.Payout
import DeadMansVault.Program.Instructions.Finish

/-!
# The system

A run interleaves instructions of the program, accepted or rejected, with steps
of the environment: the clock moves on, anyone moves lamports and tokens of
their own, token accounts and mints come and go. The environment cannot take
from an address the program controls; that much the runtime and the token
programs guarantee, and nothing else about it is assumed.
-/

namespace DeadMansVault

inductive Instruction
  | initializeVault (ctx : InitializeVault) (params : InitializeVaultParams)
  | updateVault (ctx : UpdateVault) (params : UpdateVaultParams)
  | recordHeartbeat (ctx : RecordHeartbeat) (method : HeartbeatMethod)
  | rotateAgent (ctx : RotateAgent) (newAgentPubkey : Pubkey)
  | revokeVault (ctx : RevokeVault)
  | closeRevokedVault (ctx : CloseRevokedVault)
  | closeExecutedVaultByOwner (ctx : CloseExecutedVaultByOwner)
  | closeExecutedVault (ctx : CloseExecutedVault)
  | withdrawFromVault (ctx : WithdrawFromVault) (amount : Nat)
  | withdrawSolFromVault (ctx : WithdrawSolFromVault) (amount : Nat)
  | setAssetPlan (ctx : SetAssetPlan) (assignments : List AssetAssignment)
  | updateAssetPlan (ctx : UpdateAssetPlan) (assignments : List AssetAssignment)
  | clearAssetPlan (ctx : ClearAssetPlan)
  | beginExecution (ctx : BeginExecution)
  | beginTokenDist (ctx : BeginTokenDist)
  | executeSpecificAsset (ctx : ExecuteSpecificAsset) (assignmentIndex : Nat)
  | executeSpecificSol (ctx : ExecuteSpecificSol) (assignmentIndex : Nat)
  | executeSolShares (ctx : ExecuteSolShares) (indices : List Nat)
  | executeTokenShares (ctx : ExecuteTokenShares) (indices : List Nat)
  | finalizeExecution (ctx : FinalizeExecution)
  | closeTokenDist (ctx : CloseTokenDist)

namespace Instruction

/-- The one account that signs. -/
def signer : Instruction → Pubkey
  | initializeVault ctx _ => ctx.owner
  | updateVault ctx _ => ctx.owner
  | recordHeartbeat ctx _ => ctx.agent
  | rotateAgent ctx _ => ctx.owner
  | revokeVault ctx => ctx.owner
  | closeRevokedVault ctx => ctx.owner
  | closeExecutedVaultByOwner ctx => ctx.owner
  | closeExecutedVault ctx => ctx.payer
  | withdrawFromVault ctx _ => ctx.owner
  | withdrawSolFromVault ctx _ => ctx.owner
  | setAssetPlan ctx _ => ctx.owner
  | updateAssetPlan ctx _ => ctx.owner
  | clearAssetPlan ctx => ctx.owner
  | beginExecution ctx => ctx.payer
  | beginTokenDist ctx => ctx.payer
  | executeSpecificAsset ctx _ => ctx.payer
  | executeSpecificSol ctx _ => ctx.payer
  | executeSolShares ctx _ => ctx.payer
  | executeTokenShares ctx _ => ctx.payer
  | finalizeExecution ctx => ctx.payer
  | closeTokenDist ctx => ctx.payer

/-- The vault the instruction works on. -/
def vaultKey : Instruction → Pubkey
  | initializeVault ctx _ => ctx.vaultConfig
  | updateVault ctx _ => ctx.vaultConfig
  | recordHeartbeat ctx _ => ctx.vaultConfig
  | rotateAgent ctx _ => ctx.vaultConfig
  | revokeVault ctx => ctx.vaultConfig
  | closeRevokedVault ctx => ctx.vaultConfig
  | closeExecutedVaultByOwner ctx => ctx.vaultConfig
  | closeExecutedVault ctx => ctx.vaultConfig
  | withdrawFromVault ctx _ => ctx.vaultConfig
  | withdrawSolFromVault ctx _ => ctx.vaultConfig
  | setAssetPlan ctx _ => ctx.vaultConfig
  | updateAssetPlan ctx _ => ctx.vaultConfig
  | clearAssetPlan ctx => ctx.vaultConfig
  | beginExecution ctx => ctx.vaultConfig
  | beginTokenDist ctx => ctx.vaultConfig
  | executeSpecificAsset ctx _ => ctx.vaultConfig
  | executeSpecificSol ctx _ => ctx.vaultConfig
  | executeSolShares ctx _ => ctx.vaultConfig
  | executeTokenShares ctx _ => ctx.vaultConfig
  | finalizeExecution ctx => ctx.vaultConfig
  | closeTokenDist ctx => ctx.vaultConfig

/-- Run the handler of the instruction. -/
def dispatch (c : Cluster) (s : World) : Instruction → Except ProgramError World
  | initializeVault ctx params => DeadMansVault.initializeVault c ctx params s
  | updateVault ctx params => DeadMansVault.updateVault c ctx params s
  | recordHeartbeat ctx method => DeadMansVault.recordHeartbeat ctx method s
  | rotateAgent ctx newAgentPubkey => DeadMansVault.rotateAgent ctx newAgentPubkey s
  | revokeVault ctx => DeadMansVault.revokeVault ctx s
  | closeRevokedVault ctx => DeadMansVault.closeRevokedVault ctx s
  | closeExecutedVaultByOwner ctx => DeadMansVault.closeExecutedVaultByOwner c ctx s
  | closeExecutedVault ctx => DeadMansVault.closeExecutedVault c ctx s
  | withdrawFromVault ctx amount => DeadMansVault.withdrawFromVault c ctx amount s
  | withdrawSolFromVault ctx amount => DeadMansVault.withdrawSolFromVault c ctx amount s
  | setAssetPlan ctx assignments => DeadMansVault.setAssetPlan c ctx assignments s
  | updateAssetPlan ctx assignments => DeadMansVault.updateAssetPlan ctx assignments s
  | clearAssetPlan ctx => DeadMansVault.clearAssetPlan ctx s
  | beginExecution ctx => DeadMansVault.beginExecution c ctx s
  | beginTokenDist ctx => DeadMansVault.beginTokenDist c ctx s
  | executeSpecificAsset ctx j => DeadMansVault.executeSpecificAsset c ctx j s
  | executeSpecificSol ctx j => DeadMansVault.executeSpecificSol c ctx j s
  | executeSolShares ctx indices => DeadMansVault.executeSolShares ctx indices s
  | executeTokenShares ctx indices => DeadMansVault.executeTokenShares c ctx indices s
  | finalizeExecution ctx => DeadMansVault.finalizeExecution c ctx s
  | closeTokenDist ctx => DeadMansVault.closeTokenDist c ctx s

end Instruction

/-- The world as the next instruction finds it: nothing has moved yet. -/
@[simps] def World.fresh (s : World) : World := { s with moved := [] }

/-- Process one instruction. A failure rolls everything back, so it has no
    resulting world. -/
def exec (c : Cluster) (i : Instruction) (s : World) : Except ProgramError World :=
  i.dispatch c s.fresh

/-! ## The environment -/

/-- What each account of the token program holds of `mint`. -/
def World.mintLedger (c : Cluster) (s : World) (mint k : Pubkey) : Nat :=
  match s.tokenAccounts k with
  | some account =>
    if account.program = some (c.tokenProgram mint) ∧ account.mint = mint then s.tokenAmounts k
    else 0
  | none => 0

/-- What the runtime and the token programs maintain, whoever acts. -/
structure World.Regular (c : Cluster) (s : World) : Prop where
  clock : i64Min ≤ s.now ∧ s.now ≤ i64Max
  /-- All lamports together fit a `u64`. -/
  lamportSupply : Ledger.Bounded s.lamports u64Max
  /-- The supply of a mint fits a `u64`. -/
  tokenSupply : ∀ mint, Ledger.Bounded (s.mintLedger c mint) u64Max
  vacant : ∀ k, s.tokenAccounts k = none → s.tokenAmounts k = 0
  /-- The token account at an associated address of a vault is the vault's. -/
  vaultAtas : ∀ owner mint program account,
    s.tokenAccounts (.associatedToken (.vault owner) mint program) = some account →
    account = ⟨some program, mint, .vault owner⟩
  /-- The zero key is the system program, not a mint. -/
  defaultMint : s.mints .default = none

/-- Addresses whose lamports only this program can debit. -/
def Pubkey.programControlled : Pubkey → Prop
  | .vault _ | .heartbeat _ | .execution _ | .assetPlan _ | .tokenDist _ _ => True
  | _ => False

/-- A step of everyone else. -/
structure Environment (c : Cluster) (s s' : World) : Prop where
  regular : s'.Regular c
  clock : s.now ≤ s'.now
  vaultConfigs : s'.vaultConfigs = s.vaultConfigs
  heartbeatRecords : s'.heartbeatRecords = s.heartbeatRecords
  assetPlans : s'.assetPlans = s.assetPlans
  executionLogs : s'.executionLogs = s.executionLogs
  tokenDists : s'.tokenDists = s.tokenDists
  lamports : ∀ k, k.programControlled → s.lamports k ≤ s'.lamports k
  /-- Only the vault itself moves tokens out of its token accounts. -/
  vaultTokens : ∀ k account owner, s.tokenAccounts k = some account →
    account.program.isSome = true → account.owner = .vault owner →
    s'.tokenAccounts k = some account ∧ s.tokenAmounts k ≤ s'.tokenAmounts k

/-! ## Runs -/

inductive Event
  | executed (i : Instruction) (moved : List Movement)
  | rejected (i : Instruction) (e : ProgramError)
  | environment

def Event.moved : Event → List Movement
  | executed _ moved => moved
  | _ => []

inductive Step (c : Cluster) : World → Event → World → Prop
  | executed {i : Instruction} {s s' : World} :
      exec c i s = .ok s' → Step c s (.executed i s'.moved) s'
  | rejected {i : Instruction} {s : World} {e : ProgramError} :
      exec c i s = .error e → Step c s (.rejected i e) s
  | environment {s s' : World} : Environment c s s' → Step c s .environment s'

/-- No account of the program exists yet. -/
structure Initial (c : Cluster) (s : World) : Prop where
  regular : s.Regular c
  vaultConfigs : ∀ k, s.vaultConfigs k = none
  heartbeatRecords : ∀ k, s.heartbeatRecords k = none
  assetPlans : ∀ k, s.assetPlans k = none
  executionLogs : ∀ k, s.executionLogs k = none
  tokenDists : ∀ k, s.tokenDists k = none

def Reachable (c : Cluster) (s : World) : Prop :=
  ∃ s₀ es, Initial c s₀ ∧ Trace (Step c) s₀ es s

theorem Reachable.initial {c : Cluster} {s : World} (h : Initial c s) : Reachable c s :=
  ⟨s, [], h, .nil s⟩

theorem Reachable.trace {c : Cluster} {s s' : World} {es : List Event} (h : Reachable c s)
    (hrun : Trace (Step c) s es s') : Reachable c s' := by
  obtain ⟨s₀, es₀, hinit, hpre⟩ := h
  exact ⟨s₀, es₀ ++ es, hinit, hpre.append hrun⟩

theorem Reachable.step {c : Cluster} {s s' : World} {e : Event} (h : Reachable c s)
    (hstep : Step c s e s') : Reachable c s' :=
  h.trace (.single hstep)

/-- An invariant of every run: it holds before any account exists and every step
    keeps it. -/
theorem Reachable.invariant {c : Cluster} {P : World → Prop} (hinit : ∀ s, Initial c s → P s)
    (hstep : ∀ s e s', P s → Step c s e s' → P s') {s : World} (h : Reachable c s) : P s := by
  obtain ⟨s₀, es, h₀, hrun⟩ := h
  exact hrun.preserves hstep (hinit s₀ h₀)

end DeadMansVault
