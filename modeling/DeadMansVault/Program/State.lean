-- SUMMARY: The five accounts the program owns, field by field.
import DeadMansVault.Program.Constants

/-!
# Program accounts

Amounts and counters are natural numbers and timestamps are integers; the
handlers carry the machine bounds where they matter. The paid-masks keep their
width, since every test on them is a bit operation.
-/

namespace DeadMansVault

structure Beneficiary where
  wallet : Pubkey
  shareBps : Nat
  deriving DecidableEq, Repr

structure VaultConfig where
  owner : Pubkey
  agentPubkey : Pubkey
  heartbeatInterval : Int
  gracePeriod : Int
  beneficiaries : List Beneficiary
  executed : Bool
  active : Bool
  createdAt : Int
  updatedAt : Int
  isMutable : Bool
  hasAssetPlan : Bool
  openTokenDists : Nat
  keeperBounty : Nat
  deriving DecidableEq, Repr

def VaultConfig.space : Nat :=
  8 + 32 + 32 + 8 + 8 + (4 + maxBeneficiaries * (32 + 2)) + 1 + 1 + 8 + 8 + 1 + 1 + 1 + 2 + 8 + 53

inductive HeartbeatMethod
  | activeTap
  | biometricConfirm
  | onChainActivity
  | pinChallenge
  | hardwareSwitch
  deriving DecidableEq, Repr

structure HeartbeatRecord where
  vault : Pubkey
  lastHeartbeat : Int
  lastMethod : HeartbeatMethod
  totalHeartbeats : Nat
  deriving DecidableEq, Repr

def HeartbeatRecord.space : Nat := 8 + 32 + 8 + 1 + 8 + 1 + 32

structure AssetAssignment where
  /-- The bequeathed mint; `Pubkey.default` for a SOL bequest. -/
  mint : Pubkey
  amount : Nat
  beneficiaryIndex : Nat
  isNft : Bool
  deriving DecidableEq, Repr

structure AssetPlan where
  vault : Pubkey
  assignments : List AssetAssignment
  /-- Bit `j` is set when assignment `j` has been executed. -/
  paidMask : BitVec 64
  deriving DecidableEq, Repr

def AssetPlan.space : Nat := 8 + 32 + (4 + maxAssignments * 42) + 8 + 1

structure ExecutionLog where
  vault : Pubkey
  solSnapshot : Nat
  /-- Bit `i` is set when beneficiary `i` has been paid their SOL share. -/
  solPaidMask : BitVec 32
  startedAt : Int
  completed : Bool
  transferCount : Nat
  totalSolDistributed : Nat
  deriving DecidableEq, Repr

def ExecutionLog.space : Nat := 8 + 32 + 8 + 4 + 8 + 1 + 4 + 8 + 1 + 64

structure TokenDist where
  vault : Pubkey
  mint : Pubkey
  snapshot : Nat
  /-- Bit `i` is set when beneficiary `i` has been paid this token's share. -/
  paidMask : BitVec 32
  deriving DecidableEq, Repr

def TokenDist.space : Nat := 8 + 32 + 32 + 8 + 4 + 1 + 32

end DeadMansVault
