-- SUMMARY: The app's parsers of raw account bytes: the tested copy, and the copy the transaction service ships.
import DeadMansVault.Library.Buffer

/-!
# Raw accounts

The app parses the program's accounts by hand where the generated deserializer fails
it. `RawAccountParsers` checks the buffer before each read and turns what it throws
into `null`; `VaultTransactionService` computes the length of the whole value and
then reads on trust. What a parse returns is wrapped in `Except`: it may throw, and
it may run off the buffer.
-/

namespace DeadMansVault.Device

/-- A public key, by the number its 32 bytes spell. -/
abbrev PublicKey := BitVec 256

/-- `AccountInfoLike` -/
structure AccountInfo where
  owner : PublicKey
  data : List UInt8
  deriving DecidableEq, Repr

structure RawBeneficiary where
  wallet : PublicKey
  shareBps : Nat
  hasSpecificAssets : Bool
  deriving DecidableEq, Repr

structure RawVaultConfig where
  owner : PublicKey
  agentPubkey : PublicKey
  heartbeatInterval : Int
  gracePeriod : Int
  beneficiaries : List RawBeneficiary
  executed : Bool
  active : Bool
  createdAt : Int
  updatedAt : Int
  bump : Nat
  isMutable : Bool
  hasAssetPlan : Bool
  openTokenDists : Nat
  deriving DecidableEq, Repr

structure RawExecutionLog where
  solSnapshot : Int
  solPaidMask : Nat
  completed : Bool
  deriving DecidableEq, Repr

structure RawAssignment where
  mint : PublicKey
  amount : Int
  beneficiaryIndex : Nat
  isNft : Bool
  deriving DecidableEq, Repr

structure RawAssetPlan where
  assignments : List RawAssignment
  paidMask : Nat
  deriving DecidableEq, Repr

structure RawTokenDist where
  snapshot : Int
  paidMask : Nat
  deriving DecidableEq, Repr

open Read

/-- `new PublicKey(data.subarray(offset, offset + 32))` -/
def publicKey : Read PublicKey := BitVec.ofNat 256 <$> Read.number 32

/-- `new BN(data.subarray(offset, offset + 8), 'le')` -/
def bigNumber : Read Int := Int.ofNat <$> Read.number 8

/-- `Number(new BN(data.subarray(offset, offset + 8), 'le'))` -/
def numberAt (data : List UInt8) (offset : Nat) : Except ReadError Int :=
  (bigNumber.parse data offset).map toNumber

/-- Return null unless the account is verified; else parse its data. -/
def ifVerified {α : Type} (verified : Bool) (info : Option AccountInfo)
    (parse : List UInt8 → Except ReadError (Option α)) : Except ReadError (Option α) :=
  match verified, info with
  | true, some info => parse info.data
  | _, _ => .ok none

/-- `try { … } catch { return null; }` -/
def orNull {α : Type} : Except ReadError (Option α) → Except ReadError (Option α)
  | .ok parsed => .ok parsed
  | .error (.thrown _) => .ok none
  | .error .overread => .error .overread

/-! ## The tested copy -/

namespace RawAccountParsers

inductive AccountName
  | vaultConfig
  | executionLog
  | assetPlan
  | tokenDist
  | heartbeatRecord
  deriving DecidableEq, Repr

/-- `DISCRIMINATORS` -/
def discriminators : AccountName → List UInt8
  | .vaultConfig => fromHex "63562bd8b866774d".toList
  | .executionLog => fromHex "739734d563abc8f0".toList
  | .assetPlan => fromHex "b273a24f4e46c32d".toList
  | .tokenDist => fromHex "fafdae6f2a52b22a".toList
  | .heartbeatRecord => fromHex "1d0450269f346acb".toList

def isProgramAccount (info : Option AccountInfo) (name : AccountName) (minLen : Nat)
    (programId : PublicKey) : Bool :=
  match info with
  | none => false
  | some info =>
    if info.owner ≠ programId then false
    else if info.data.length < max minLen 8 then false
    else info.data.take 8 = discriminators name

namespace Cursor

def pastEnd : String := "read past end of account buffer"

def u8 : Read Nat := do
  need pastEnd 1
  byte

def bool : Read Bool := (· != 0) <$> u8

def u16 : Read Nat := do
  need pastEnd 2
  Read.number 2

def u32 : Read Nat := do
  need pastEnd 4
  Read.number 4

def i64 : Read Int := do
  need pastEnd 8
  bigNumber

def u64big : Read Nat := do
  need pastEnd 8
  Read.number 8

def pubkey : Read PublicKey := do
  need pastEnd 32
  publicKey

end Cursor

def beneficiary : Read RawBeneficiary := do
  let wallet ← Cursor.pubkey
  let shareBps ← Cursor.u16
  return { wallet, shareBps, hasSpecificAssets := false }

/-- What stands behind the vector of beneficiaries. -/
def vaultConfigTail (owner agentPubkey : PublicKey) (heartbeatInterval gracePeriod : Int)
    (beneficiaryCount : Nat) : Read (Option RawVaultConfig) := do
  let beneficiaries ← beneficiary.many beneficiaryCount
  let executed ← Cursor.bool
  let active ← Cursor.bool
  let createdAt ← Cursor.i64
  let updatedAt ← Cursor.i64
  let bump ← Cursor.u8
  let isMutable ← Cursor.bool
  let hasAssetPlan ← Cursor.bool
  let openTokenDists ← Cursor.u16
  return some {
    owner, agentPubkey, heartbeatInterval, gracePeriod, beneficiaries, executed, active,
    createdAt, updatedAt, bump, isMutable, hasAssetPlan, openTokenDists }

def vaultConfigFields : Read (Option RawVaultConfig) := do
  let owner ← Cursor.pubkey
  let agentPubkey ← Cursor.pubkey
  let heartbeatInterval ← Cursor.i64
  let gracePeriod ← Cursor.i64
  let beneficiaryCount ← Cursor.u32
  if 20 < beneficiaryCount then return none
  else vaultConfigTail owner agentPubkey heartbeatInterval gracePeriod beneficiaryCount

def parseVaultConfig (info : Option AccountInfo) (programId : PublicKey) :
    Except ReadError (Option RawVaultConfig) :=
  ifVerified (isProgramAccount info .vaultConfig 92 programId) info fun data =>
    orNull (vaultConfigFields.parse data 8)

def executionLogFields : Read (Option RawExecutionLog) := do
  let solSnapshot ← Cursor.i64
  let solPaidMask ← Cursor.u32
  let _startedAt ← Cursor.i64
  let completed ← Cursor.bool
  return some { solSnapshot, solPaidMask, completed }

def parseExecutionLog (info : Option AccountInfo) (programId : PublicKey) :
    Except ReadError (Option RawExecutionLog) :=
  ifVerified (isProgramAccount info .executionLog 66 programId) info fun data =>
    orNull (executionLogFields.parse data (8 + 32))

def assignment : Read RawAssignment := do
  let mint ← Cursor.pubkey
  let amount ← Cursor.i64
  let beneficiaryIndex ← Cursor.u8
  let isNft ← Cursor.bool
  return { mint, amount, beneficiaryIndex, isNft }

/-- What stands behind the number of assignments. -/
def assetPlanTail (len : Nat) : Read (Option RawAssetPlan) := do
  let assignments ← assignment.many len
  let paidMask ← Cursor.u64big
  return some { assignments, paidMask }

def assetPlanFields : Read (Option RawAssetPlan) := do
  let len ← Cursor.u32
  if 64 < len then return none else assetPlanTail len

def parseAssetPlan (info : Option AccountInfo) (programId : PublicKey) :
    Except ReadError (Option RawAssetPlan) :=
  ifVerified (isProgramAccount info .assetPlan 44 programId) info fun data =>
    orNull (assetPlanFields.parse data (8 + 32))

def tokenDistFields : Read (Option RawTokenDist) := do
  let snapshot ← Cursor.i64
  let paidMask ← Cursor.u32
  return some { snapshot, paidMask }

def parseTokenDist (info : Option AccountInfo) (programId : PublicKey) :
    Except ReadError (Option RawTokenDist) :=
  ifVerified (isProgramAccount info .tokenDist 85 programId) info fun data =>
    orNull (tokenDistFields.parse data (8 + 32 + 32))

def parseDeadline (vaultInfo hbInfo : Option AccountInfo) (programId : PublicKey) :
    Except ReadError (Option Int) :=
  if isProgramAccount vaultInfo .vaultConfig 88 programId = false then .ok none
  else if isProgramAccount hbInfo .heartbeatRecord 48 programId = false then .ok none
  else orNull do
    let interval ← numberAt (vaultInfo.elim [] (·.data)) 72
    let grace ← numberAt (vaultInfo.elim [] (·.data)) 80
    let lastHeartbeat ← numberAt (hbInfo.elim [] (·.data)) 40
    return some (toNumber (toNumber (lastHeartbeat + interval) + grace))

end RawAccountParsers

/-! ## The shipped copy -/

namespace VaultTransactionService

def discVaultConfig : String := "63562bd8b866774d"
def discExecutionLog : String := "739734d563abc8f0"
def discAssetPlan : String := "b273a24f4e46c32d"
def discTokenDist : String := "fafdae6f2a52b22a"
def discHeartbeat : String := "1d0450269f346acb"

def verifyAccount (programId : PublicKey) (info : Option AccountInfo) (discHex : String)
    (minLen : Nat) : Bool :=
  match info with
  | none => false
  | some info =>
    info.owner = programId && minLen ≤ info.data.length &&
      toHex (info.data.take 8) = discHex.toList

def rawBeneficiary : Read RawBeneficiary := do
  let wallet ← publicKey
  let shareBps ← Read.number 2
  return { wallet, shareBps, hasSpecificAssets := false }

/-- What stands behind the number of beneficiaries. -/
def rawVaultConfigTail (owner agentPubkey : PublicKey) (heartbeatInterval gracePeriod : Int)
    (beneficiaryCount : Nat) : Read (Option RawVaultConfig) := do
  let beneficiaries ← rawBeneficiary.many beneficiaryCount
  let executed ← flag
  let active ← flag
  let createdAt ← bigNumber
  let updatedAt ← bigNumber
  let bump ← byte
  let isMutable ← flag
  let hasAssetPlan ← flag
  let openTokenDists ← Read.number 2
  return some {
    owner, agentPubkey, heartbeatInterval, gracePeriod, beneficiaries, executed, active,
    createdAt, updatedAt, bump, isMutable, hasAssetPlan, openTokenDists }

def rawVaultConfigFields : Read (Option RawVaultConfig) := do
  let owner ← publicKey
  let agentPubkey ← publicKey
  let heartbeatInterval ← bigNumber
  let gracePeriod ← bigNumber
  let beneficiaryCount ← Read.number 4
  let truncated ← short (beneficiaryCount * 34 + 23)
  if 20 < beneficiaryCount ∨ truncated = true then return none
  else rawVaultConfigTail owner agentPubkey heartbeatInterval gracePeriod beneficiaryCount

def parseVaultConfigRaw (programId : PublicKey) (info : Option AccountInfo) :
    Except ReadError (Option RawVaultConfig) :=
  ifVerified (verifyAccount programId info discVaultConfig 92) info fun data =>
    rawVaultConfigFields.parse data 8

/-! The methods that fetch an account are functions of the account that the RPC returns. -/

def rawExecutionLogFields : Read (Option RawExecutionLog) := do
  let solSnapshot ← bigNumber
  let solPaidMask ← Read.number 4
  skip 8
  let completed ← flag
  return some { solSnapshot, solPaidMask, completed }

def fetchExecutionLog (programId : PublicKey) (info : Option AccountInfo) :
    Except ReadError (Option RawExecutionLog) :=
  ifVerified (verifyAccount programId info discExecutionLog 66) info fun data =>
    rawExecutionLogFields.parse data (8 + 32)

def rawAssignment : Read RawAssignment := do
  let mint ← publicKey
  let amount ← bigNumber
  let beneficiaryIndex ← byte
  let isNft ← flag
  return { mint, amount, beneficiaryIndex, isNft }

/-- What stands behind the number of assignments. -/
def rawAssetPlanTail (len : Nat) : Read (Option RawAssetPlan) := do
  let assignments ← rawAssignment.many len
  let paidMask ← Read.number 8
  return some { assignments, paidMask }

def rawAssetPlanFields : Read (Option RawAssetPlan) := do
  let len ← Read.number 4
  let truncated ← short (len * 42 + 8)
  if 64 < len ∨ truncated = true then return none else rawAssetPlanTail len

def fetchAssetPlan (programId : PublicKey) (info : Option AccountInfo) :
    Except ReadError (Option RawAssetPlan) :=
  ifVerified (verifyAccount programId info discAssetPlan 44) info fun data =>
    rawAssetPlanFields.parse data (8 + 32)

def rawTokenDistFields : Read (Option RawTokenDist) := do
  let snapshot ← bigNumber
  let paidMask ← Read.number 4
  return some { snapshot, paidMask }

def fetchTokenDist (programId : PublicKey) (info : Option AccountInfo) :
    Except ReadError (Option RawTokenDist) :=
  ifVerified (verifyAccount programId info discTokenDist 85) info fun data =>
    rawTokenDistFields.parse data (8 + 32 + 32)

def getOnChainDeadline (programId : PublicKey) (vaultInfo hbInfo : Option AccountInfo) :
    Except ReadError (Option Int) :=
  orNull do
    if verifyAccount programId vaultInfo discVaultConfig 88 = false ∨
        verifyAccount programId hbInfo discHeartbeat 48 = false then
      return none
    else
      let interval ← numberAt (vaultInfo.elim [] (·.data)) 72
      let grace ← numberAt (vaultInfo.elim [] (·.data)) 80
      let lastHeartbeat ← numberAt (hbInfo.elim [] (·.data)) 40
      return some (toNumber (toNumber (lastHeartbeat + interval) + grace))

end VaultTransactionService

end DeadMansVault.Device
