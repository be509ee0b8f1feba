-- SUMMARY: The server's parser of a vault's config.
import DeadMansVault.Library.Buffer

/-!
# The server's chain reader

The server parses the fields of a config that its reminders need. Its parser looks for
the fixed part and then for the beneficiaries, and throws where the buffer is too short.
-/

namespace DeadMansVault.Notify

open Read

structure ParsedBeneficiary where
  wallet : String
  shareBps : Nat
  deriving DecidableEq, Repr

structure ParsedVault where
  owner : String
  interval : Int
  grace : Int
  executed : Bool
  active : Bool
  beneficiaries : List ParsedBeneficiary
  deriving DecidableEq, Repr

namespace Solana

/-- `MAX_BENEFICIARIES` -/
def maxBeneficiaries : Nat := 20

/-- The bytes of a key, by the number they spell. -/
def key : Read (BitVec 256) := BitVec.ofNat 256 <$> number 32

/-- `Number(data.readBigInt64LE(o))` -/
def signedNumber : Read Int := (fun n => toNumber (BitVec.ofNat 64 n).toInt) <$> number 8

variable (toBase58 : BitVec 256 → String)

def beneficiary : Read ParsedBeneficiary := do
  let wallet ← key
  let shareBps ← number 2
  return { wallet := toBase58 wallet, shareBps }

/-- What stands behind the number of beneficiaries. -/
def vaultTail (owner : BitVec 256) (interval grace : Int) (benCount : Nat) :
    Read ParsedVault := do
  need "vault buffer too short for beneficiaries" (benCount * 34 + 2)
  let beneficiaries ← (beneficiary toBase58).many benCount
  let executed ← flag
  let active ← flag
  return { owner := toBase58 owner, interval, grace, executed, active, beneficiaries }

def vaultFields : Read ParsedVault := do
  need "vault buffer too short" (32 + 32 + 8 + 8 + 4)
  let owner ← key
  skip 32
  let interval ← signedNumber
  let grace ← signedNumber
  let benCount ← number 4
  if maxBeneficiaries < benCount then fail "vault beneficiary count out of range"
  else vaultTail toBase58 owner interval grace benCount

def parseVaultConfig (data : List UInt8) : Except ReadError ParsedVault :=
  (vaultFields toBase58).parse data 8

end Solana

end DeadMansVault.Notify
