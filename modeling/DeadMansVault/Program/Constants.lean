-- SUMMARY: The program's constants, its two build profiles and the full paid-masks.
import Mathlib.Algebra.Group.Int.Defs
import DeadMansVault.Library.Bitmask
import DeadMansVault.Program.Address

/-!
# Constants

The `devnet` Cargo feature lowers three durations; the flag is a parameter here,
so that every result holds for both profiles.
-/

namespace DeadMansVault

/-- The largest `u64`, also the bound on the supply of lamports and of a mint. -/
def u64Max : Nat := 2 ^ 64 - 1

def u16Max : Nat := 2 ^ 16 - 1

def u32Max : Nat := 2 ^ 32 - 1

def i64Max : Int := 2 ^ 63 - 1

def i64Min : Int := -2 ^ 63

/-- Vault creation fee (0.01 SOL). -/
def vaultCreationFeeLamports : Nat := 10_000_000

/-- `98x9Rn63Ne8xbL3w522zgbuYg9bdHn7cRqJQVCUZUFsp` -/
def feeWallet : Pubkey :=
  .key 54685531658870641074689329336723901563775968079148844553298235701353571220307

def maxKeeperBountyLamports : Nat := 100_000_000

def minHeartbeatInterval (devnet : Bool) : Int := if devnet then 10 else 86_400

def minGracePeriod (devnet : Bool) : Int := if devnet then 30 else 604_800

def executedCloseDelay (devnet : Bool) : Int := if devnet then 60 else 86_400

def maxHeartbeatInterval : Int := 31_536_000

def maxGracePeriod : Int := 63_072_000

def maxBeneficiaries : Nat := 20

def maxAssignments : Nat := 64

/-- `((1u64 << n) - 1) as u32` -/
def fullMaskU32 (n : Nat) : BitVec 32 := Bitmask.full 32 n

/-- `((1u128 << n) - 1) as u64` -/
def fullMaskU64 (n : Nat) : BitVec 64 := Bitmask.full 64 n

end DeadMansVault
