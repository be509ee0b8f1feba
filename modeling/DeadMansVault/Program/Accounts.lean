-- SUMMARY: The bytes of the accounts the program stores besides the config's, each behind its discriminator.
import DeadMansVault.Program.Layout

/-!
# Stored accounts

Each account is the discriminator of its type and the fields in their order of
declaration, and a vector is its length and its elements. The account is allocated for
the longest value; behind a shorter one the bytes of an earlier value may remain.
-/

namespace DeadMansVault

open Codec

structure StoredLog where
  vault : BitVec 256
  solSnapshot : BitVec 64
  solPaidMask : BitVec 32
  startedAt : BitVec 64
  completed : Bool
  transferCount : BitVec 32
  totalSolDistributed : BitVec 64
  bump : BitVec 8
  deriving DecidableEq, Repr

structure StoredAssignment where
  mint : BitVec 256
  amount : BitVec 64
  beneficiaryIndex : BitVec 8
  isNft : Bool
  deriving DecidableEq, Repr

structure StoredPlan where
  vault : BitVec 256
  assignments : List StoredAssignment
  paidMask : BitVec 64
  bump : BitVec 8
  deriving DecidableEq, Repr

structure StoredDist where
  vault : BitVec 256
  mint : BitVec 256
  snapshot : BitVec 64
  paidMask : BitVec 32
  bump : BitVec 8
  deriving DecidableEq, Repr

/-! ## Fields -/

def logFields : Codec StoredLog :=
  ((word 256).pair <| (word 64).pair <| (word 32).pair <| (word 64).pair <| bool.pair <|
    (word 32).pair <| (word 64).pair (word 8)).iso
    (fun (vault, solSnapshot, solPaidMask, startedAt, completed, transferCount,
      totalSolDistributed, bump) =>
      ⟨vault, solSnapshot, solPaidMask, startedAt, completed, transferCount,
        totalSolDistributed, bump⟩)
    (fun l => (l.vault, l.solSnapshot, l.solPaidMask, l.startedAt, l.completed, l.transferCount,
      l.totalSolDistributed, l.bump))
    fun _ => rfl

def assignmentFields : Codec StoredAssignment :=
  ((word 256).pair <| (word 64).pair <| (word 8).pair bool).iso
    (fun (mint, amount, beneficiaryIndex, isNft) => ⟨mint, amount, beneficiaryIndex, isNft⟩)
    (fun a => (a.mint, a.amount, a.beneficiaryIndex, a.isNft))
    fun _ => rfl

def planFields : Codec StoredPlan :=
  ((word 256).pair <| assignmentFields.list.pair <| (word 64).pair (word 8)).iso
    (fun (vault, assignments, paidMask, bump) => ⟨vault, assignments, paidMask, bump⟩)
    (fun p => (p.vault, p.assignments, p.paidMask, p.bump))
    fun _ => rfl

def distFields : Codec StoredDist :=
  ((word 256).pair <| (word 256).pair <| (word 64).pair <| (word 32).pair (word 8)).iso
    (fun (vault, mint, snapshot, paidMask, bump) => ⟨vault, mint, snapshot, paidMask, bump⟩)
    (fun d => (d.vault, d.mint, d.snapshot, d.paidMask, d.bump))
    fun _ => rfl

/-! ## Discriminators -/

def VaultConfig.discriminator : List UInt8 := [99, 86, 43, 216, 184, 102, 119, 77]
def AssetPlan.discriminator : List UInt8 := [178, 115, 162, 79, 78, 70, 195, 45]
def ExecutionLog.discriminator : List UInt8 := [115, 151, 52, 213, 99, 171, 200, 240]
def TokenDist.discriminator : List UInt8 := [250, 253, 174, 111, 42, 82, 178, 42]

/-- A value in its account: the discriminator, the serialized value, and whatever is left behind
it. -/
def accountBytes {α : Type} (discriminator : List UInt8) (A : Codec α) (a : α)
    (rest : List UInt8) : List UInt8 :=
  discriminator ++ (A.encode a ++ rest)

/-- The config and the keeper bounty behind it. -/
def configFields : Codec (StoredConfig × BitVec 64) := storedFields.pair (word 64)

end DeadMansVault
