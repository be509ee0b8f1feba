-- SUMMARY: The bytes of a `VaultConfig` account, before and after the program appended the keeper bounty.
import DeadMansVault.Library.Codec
import DeadMansVault.Program.State

/-!
# The stored config

An account starts with the discriminator of its type; the fields follow in their
order of declaration, integers in little-endian bytes and the beneficiaries
behind their number. The bounty is the last field, so where it stands depends on
how many beneficiaries there are. A handler's changes are written over the front
of the account when it returns, and the rest of the account stays as it was.
-/

namespace DeadMansVault

/-- What the stored bytes depend on beyond the model of a config. -/
structure Layout where
  address : Pubkey → BitVec 256
  discriminator : BitVec 64
  /-- The bump seed of the vault. -/
  bump : BitVec 8

/-- The fields of a config that the program had before the keeper bounty, as the
    machine words they are stored in. -/
structure StoredConfig where
  owner : BitVec 256
  agentPubkey : BitVec 256
  heartbeatInterval : BitVec 64
  gracePeriod : BitVec 64
  beneficiaries : List (BitVec 256 × BitVec 16)
  executed : Bool
  active : Bool
  createdAt : BitVec 64
  updatedAt : BitVec 64
  bump : BitVec 8
  isMutable : Bool
  hasAssetPlan : Bool
  openTokenDists : BitVec 16
  deriving DecidableEq, Repr

namespace Layout

variable (L : Layout)

def stored (v : VaultConfig) : StoredConfig where
  owner := L.address v.owner
  agentPubkey := L.address v.agentPubkey
  heartbeatInterval := BitVec.ofInt 64 v.heartbeatInterval
  gracePeriod := BitVec.ofInt 64 v.gracePeriod
  beneficiaries := v.beneficiaries.map fun b => (L.address b.wallet, BitVec.ofNat 16 b.shareBps)
  executed := v.executed
  active := v.active
  createdAt := BitVec.ofInt 64 v.createdAt
  updatedAt := BitVec.ofInt 64 v.updatedAt
  bump := L.bump
  isMutable := v.isMutable
  hasAssetPlan := v.hasAssetPlan
  openTokenDists := BitVec.ofNat 16 v.openTokenDists

end Layout

open Codec

/-- The fields in the order of the struct, before the keeper bounty. -/
def storedFields : Codec StoredConfig :=
  ((word 256).pair <| (word 256).pair <| (word 64).pair <| (word 64).pair <|
    (((word 256).pair (word 16)).list).pair <| bool.pair <| bool.pair <| (word 64).pair <|
    (word 64).pair <| (word 8).pair <| bool.pair <| bool.pair (word 16)).iso
    (fun (owner, agentPubkey, heartbeatInterval, gracePeriod, beneficiaries, executed, active,
      createdAt, updatedAt, bump, isMutable, hasAssetPlan, openTokenDists) =>
      ⟨owner, agentPubkey, heartbeatInterval, gracePeriod, beneficiaries, executed, active,
        createdAt, updatedAt, bump, isMutable, hasAssetPlan, openTokenDists⟩)
    (fun f => (f.owner, f.agentPubkey, f.heartbeatInterval, f.gracePeriod, f.beneficiaries,
      f.executed, f.active, f.createdAt, f.updatedAt, f.bump, f.isMutable, f.hasAssetPlan,
      f.openTokenDists))
    fun _ => rfl

/-- The account before the keeper bounty. -/
def legacyAccount (L : Layout) : Codec (Unit × StoredConfig) :=
  (tag (toBytes 8 L.discriminator.toNat)).pair storedFields

/-- The account with the keeper bounty behind the other fields. -/
def currentAccount (L : Layout) : Codec ((Unit × StoredConfig) × BitVec 64) :=
  (legacyAccount L).pair (word 64)

/-- The current program's reading of an account: the fields and the keeper bounty. -/
def readConfig (L : Layout) (data : List UInt8) : Option (StoredConfig × BitVec 64) :=
  ((currentAccount L).decode data).map fun read => (read.1.1.2, read.1.2)

/-- The legacy program's write of a config into its account. -/
def writeConfig (L : Layout) (v : VaultConfig) (data : List UInt8) : List UInt8 :=
  overwrite ((legacyAccount L).encode ((), L.stored v)) data

/-- A new account. -/
def zeroed (space : Nat) : List UInt8 := List.replicate space 0

/-- Where the keeper bounty stands behind a list of `n` beneficiaries. -/
def bountyOffset (n : Nat) : Nat := 8 + 32 + 32 + 8 + 8 + (4 + n * 34) + 1 + 1 + 8 + 8 + 1 + 1 + 1 + 2

/-- The eight bytes at which the keeper bounty stands behind `n` beneficiaries. -/
def bountyBytes (data : List UInt8) (n : Nat) : List UInt8 :=
  (data.drop (bountyOffset n)).take 8

theorem length_legacyAccount (L : Layout) (f : StoredConfig) :
    ((legacyAccount L).encode ((), f)).length = bountyOffset f.beneficiaries.length := by
  have hlist := (((hasSize_word 256).pair (hasSize_word 16)).length_list) f.beneficiaries
  simp only [legacyAccount, storedFields, tag, iso, pair, List.length_append] at hlist ⊢
  simp only [hlist, hasSize_word _ _, hasSize_bool _, length_toBytes, bountyOffset]
  omega

/-- With the most beneficiaries there may be, the bounty still is inside the account. -/
theorem bountyOffset_le {n : Nat} (h : n ≤ maxBeneficiaries) : bountyOffset n + 8 ≤ VaultConfig.space := by
  have hspace : VaultConfig.space = 8 + 32 + 32 + 8 + 8 + (4 + 20 * 34) + 1 + 1 + 8 + 8 + 1 + 1 + 1 +
    2 + 8 + 53 := rfl
  have hmax : n ≤ 20 := h
  simp only [bountyOffset, hspace]
  omega

theorem fits_legacyAccount (L : Layout) {f : StoredConfig} (h : f.beneficiaries.length < 2 ^ 32) :
    (legacyAccount L).Fits ((), f) := by
  refine ⟨trivial, trivial, trivial, trivial, trivial, ⟨h, fun _ _ => ⟨trivial, trivial⟩⟩, ?_⟩
  exact ⟨trivial, trivial, trivial, trivial, trivial, trivial, trivial, trivial⟩

variable {L : Layout} {v : VaultConfig} {data : List UInt8}

theorem length_writeConfig (hcount : v.beneficiaries.length ≤ maxBeneficiaries)
    (hdata : data.length = VaultConfig.space) : (writeConfig L v data).length = VaultConfig.space := by
  have hroom := bountyOffset_le hcount
  rw [← hdata]
  refine length_overwrite ?_
  rw [length_legacyAccount]
  simp only [Layout.stored, List.length_map, hdata]
  omega

/-- The bytes behind the fields stay as they were. -/
theorem bountyBytes_writeConfig {n : Nat} (h : v.beneficiaries.length ≤ n) :
    bountyBytes (writeConfig L v data) n = bountyBytes data n := by
  have hle : ((legacyAccount L).encode ((), L.stored v)).length ≤ bountyOffset n := by
    rw [length_legacyAccount]
    simp only [Layout.stored, List.length_map, bountyOffset]
    omega
  rw [bountyBytes, bountyBytes, writeConfig, drop_overwrite data hle]

/-- The current program finds every field as the legacy program wrote it, and as the
    keeper bounty the bytes that stood behind them. -/
theorem readConfig_writeConfig (hcount : v.beneficiaries.length ≤ maxBeneficiaries)
    (hdata : data.length = VaultConfig.space) :
    ∃ bounty, readConfig L (writeConfig L v data) = some (L.stored v, bounty) ∧
      (bounty = 0 ↔ ∀ b ∈ bountyBytes data v.beneficiaries.length, b = 0) := by
  have hroom := bountyOffset_le hcount
  have hlen : ((legacyAccount L).encode ((), L.stored v)).length =
      bountyOffset v.beneficiaries.length := by
    rw [length_legacyAccount]
    simp [Layout.stored]
  have hfits : (legacyAccount L).Fits ((), L.stored v) := by
    refine fits_legacyAccount L ?_
    have hmax : v.beneficiaries.length ≤ 20 := hcount
    simp only [Layout.stored, List.length_map]
    omega
  have hbehind : ((legacyAccount L).encode ((), L.stored v)).length + (64 + 7) / 8 ≤
      data.length := by
    rw [hlen, hdata]
    exact hroom
  obtain ⟨rest, hread⟩ := decode_appended_word (w := 64) (legacyAccount L) hfits hbehind
  refine ⟨_, by rw [readConfig, currentAccount, writeConfig, hread]; rfl, ?_⟩
  rw [hlen]
  refine ofNat_ofBytes_eq_zero ?_
  rw [List.length_take, List.length_drop]
  omega

end DeadMansVault
