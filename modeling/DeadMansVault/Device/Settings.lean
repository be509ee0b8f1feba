-- SUMMARY: What the app stores on the device about a registration, how its storage fails, and the next revision.
import Mathlib.Algebra.Group.Nat.Defs
import Mathlib.Order.Basic

/-!
# Settings of a registration

The app keeps five texts for each registration. A text is modelled by what the
code reads in it: nothing where the key is missing or cleared, and `corrupt` where
the code cannot read what it looks for. Reads and writes may fail; a write that
fails may have reached the storage or not.
-/

namespace DeadMansVault.Device

/-! ## Stored values -/

/-- The local record of an accepted registration. -/
structure SuccessRecord where
  owner : String
  vault : String
  revision : Nat
  tokenFingerprint : String
  stage1 : Nat
  stage2 : Nat
  stage3 : Nat
  confirmedAt : Option Int
  cluster : String
  programId : String
  deriving DecidableEq, Repr

/-- What replaces it once the registration is gone. -/
structure Tombstone where
  owner : String
  vault : String
  cluster : String
  programId : String
  deregisteredAt : Option Int
  deriving DecidableEq, Repr

inductive StoredRecord
  | success (record : SuccessRecord)
  | tombstone (tombstone : Tombstone)
  deriving DecidableEq, Repr

namespace StoredRecord

def owner : StoredRecord → String
  | success r => r.owner
  | tombstone t => t.owner

def vault : StoredRecord → String
  | success r => r.vault
  | tombstone t => t.vault

def revision : StoredRecord → Option Nat
  | success r => some r.revision
  | tombstone _ => none

def tokenFingerprint : StoredRecord → Option String
  | success r => some r.tokenFingerprint
  | tombstone _ => none

/-- `deregisteredAt` is there, and not zero. -/
def isDeregistered : StoredRecord → Bool
  | success _ => false
  | tombstone t => t.deregisteredAt.any (· ≠ 0)

end StoredRecord

/-- A vault that was revoked through the app. -/
structure ClosedVaultTombstone where
  owner : String
  vault : String
  cluster : String
  programId : String
  revokedAt : Nat
  revokeSig : String
  priorRevision : Option Nat
  deriving DecidableEq, Repr

/-- A device token that was found to differ from the registered one. -/
structure PendingMarker where
  fingerprint : String
  detectedAt : Option Int
  sequence : Nat
  deriving DecidableEq, Repr

/-- A text under a key, as the code reads it. -/
inductive Stored (α : Type)
  /-- There is none, or the empty one that clears the key. -/
  | absent
  | corrupt
  | value (a : α)
  deriving DecidableEq, Repr

structure Settings where
  /-- `notif_rev` -/
  revision : Stored Nat
  /-- `notif_signed_reg` -/
  success : Stored StoredRecord
  /-- `notif_dereg_pending`, with the time that it says -/
  deregPending : Stored Int
  /-- `notif_vault_closed` -/
  closedVault : Stored ClosedVaultTombstone
  /-- `notif_pending` -/
  pending : Stored PendingMarker
  deriving DecidableEq, Repr

def Settings.empty : Settings := ⟨.absent, .absent, .absent, .absent, .absent⟩

/-! ## Writes -/

/-- A `setSetting`, by its key; the two markers are also cleared. -/
inductive Write
  | revision (revision : Nat)
  | success (record : StoredRecord)
  | deregPending (time : Option Int)
  | clearDeregPending
  | closedVault (tombstone : ClosedVaultTombstone)
  | clearClosedVault
  | pending (marker : PendingMarker)
  deriving DecidableEq, Repr

def Settings.put (s : Settings) : Write → Settings
  | .revision revision => { s with revision := .value revision }
  | .success record => { s with success := .value record }
  | .deregPending (some time) => { s with deregPending := .value time }
  | .deregPending none => { s with deregPending := .corrupt }
  | .clearDeregPending => { s with deregPending := .absent }
  | .closedVault tombstone => { s with closedVault := .value tombstone }
  | .clearClosedVault => { s with closedVault := .absent }
  | .pending marker => { s with pending := .value marker }

inductive WriteResult
  | stored
  /-- The write throws, whether or not it has reached the storage. -/
  | failed (landed : Bool)
  deriving DecidableEq, Repr

def WriteResult.isOk : WriteResult → Bool
  | stored => true
  | failed _ => false

def WriteResult.lands : WriteResult → Bool
  | stored => true
  | failed landed => landed

def Settings.write (s : Settings) (w : Write) (result : WriteResult) : Settings :=
  if result.lands then s.put w else s

/-! ## Numbers -/

def maxSafeInteger : Nat := 2 ^ 53 - 1

/-- A number that is a safe positive integer; `none` stands for one that is not an integer. -/
def safePosInt (n : Option Int) : Option Nat :=
  match n with
  | some n => if 0 < n ∧ n ≤ maxSafeInteger then some n.toNat else none
  | none => none

/-- The stored high-watermark, if it can be used. -/
def Stored.watermark : Stored Nat → Option Nat
  | absent => some 0
  | corrupt => none
  | value n => if 0 < n ∧ n ≤ maxSafeInteger then some n else none

/-- The next revision, if the stored one and the clock can be used. -/
def computeNextRevision (stored : Stored Nat) (nowMs : Option Int) : Option Nat := do
  let watermark ← stored.watermark
  let now ← safePosInt nowMs
  let next := max now (watermark + 1)
  if next ≤ maxSafeInteger then some next else none

/-- The next revision is above the stored one, and can be stored. -/
theorem computeNextRevision_gt {stored : Stored Nat} {nowMs : Option Int} {next : Nat}
    (h : computeNextRevision stored nowMs = some next) :
    stored ≠ .corrupt ∧ next ≤ maxSafeInteger ∧ ∀ n, stored = .value n → n < next := by
  obtain ⟨watermark, hwatermark, h⟩ := Option.bind_eq_some_iff.mp h
  obtain ⟨now, hnow, h⟩ := Option.bind_eq_some_iff.mp h
  dsimp only at h
  split at h
  next hsafe =>
    obtain rfl := Option.some.inj h
    cases stored with
    | absent => exact ⟨nofun, hsafe, nofun⟩
    | corrupt => cases hwatermark
    | value n =>
        rw [Stored.watermark] at hwatermark
        split at hwatermark
        · obtain rfl := Option.some.inj hwatermark
          refine ⟨nofun, hsafe, fun n' heq => ?_⟩
          cases heq
          omega
        · cases hwatermark
  · cases h

end DeadMansVault.Device
