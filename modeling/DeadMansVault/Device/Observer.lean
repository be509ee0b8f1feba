-- SUMMARY: The token observer's check, await by await, and the state it derives.
import DeadMansVault.Device.Operations

/-!
# Token observer

A check reads the stored settings and the device token, and derives the state that
the Settings screen shows. It never signs and never calls the server. What it
writes is local: it clears a closure that no longer matters, it repairs the local
record after a deregistration, and it marks a token that has changed.
-/

namespace DeadMansVault.Device

/-! ## State -/

inductive LifecycleState
  | notEnabled
  | enabled
  | updateRequired
  | checking
  | updating
  | disabling
  | disabled
  | tokenUnavailable
  | ownerMismatch
  | localCleanupPending
  | vaultClosedCleanupPending
  | error
  deriving DecidableEq, Repr

def isLowerHexChar (c : Char) : Bool :=
  c.isDigit || (decide ('a' ≤ c) && decide (c ≤ 'f'))

/-- `STRONG_FP` -/
def isStrongFingerprint (fp : String) : Bool :=
  decide (fp.length = 32) && fp.toList.all isLowerHexChar

/-- `LEGACY_FP`, of a record that was written before fingerprints had 128 bits. -/
def isLegacyFingerprint (fp : String) : Bool :=
  decide (fp.length = 16) && fp.toList.all isLowerHexChar

/-- The state, with the current fingerprint once it is known. -/
def reconcile (record : Option StoredRecord) (currentTokenHash : Option String)
    (connectedOwner : String) : LifecycleState × Option String :=
  match record with
  | none => (.notEnabled, none)
  | some record =>
    if record.owner ≠ connectedOwner then (.ownerMismatch, none)
    else if record.isDeregistered then (.disabled, none)
    else match currentTokenHash with
    | none => (.tokenUnavailable, none)
    | some hash =>
      let fp := tokenFingerprint hash
      if record.tokenFingerprint.any isLegacyFingerprint then (.updateRequired, some fp)
      else if record.tokenFingerprint.any isStrongFingerprint = false then (.error, none)
      else if record.tokenFingerprint = some fp then (.enabled, some fp)
      else (.updateRequired, some fp)

/-! ## Check -/

inductive CheckPhase
  | readClosedVault
  | readClosedRecord (tomb : ClosedVaultTombstone)
  | clearClosedVault
  | readDeregPending
  | storeTombstone (tombstone : Tombstone)
  | clearDeregPending
  | readSuccess
  | deviceToken (record : Option StoredRecord)
  | hash (record : Option StoredRecord) (token : String)
  | readPending (fingerprint : String)
  | storePending (marker : PendingMarker)
  deriving DecidableEq

abbrev CheckNext := Next CheckPhase LifecycleState

/-- Up to the first read; an empty owner counts as none. -/
def Deps.startCheck (deps : Deps) (connectedOwner : Option String) : Next Parties LifecycleState :=
  match connectedOwner.filter (· ≠ "") with
  | none => .finish .notEnabled
  | some owner =>
    match deps.deriveVault owner with
    | none => .finish .error
    | some vault => .wait ⟨owner, vault⟩

/-- The record belongs to a vault that was opened after this closure. -/
def ClosedVaultTombstone.isStale (tomb : ClosedVaultTombstone) (record : StoredRecord) : Bool :=
  match record.revision, tomb.priorRevision with
  | some revision, some prior => decide (prior < revision)
  | _, _ => false

/-- A record of these parties that was not deregistered. -/
def StoredRecord.isActive (record : StoredRecord) (parties : Parties) : Bool :=
  decide (record.owner = parties.owner ∧ record.vault = parties.vault) && !record.isDeregistered

/-- `Number(marker) || Math.floor(deps.nowMs() / 1000)` -/
def repairTime (marker : Option Int) (nowMs : Option Int) : Option Int :=
  match marker.filter (· ≠ 0) with
  | some time => some time
  | none => nowMs.map (· / 1000)

def Deps.repairTombstone (deps : Deps) (parties : Parties) (time : Option Int) : Tombstone where
  owner := parties.owner
  vault := parties.vault
  cluster := deps.cluster
  programId := deps.programId
  deregisteredAt := time

/-- The end of a check that has looked at the token. -/
def CheckNext.conclude (parties : Parties) (record : Option StoredRecord) (hash : Option String) :
    CheckNext :=
  match reconcile record hash parties.owner with
  | (.updateRequired, some fingerprint) => .wait (.readPending fingerprint)
  | (state, _) => .finish state

/-- A check goes on when its await ends. It is `current` unless a later check, an action or the
    end of the observer has overtaken it; only the last of its writes asks for that. -/
def CheckPhase.turn (deps : Deps) (parties : Parties) (current : Bool) (m : Moment)
    (s : Settings) : CheckPhase → Settings × CheckNext
  | .readClosedVault =>
    match s.closedVault.readable m.readFails with
    | none => (s, .wait .readDeregPending)
    | some tomb =>
      if tomb.owner = parties.owner ∧ tomb.vault = parties.vault then
        (s, .wait (.readClosedRecord tomb))
      else (s, .wait .readDeregPending)
  | .readClosedRecord tomb =>
    match (s.success.readable m.readFails).filter (·.isActive parties) with
    | none => (s, .wait .clearClosedVault)
    | some record =>
      if tomb.isStale record then (s, .wait .clearClosedVault)
      else (s, .finish .vaultClosedCleanupPending)
  | .clearClosedVault => (s.write .clearClosedVault m.write, .wait .readDeregPending)
  | .readDeregPending =>
    if m.readFails then (s, .wait .readSuccess)
    else match s.deregPending with
    | .absent => (s, .wait .readSuccess)
    | .corrupt =>
      (s, .wait (.storeTombstone (deps.repairTombstone parties (repairTime none m.nowMs))))
    | .value time =>
      (s, .wait (.storeTombstone (deps.repairTombstone parties (repairTime (some time) m.nowMs))))
  | .storeTombstone tombstone =>
    let s := s.write (.success (.tombstone tombstone)) m.write
    if m.write.isOk then (s, .wait .clearDeregPending) else (s, .finish .localCleanupPending)
  | .clearDeregPending =>
    let s := s.write .clearDeregPending m.write
    if m.write.isOk then (s, .wait .readSuccess) else (s, .finish .localCleanupPending)
  | .readSuccess =>
    if m.readFails then (s, .finish .error)
    else match s.success with
    | .absent => (s, .wait (.deviceToken none))
    | .corrupt => (s, .finish .error)
    | .value record => (s, .wait (.deviceToken (some record)))
  | .deviceToken record =>
    match m.deviceToken with
    | some (some token) =>
      if token = "" then (s, .conclude parties record none)
      else (s, .wait (.hash record token))
    | _ => (s, .conclude parties record none)
  | .hash record token =>
    (s, .conclude parties record (if m.hashFails then none else some (deps.tokenHash token)))
  | .readPending fingerprint =>
    let prev := s.pending.readable m.readFails
    if prev.any (·.fingerprint = fingerprint) then (s, .finish .updateRequired)
    else if current = false then (s, .finish .updateRequired)
    else
      (s, .wait (.storePending ⟨fingerprint, m.nowMs, (prev.map (·.sequence)).getD 0 + 1⟩))
  | .storePending marker => (s.write (.pending marker) m.write, .finish .updateRequired)

end DeadMansVault.Device
