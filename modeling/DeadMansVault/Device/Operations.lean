-- SUMMARY: Signed registration, signed deregistration and the record of a closure, await by await.
import DeadMansVault.Device.Settings

/-!
# Operations of the coordinator

Each operation runs without interruption from one await to the next; its phase
says what it awaits and what it remembers. The storage is read and written when
an await ends, and a `Moment` gives what else the code meets then: the clock, the
wallet, the server, the storage's faults. No operation tries anything twice.
-/

namespace DeadMansVault.Device

/-! ## Surroundings -/

/-- A response of the server, with its code if it has one. -/
structure Response where
  status : Nat
  code : Option String := none
  removed : Option Nat := none
  deriving DecidableEq, Repr

/-- What becomes of a request: a lost one may have been accepted. -/
inductive Delivery
  | lost (accepted : Bool)
  | answered (response : Response)
  deriving DecidableEq, Repr

/-- What an operation meets when it goes on. -/
structure Moment where
  readFails : Bool := false
  write : WriteResult := .stored
  /-- The device token, if there is one; the outer `none` is a throw. -/
  deviceToken : Option (Option String) := some none
  hashFails : Bool := false
  /-- The signature; `none` where the owner rejects it. -/
  signature : Option (List UInt8) := none
  delivery : Delivery := .lost false
  nowMs : Option Int := none
  nowSec : Option Int := none
  /-- `none` without a secure source of randomness -/
  nonce : Option String := none

structure RegisterFields where
  cluster : String
  programId : String
  owner : String
  vault : String
  deviceTokenHash : String
  stage1 : Nat
  stage2 : Nat
  stage3 : Nat
  revision : Nat
  timestamp : Nat
  nonce : String
  deriving DecidableEq, Repr

structure DeregisterFields where
  cluster : String
  programId : String
  owner : String
  vault : String
  timestamp : Nat
  nonce : String
  deriving DecidableEq, Repr

/-- What the app injects that is always the same. -/
structure Deps where
  cluster : String
  programId : String
  deriveVault : String → Option String
  /-- `new PublicKey(s).toBase58()`, unless it throws -/
  toBase58 : String → Option String
  sha256Hex : String → String
  buildRegisterMessage : RegisterFields → Option String
  buildDeregisterMessage : DeregisterFields → Option String
  /-- `bs58.encode` -/
  encode : List UInt8 → Option String

def Deps.isCanonicalPubkey (deps : Deps) (s : String) : Bool :=
  decide (0 < s.length) && decide (deps.toBase58 s = some s)

def expectedProgramId : String := "GXCu5964mvgAJDWmcMriZpzU3vDVqPzjYCM1sxCnsoEb"
def expectedCluster : String := "devnet"

def isBase58Char (c : Char) : Bool :=
  c.isAlphanum && !(['0', 'O', 'I', 'l'].contains c)

/-- `BASE58_NONCE` -/
def isNonce (nonce : String) : Bool :=
  decide (22 ≤ nonce.length) && decide (nonce.length ≤ 64) && nonce.toList.all isBase58Char

def fingerprintLength : Nat := 32

/-- `tokenFingerprint` of a hash in lower case. -/
def tokenFingerprint (hash : String) : String := String.ofList (hash.toList.take fingerprintLength)

def Deps.tokenHash (deps : Deps) (token : String) : String := (deps.sha256Hex token).toLower

/-! ## Results -/

/-- Where an operation has failed. -/
inductive Stage
  | inFlight
  | validate
  | context
  | deviceToken
  | rng
  | revision
  | hash
  | encode
  | wallet
  | signature
  | network
  | server
  | ownerMismatch
  deriving DecidableEq, Repr

structure Failure where
  stage : Stage
  code : Option String := none
  retryable : Bool := false
  deriving DecidableEq, Repr

/-- How a turn of an operation ends. -/
inductive Next (φ ρ : Type)
  | wait (phase : φ)
  | finish (result : ρ)
  | threw
  deriving DecidableEq

/-! ## Registration -/

/-- The stages as they are passed in; `none` stands for a number that is not an integer. -/
structure RegistrationInput where
  owner : String
  stage1 : Option Int
  stage2 : Option Int
  stage3 : Option Int
  deriving DecidableEq

structure ValidRegistration where
  owner : String
  vault : String
  stage1 : Nat
  stage2 : Nat
  stage3 : Nat
  deriving DecidableEq

inductive RegistrationPhase
  | deviceToken (input : ValidRegistration)
  | readRevision (input : ValidRegistration) (token nonce : String)
  | storeRevision (input : ValidRegistration) (token nonce : String) (revision : Nat)
  | hash (input : ValidRegistration) (token nonce : String) (revision timestamp : Nat)
  | sign (token : String) (fields : RegisterFields)
  | post (token : String) (fields : RegisterFields) (signature : String)
  | storeSuccess (created : Bool) (record : SuccessRecord)
  | clearClosedVault (created : Bool) (record : SuccessRecord)
  deriving DecidableEq

inductive RegistrationResult
  | accepted (created : Bool) (revision : Nat) (record : SuccessRecord)
  | refused (failure : Failure)
  deriving DecidableEq

abbrev RegistrationNext := Next RegistrationPhase RegistrationResult

def RegistrationNext.refuse (stage : Stage) (retryable : Bool) (code : Option String) :
    RegistrationNext :=
  .finish (.refused { stage, code, retryable })

/-- Up to the device token. -/
def Deps.startRegistration (deps : Deps) (input : RegistrationInput) : RegistrationNext :=
  if deps.isCanonicalPubkey input.owner = false then .refuse .validate false none
  else match deps.deriveVault input.owner with
  | none => .threw
  | some vault =>
    if deps.isCanonicalPubkey vault = false then .refuse .validate false none
    else if deps.cluster ≠ expectedCluster ∨ deps.programId ≠ expectedProgramId then
      .refuse .context false none
    else match safePosInt input.stage1, safePosInt input.stage2, safePosInt input.stage3 with
    | some stage1, some stage2, some stage3 =>
      .wait (.deviceToken ⟨input.owner, vault, stage1, stage2, stage3⟩)
    | _, _, _ => .refuse .validate false none

def mapStatusToCode (status : Nat) : String :=
  match status with
  | 400 => "invalid_request"
  | 401 => "invalid_request"
  | 403 => "ownership_failed"
  | 410 => "legacy_window_expired"
  | 429 => "rate_limited"
  | 502 => "dependency_unavailable"
  | 503 => "database_error"
  | _ => "unknown"

def retryableCodes : List String :=
  ["rate_limited", "dependency_unavailable", "database_error", "stale_revision"]

/-- `res.code || …` -/
def Response.codeOr (res : Response) (code : String) : String :=
  match res.code with
  | some c => if c = "" then code else c
  | none => code

def Deps.registerFields (deps : Deps) (input : ValidRegistration) (hash nonce : String)
    (revision timestamp : Nat) : RegisterFields where
  cluster := deps.cluster
  programId := deps.programId
  owner := input.owner
  vault := input.vault
  deviceTokenHash := hash
  stage1 := input.stage1
  stage2 := input.stage2
  stage3 := input.stage3
  revision := revision
  timestamp := timestamp
  nonce := nonce

def RegisterFields.record (fields : RegisterFields) (confirmedAt : Option Int) : SuccessRecord where
  owner := fields.owner
  vault := fields.vault
  revision := fields.revision
  tokenFingerprint := tokenFingerprint fields.deviceTokenHash
  stage1 := fields.stage1
  stage2 := fields.stage2
  stage3 := fields.stage3
  confirmedAt := confirmedAt
  cluster := fields.cluster
  programId := fields.programId

/-- A registration goes on when its await ends. -/
def RegistrationPhase.turn (deps : Deps) (m : Moment) (s : Settings) :
    RegistrationPhase → Settings × RegistrationNext
  | .deviceToken input =>
    match m.deviceToken with
    | none => (s, .threw)
    | some none => (s, .refuse .deviceToken true none)
    | some (some token) =>
      if token.length < 10 then (s, .refuse .deviceToken true none)
      else match m.nonce with
      | none => (s, .refuse .rng false none)
      | some nonce =>
        if isNonce nonce = false then (s, .refuse .rng false none)
        else (s, .wait (.readRevision input token nonce))
  | .readRevision input token nonce =>
    if m.readFails then (s, .refuse .revision false none)
    else match computeNextRevision s.revision m.nowMs with
    | none => (s, .refuse .revision false none)
    | some revision => (s, .wait (.storeRevision input token nonce revision))
  | .storeRevision input token nonce revision =>
    let s := s.write (.revision revision) m.write
    if m.write.isOk = false then (s, .refuse .revision false none)
    else match safePosInt m.nowSec with
    | none => (s, .refuse .validate false none)
    | some timestamp => (s, .wait (.hash input token nonce revision timestamp))
  | .hash input token nonce revision timestamp =>
    if m.hashFails then (s, .refuse .hash true none)
    else
      let fields := deps.registerFields input (deps.tokenHash token) nonce revision timestamp
      match deps.buildRegisterMessage fields with
      | none => (s, .refuse .validate false none)
      | some _ => (s, .wait (.sign token fields))
  | .sign token fields =>
    match m.signature with
    | none => (s, .refuse .wallet true none)
    | some bytes =>
      if bytes.length ≠ 64 then (s, .refuse .signature false none)
      else match deps.encode bytes with
      | none => (s, .refuse .signature false none)
      | some signature => (s, .wait (.post token fields signature))
  | .post _ fields _ =>
    match m.delivery with
    | .lost _ => (s, .refuse .network true (some "dependency_unavailable"))
    | .answered res =>
      if res.status = 201 ∨ res.status = 200 then
        (s, .wait (.storeSuccess (decide (res.status = 201)) (fields.record m.nowSec)))
      else
        let code := res.codeOr (mapStatusToCode res.status)
        (s, .refuse .server (retryableCodes.contains code) (some code))
  | .storeSuccess created record =>
    -- A cache of what the server has accepted: a failed write changes nothing of the result.
    (s.write (.success (.success record)) m.write, .wait (.clearClosedVault created record))
  | .clearClosedVault created record =>
    (s.write .clearClosedVault m.write, .finish (.accepted created record.revision record))

/-! ## Deregistration -/

structure DeregisterInput where
  owner : String
  /-- The context is that of the cleanup after a revocation. -/
  postCloseCleanup : Bool
  deriving DecidableEq

structure Parties where
  owner : String
  vault : String
  deriving DecidableEq

/-- How a deregistration has come to its local cleanup. -/
structure Cleanup where
  removed : Nat
  /-- The server has refused it, and the vault is known to be closed. -/
  alreadyAbsentAfterClose : Bool
  deriving DecidableEq

inductive DeregistrationPhase
  | readSuccess (parties : Parties) (postCloseCleanup : Bool)
  | readClosedVault (parties : Parties) (postCloseCleanup : Bool) (record : Option StoredRecord)
  | sign (record : Option StoredRecord) (closureProven : Bool) (fields : DeregisterFields)
  | post (record : Option StoredRecord) (closureProven : Bool) (fields : DeregisterFields)
      (signature : String)
  | storeTombstone (cleanup : Cleanup) (tombstone : Tombstone)
  | storeMarker (cleanup : Cleanup) (time : Option Int)
  | clearClosedVault (cleanup : Cleanup)
  deriving DecidableEq

inductive DeregistrationResult
  | removed (removed : Nat) (localCleanupPending alreadyAbsentAfterClose : Bool)
  | refused (failure : Failure)
  deriving DecidableEq

abbrev DeregistrationNext := Next DeregistrationPhase DeregistrationResult

def DeregistrationNext.refuse (stage : Stage) (retryable : Bool) (code : Option String) :
    DeregistrationNext :=
  .finish (.refused { stage, code, retryable })

def Deps.startDeregistration (deps : Deps) (input : DeregisterInput) : DeregistrationNext :=
  if deps.isCanonicalPubkey input.owner = false then .refuse .validate false none
  else match deps.deriveVault input.owner with
  | none => .refuse .validate false none
  | some vault =>
    if deps.isCanonicalPubkey vault = false then .refuse .validate false none
    else if deps.cluster ≠ expectedCluster ∨ deps.programId ≠ expectedProgramId then
      .refuse .context false none
    else .wait (.readSuccess ⟨input.owner, vault⟩ input.postCloseCleanup)

def mapDeregisterStatusToCode (status : Nat) : String :=
  match status with
  | 400 => "invalid_request"
  | 401 => "invalid_signature"
  | 403 => "ownership_failed"
  | 409 => "owner_conflict"
  | 410 => "legacy_window_expired"
  | 429 => "rate_limited"
  | 502 => "dependency_unavailable"
  | 503 => "database_error"
  | _ => "unknown"

def deregRetryableCodes : List String :=
  ["rate_limited", "dependency_unavailable", "database_error"]

/-- What a read gives, where a text that cannot be read counts as none. -/
def Stored.readable {α : Type} (readFails : Bool) : Stored α → Option α
  | value a => if readFails then none else some a
  | absent | corrupt => none

/-- The local proof that this vault was revoked through the app. -/
def ClosedVaultTombstone.proves (tomb : ClosedVaultTombstone) (parties : Parties) : Bool :=
  decide (tomb.owner = parties.owner ∧ tomb.vault = parties.vault ∧
    0 < tomb.revokedAt ∧ tomb.revokedAt ≤ maxSafeInteger ∧ 32 ≤ tomb.revokeSig.length)

def Deps.tombstone (deps : Deps) (fields : DeregisterFields) (time : Option Int) : Tombstone where
  owner := fields.owner
  vault := fields.vault
  cluster := deps.cluster
  programId := deps.programId
  deregisteredAt := time

def DeregistrationPhase.turn (deps : Deps) (m : Moment) (s : Settings) :
    DeregistrationPhase → Settings × DeregistrationNext
  | .readSuccess parties postCloseCleanup =>
    let record := s.success.readable m.readFails
    if record.any fun r => r.owner ≠ parties.owner || r.vault ≠ parties.vault then
      (s, .refuse .ownerMismatch false none)
    else (s, .wait (.readClosedVault parties postCloseCleanup record))
  | .readClosedVault parties postCloseCleanup record =>
    let closureProven := postCloseCleanup &&
      (s.closedVault.readable m.readFails).any (·.proves parties)
    match safePosInt m.nowSec with
    | none => (s, .refuse .validate false none)
    | some timestamp =>
      match m.nonce with
      | none => (s, .refuse .rng false none)
      | some nonce =>
        if isNonce nonce = false then (s, .refuse .rng false none)
        else
          let fields : DeregisterFields :=
            ⟨deps.cluster, deps.programId, parties.owner, parties.vault, timestamp, nonce⟩
          match deps.buildDeregisterMessage fields with
          | none => (s, .refuse .validate false none)
          | some _ => (s, .wait (.sign record closureProven fields))
  | .sign record closureProven fields =>
    match m.signature with
    | none => (s, .refuse .wallet true none)
    | some bytes =>
      if bytes.length ≠ 64 then (s, .refuse .signature false none)
      else match deps.encode bytes with
      | none => (s, .refuse .signature false none)
      | some signature => (s, .wait (.post record closureProven fields signature))
  | .post record closureProven fields _ =>
    match m.delivery with
    | .lost _ => (s, .refuse .network true (some "dependency_unavailable"))
    | .answered res =>
      match (if res.status = 200 then res.removed.filter (· ≤ 1) else none) with
      | some removed =>
        if record.isSome ∨ removed = 1 then
          (s, .wait (.storeTombstone ⟨removed, false⟩ (deps.tombstone fields m.nowSec)))
        else (s, .wait (.clearClosedVault ⟨removed, false⟩))
      | none =>
        let code := res.codeOr (mapDeregisterStatusToCode res.status)
        if code = "ownership_failed" ∧ closureProven then
          (s, .wait (.storeTombstone ⟨0, true⟩ (deps.tombstone fields m.nowSec)))
        else (s, .refuse .server (deregRetryableCodes.contains code) (some code))
  | .storeTombstone cleanup tombstone =>
    let s := s.write (.success (.tombstone tombstone)) m.write
    if m.write.isOk then (s, .wait (.clearClosedVault cleanup))
    else (s, .wait (.storeMarker cleanup m.nowSec))
  | .storeMarker cleanup time =>
    (s.write (.deregPending time) m.write,
      .finish (.removed cleanup.removed true cleanup.alreadyAbsentAfterClose))
  | .clearClosedVault cleanup =>
    (s.write .clearClosedVault m.write,
      .finish (.removed cleanup.removed false cleanup.alreadyAbsentAfterClose))

/-! ## Closure -/

structure VaultClosureInput where
  owner : String
  revokeSig : String
  revokedAt : Option Int
  deriving DecidableEq

inductive ClosurePhase
  | readSuccess (parties : Parties) (revokeSig : String) (revokedAt : Nat)
  | storeClosedVault (tombstone : ClosedVaultTombstone)
  deriving DecidableEq

/-- The result is whether the tombstone was written. -/
abbrev ClosureNext := Next ClosurePhase Bool

def Deps.startClosure (deps : Deps) (input : VaultClosureInput) : ClosureNext :=
  if deps.isCanonicalPubkey input.owner = false then .finish false
  else if input.revokeSig.length < 32 then .finish false
  else match safePosInt input.revokedAt, deps.deriveVault input.owner with
  | some revokedAt, some vault =>
    if deps.isCanonicalPubkey vault = false then .finish false
    else if deps.cluster ≠ expectedCluster ∨ deps.programId ≠ expectedProgramId then .finish false
    else .wait (.readSuccess ⟨input.owner, vault⟩ input.revokeSig revokedAt)
  | _, _ => .finish false

def ClosurePhase.turn (deps : Deps) (m : Moment) (s : Settings) :
    ClosurePhase → Settings × ClosureNext
  | .readSuccess parties revokeSig revokedAt =>
    match s.success.readable m.readFails with
    | none => (s, .finish false)
    | some rec =>
      if rec.owner ≠ parties.owner ∨ rec.vault ≠ parties.vault ∨ rec.isDeregistered = true then
        (s, .finish false)
      else (s, .wait (.storeClosedVault {
        owner := parties.owner
        vault := parties.vault
        cluster := deps.cluster
        programId := deps.programId
        revokedAt := revokedAt
        revokeSig := revokeSig
        priorRevision := rec.revision }))
  | .storeClosedVault tombstone =>
    (s.write (.closedVault tombstone) m.write, .finish m.write.isOk)

end DeadMansVault.Device
