-- SUMMARY: The notify server's registration store: its rows, its nonces, and the transactions on them.
import Mathlib.Data.Rat.Defs
import Mathlib.Data.List.Nodup
import Mathlib.Tactic.Tauto

/-!
# The registration store

One row per vault tells the server whom to notify. A row that an owner has signed
is off limits to the legacy requests, which carry a shared secret only. Every
operation is one database transaction: when the database fails, it has changed
nothing.
-/

namespace DeadMansVault.Notify

/-- The stable internal result codes. -/
inductive Result
  | ok
  | created
  | updated
  | removed
  | notFound
  | nonceReused
  | staleRevision
  | ownerConflict
  | invalidRequest
  | invalidSignature
  | staleTimestamp
  | contextMismatch
  | ownershipFailed
  | dependencyUnavailable
  | databaseError
  | signedAuthorizationRequired
  | signedNotEnabled
  | signedRequired
  | rateLimited
  | legacyWindowExpired
  deriving DecidableEq, Repr

inductive MigrationStatus
  | legacy
  | signed
  /-- Any other text of the column. -/
  | other (text : String)
  deriving DecidableEq, Repr

/-- A row of `registrations`. The stages are durations in seconds; a legacy client may
    have sent fractions. -/
structure Row where
  vault : String
  owner : String
  deviceToken : String
  stage1 : Rat
  stage2 : Rat
  stage3 : Rat
  lastStage : Nat
  lastNotifiedAt : Int
  createdAt : Int
  updatedAt : Int
  authVersion : Int
  registrationRevision : Nat
  deviceTokenHash : Option String
  signedAt : Option Int
  migrationStatus : MigrationStatus
  lastAuthOp : Option String
  deriving DecidableEq, Repr

/-- The row is under signed authentication. -/
def Row.isSigned (row : Row) : Bool :=
  decide (2 ≤ row.authVersion) || decide (row.migrationStatus = .signed)

/-- The vault is the primary key of the rows, and owner and nonce that of the nonces. -/
structure Store where
  rows : List Row
  unique : (rows.map (·.vault)).Nodup
  usedNonces : List ((String × String) × Int)

namespace Store

def getRegistration (s : Store) (vault : String) : Option Row :=
  s.rows.find? fun row => row.vault = vault

/-- `INSERT` of a row whose vault is not there. -/
def insert (s : Store) (row : Row) (h : s.getRegistration row.vault = none) : Store where
  rows := s.rows ++ [row]
  unique := by
    have hnone : ∀ r ∈ s.rows, r.vault ≠ row.vault := by simpa [getRegistration] using h
    rw [List.map_append, List.nodup_append]
    refine ⟨s.unique, List.nodup_singleton _, fun a ha b hb => ?_⟩
    obtain ⟨r, hr, rfl⟩ := List.mem_map.mp ha
    rw [List.map_singleton, List.mem_singleton] at hb
    rw [hb]
    exact hnone r hr
  usedNonces := s.usedNonces

/-- `UPDATE … WHERE vault = ?` of columns other than the vault. -/
def update (s : Store) (vault : String) (f : Row → Row) (hf : ∀ r, (f r).vault = r.vault) : Store where
  rows := s.rows.map fun row => if row.vault = vault then f row else row
  unique := by
    have hsame : (s.rows.map fun row => if row.vault = vault then f row else row).map (·.vault) =
        s.rows.map (·.vault) := by
      rw [List.map_map]
      refine List.map_congr_left fun row _ => ?_
      by_cases h : row.vault = vault <;> simp [h, hf]
    rw [hsame]
    exact s.unique
  usedNonces := s.usedNonces

/-- `DELETE … WHERE p`. -/
def delete (s : Store) (p : Row → Bool) : Store where
  rows := s.rows.filter fun row => !p row
  unique := s.unique.sublist (List.filter_sublist.map _)
  usedNonces := s.usedNonces

def nonceUsed (s : Store) (owner nonce : String) : Bool :=
  s.usedNonces.any fun entry => entry.1 = (owner, nonce)

/-- `INSERT OR IGNORE INTO used_nonces` of a nonce that is not there. -/
def claim (s : Store) (owner nonce : String) (usedAt : Int) : Store :=
  { s with usedNonces := s.usedNonces ++ [((owner, nonce), usedAt)] }

/-! Reading back what the statements have done. -/

theorem getRegistration_eq_some {s : Store} {vault : String} {row : Row} :
    s.getRegistration vault = some row ↔ row ∈ s.rows ∧ row.vault = vault := by
  constructor
  · intro h
    have hvault := List.find?_some h
    exact ⟨List.mem_of_find?_eq_some h, of_decide_eq_true hvault⟩
  · rintro ⟨hmem, rfl⟩
    cases h : s.getRegistration row.vault with
    | none =>
        rw [getRegistration, List.find?_eq_none] at h
        exact absurd (by simp) (h row hmem)
    | some row' =>
        -- The vault is a key of the table.
        have hmem' := List.mem_of_find?_eq_some h
        have hvault := List.find?_some h
        rw [decide_eq_true_eq] at hvault
        rw [List.inj_on_of_nodup_map s.unique hmem' hmem hvault]

@[simp] theorem getRegistration_insert {s : Store} {row : Row}
    (h : s.getRegistration row.vault = none) (vault : String) :
    (s.insert row h).getRegistration vault =
      if vault = row.vault then some row else s.getRegistration vault := by
  by_cases heq : vault = row.vault
  · rw [if_pos heq, getRegistration_eq_some]
    exact ⟨by simp [insert], heq.symm⟩
  · rw [if_neg heq]
    simp [getRegistration, insert, List.find?_append, Ne.symm heq]

@[simp] theorem getRegistration_update {s : Store} {vault : String} {f : Row → Row}
    (hf : ∀ r, (f r).vault = r.vault) (vault' : String) :
    (s.update vault f hf).getRegistration vault' =
      if vault' = vault then (s.getRegistration vault').map f else s.getRegistration vault' := by
  have hkey : ∀ row : Row, (if row.vault = vault then f row else row).vault = row.vault := by
    intro row
    split
    · exact hf row
    · rfl
  have hfind : (s.update vault f hf).getRegistration vault' =
      (s.getRegistration vault').map fun row => if row.vault = vault then f row else row := by
    simp only [getRegistration, update, List.find?_map, Function.comp_def, hkey]
  rw [hfind]
  cases h : s.getRegistration vault' with
  | none => simp
  | some row =>
      have hvault := (getRegistration_eq_some.mp h).2
      simp only [Option.map_some, hvault]
      split <;> rfl

@[simp] theorem getRegistration_delete {s : Store} {p : Row → Bool} (vault : String) :
    (s.delete p).getRegistration vault = (s.getRegistration vault).filter fun row => !p row := by
  apply Option.ext
  intro row
  rw [getRegistration_eq_some, Option.filter_eq_some_iff, getRegistration_eq_some]
  simp only [delete, List.mem_filter]
  tauto

@[simp] theorem getRegistration_claim {s : Store} {owner nonce : String} {usedAt : Int}
    (vault : String) :
    (s.claim owner nonce usedAt).getRegistration vault = s.getRegistration vault := rfl

end Store

/-- What an operation reports. -/
structure Outcome where
  code : Result
  removed : Nat := 0
  deriving DecidableEq, Repr

/-- A transaction of a database that may fail: then it is rolled back. -/
def transaction (dbFails : Bool) (txn : Store → Store × Outcome) (s : Store) : Store × Outcome :=
  if dbFails then (s, { code := .databaseError }) else txn s

/-! ## Signed operations -/

/-- The command of a signed registration, once it is authorized. -/
structure SignedRegistration where
  owner : String
  vault : String
  deviceToken : String
  deviceTokenHash : String
  stage1 : Rat
  stage2 : Rat
  stage3 : Rat
  revision : Nat
  signedAt : Int
  nonce : String
  nonceUsedAt : Int
  deriving DecidableEq, Repr

def SignedRegistration.fresh (cmd : SignedRegistration) : Row where
  vault := cmd.vault
  owner := cmd.owner
  deviceToken := cmd.deviceToken
  stage1 := cmd.stage1
  stage2 := cmd.stage2
  stage3 := cmd.stage3
  lastStage := 0
  lastNotifiedAt := 0
  createdAt := cmd.nonceUsedAt
  updatedAt := cmd.nonceUsedAt
  authVersion := 2
  registrationRevision := cmd.revision
  deviceTokenHash := some cmd.deviceTokenHash
  signedAt := some cmd.signedAt
  migrationStatus := .signed
  lastAuthOp := some "register"

/-- The notification state and the time of creation stay. -/
def SignedRegistration.renew (cmd : SignedRegistration) (row : Row) : Row :=
  { row with
    deviceToken := cmd.deviceToken
    stage1 := cmd.stage1
    stage2 := cmd.stage2
    stage3 := cmd.stage3
    updatedAt := cmd.nonceUsedAt
    authVersion := 2
    registrationRevision := cmd.revision
    deviceTokenHash := some cmd.deviceTokenHash
    signedAt := some cmd.signedAt
    migrationStatus := .signed
    lastAuthOp := some "register" }

@[simp] theorem SignedRegistration.renew_vault (cmd : SignedRegistration) (row : Row) :
    (cmd.renew row).vault = row.vault := rfl

def applySignedRegistration (dbFails : Bool) (cmd : SignedRegistration) : Store → Store × Outcome :=
  transaction dbFails fun s =>
    if s.nonceUsed cmd.owner cmd.nonce then (s, { code := .nonceReused })
    else
      -- A request that fails from here on has used up its nonce.
      let s := s.claim cmd.owner cmd.nonce cmd.nonceUsedAt
      match h : s.getRegistration cmd.vault with
      | none => (s.insert cmd.fresh h, { code := .created })
      | some row =>
        if row.owner ≠ cmd.owner then (s, { code := .ownerConflict })
        else if cmd.revision ≤ row.registrationRevision then (s, { code := .staleRevision })
        else (s.update cmd.vault cmd.renew fun _ => rfl, { code := .updated })

structure SignedDeregistration where
  owner : String
  vault : String
  nonce : String
  nonceUsedAt : Int
  signedAt : Int
  deriving DecidableEq, Repr

def applySignedDeregistration (dbFails : Bool) (cmd : SignedDeregistration) :
    Store → Store × Outcome :=
  transaction dbFails fun s =>
    if s.nonceUsed cmd.owner cmd.nonce then (s, { code := .nonceReused })
    else
      let s := s.claim cmd.owner cmd.nonce cmd.nonceUsedAt
      if (s.getRegistration cmd.vault).any fun row => row.owner ≠ cmd.owner then
        (s, { code := .ownerConflict })
      else
        let p := fun row : Row => decide (row.vault = cmd.vault) && decide (row.owner = cmd.owner)
        (s.delete p, { code := .removed, removed := s.rows.countP p })

/-! ## Legacy operations -/

structure LegacyRegistration where
  owner : String
  vault : String
  deviceToken : String
  stage1 : Rat
  stage2 : Rat
  stage3 : Rat
  now : Int
  deriving DecidableEq, Repr

def LegacyRegistration.fresh (cmd : LegacyRegistration) : Row where
  vault := cmd.vault
  owner := cmd.owner
  deviceToken := cmd.deviceToken
  stage1 := cmd.stage1
  stage2 := cmd.stage2
  stage3 := cmd.stage3
  lastStage := 0
  lastNotifiedAt := 0
  createdAt := cmd.now
  updatedAt := cmd.now
  authVersion := 1
  registrationRevision := 0
  deviceTokenHash := none
  signedAt := none
  migrationStatus := .legacy
  lastAuthOp := some "register"

def LegacyRegistration.renew (cmd : LegacyRegistration) (row : Row) : Row :=
  { row with
    owner := cmd.owner
    deviceToken := cmd.deviceToken
    stage1 := cmd.stage1
    stage2 := cmd.stage2
    stage3 := cmd.stage3
    updatedAt := cmd.now }

def applyLegacyRegistration (dbFails : Bool) (cmd : LegacyRegistration) : Store → Store × Outcome :=
  transaction dbFails fun s =>
    match h : s.getRegistration cmd.vault with
    | none => (s.insert cmd.fresh h, { code := .created })
    | some row =>
      if row.isSigned then (s, { code := .signedAuthorizationRequired })
      else (s.update cmd.vault cmd.renew fun _ => rfl, { code := .updated })

/-- Delete the row of a vault; the routes never pass an owner. -/
def deleteLegacyRegistration (dbFails : Bool) (vault : String) : Store → Store × Outcome :=
  transaction dbFails fun s =>
    match s.getRegistration vault with
    | none => (s, { code := .removed })
    | some row =>
      if row.isSigned then (s, { code := .signedAuthorizationRequired })
      else
        let p := fun row : Row => decide (row.vault = vault)
        (s.delete p, { code := .removed, removed := s.rows.countP p })

/-- Delete the rows of an owner that are not signed. -/
def deleteLegacyRegistrationsByOwner (dbFails : Bool) (owner : String) : Store → Store × Outcome :=
  transaction dbFails fun s =>
    let p := fun row : Row => decide (row.owner = owner) && decide (row.authVersion < 2) &&
      decide (row.migrationStatus ≠ .signed)
    (s.delete p, { code := .removed, removed := s.rows.countP p })

/-! ## The poller's operations -/

/-- The poller removes any row, signed or not. -/
def Store.deleteRegistration (s : Store) (vault : String) : Store :=
  s.delete fun row => row.vault = vault

def Store.updateNotifyState (s : Store) (vault : String) (lastStage : Nat) (lastNotifiedAt : Int) :
    Store :=
  s.update vault (fun row => { row with lastStage := lastStage, lastNotifiedAt := lastNotifiedAt })
    fun _ => rfl

def Store.pruneNonces (s : Store) (olderThan : Int) : Store :=
  { s with usedNonces := s.usedNonces.filter fun entry => !decide (entry.2 < olderThan) }

end DeadMansVault.Notify
