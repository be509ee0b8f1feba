-- SUMMARY: Request bodies, the canonical messages that owners sign, and the checks a signed request passes.
import Mathlib.Algebra.Group.Int.Defs
import Mathlib.Algebra.GroupWithZero.Nat
import DeadMansVault.Notify.Store
import Mathlib.Data.String.Basic

/-!
# Signed requests

A signed request carries an envelope of fields, and the owner's signature over a
message that is rebuilt from them. The checks here come before any access to the
chain, except for the ownership of the vault, whose verdict arrives later. What
the runtime and its packages compute (hashes, keys, signatures) is a parameter.
-/

namespace DeadMansVault.Notify

inductive Json
  | null
  | bool (b : Bool)
  | number (n : Rat)
  | string (s : String)
  | array (items : List Json)
  | object (fields : List (String × Json))

/-- The own properties of a request body. -/
abbrev Body := List (String × Json)

/-- A property of the body; `none` is `undefined`. -/
def Body.get (body : Body) (name : String) : Option Json := body.lookup name

/-- What the server takes from the language's runtime and from its packages. -/
structure Host where
  /-- `new PublicKey(value)` does not throw. -/
  isPubkey : Json → Bool
  /-- `new PublicKey(text).toBase58() === text`. -/
  canonicalPubkey : String → Bool
  /-- `Number(value)`, when it is finite. -/
  number : Option Json → Option Rat
  sha256Hex : String → String
  /-- The vault address of an owner under a program. -/
  findVaultPda : String → String → Option String
  bs58Decode : String → Option (List UInt8)
  bs58Encode : List UInt8 → String
  verifyEd25519 : String → List UInt8 → List UInt8 → Bool
  /-- The text that a value is bound as in a statement; objects and the like throw. -/
  bindText : Json → Option String

/-! ## Canonical messages -/

def registerDomainV2 : String := "DMV_NOTIFY_REGISTER_V2"
def deregisterDomainV2 : String := "DMV_NOTIFY_DEREGISTER_V2"
def notifyAuthVersionV2 : Nat := 2
def notifyAudience : String := "https://notify.palatinearc.com"

/-- The length of a text in UTF-16 units. -/
def utf16Length (s : String) : Nat :=
  (s.toList.map fun c => if c.val < 0x10000 then 1 else 2).sum

def base58Chars : List Char :=
  "123456789ABCDEFGHJKLMNPQRSTUVWXYZabcdefghijkmnopqrstuvwxyz".toList

def v2Cluster : Option Json → Option String
  | some (.string c) => if c = "devnet" ∨ c = "mainnet-beta" then some c else none
  | _ => none

def v2Pubkey (host : Host) : Option Json → Option String
  | some (.string k) => if k ≠ "" ∧ host.canonicalPubkey k = true then some k else none
  | _ => none

def v2TokenHash (h : String) : Option String :=
  if h.length = 64 ∧ h.toList.all (fun c => c.isDigit || ('a' ≤ c && c ≤ 'f')) = true then some h
  else none

/-- A safe positive integer. -/
def v2PosInt : Option Json → Option Nat
  | some (.number n) =>
    if n.den = 1 ∧ 0 < n.num ∧ n.num ≤ 2 ^ 53 - 1 then some n.num.toNat else none
  | _ => none

def v2Nonce : Option Json → Option String
  | some (.string x) =>
    if 22 ≤ utf16Length x ∧ utf16Length x ≤ 64 ∧ x.toList.all (· ∈ base58Chars) = true then some x
    else none
  | _ => none

structure RegisterFieldsV2 where
  cluster : String
  programId : String
  owner : String
  vault : String
  deviceTokenHash : String
  stage1 : Nat
  stage2 : Nat
  stage3 : Nat
  revision : Nat
  timestamp : Nat
  nonce : String

/-- The validated fields; the message is built from nothing else. -/
def registerFieldsV2 (host : Host) (body : Body) (deviceTokenHash : String) :
    Option RegisterFieldsV2 := do
  let cluster ← v2Cluster (body.get "cluster")
  let programId ← v2Pubkey host (body.get "programId")
  let owner ← v2Pubkey host (body.get "owner")
  let vault ← v2Pubkey host (body.get "vault")
  let deviceTokenHash ← v2TokenHash deviceTokenHash
  let stage1 ← v2PosInt (body.get "stage1")
  let stage2 ← v2PosInt (body.get "stage2")
  let stage3 ← v2PosInt (body.get "stage3")
  let revision ← v2PosInt (body.get "revision")
  let timestamp ← v2PosInt (body.get "timestamp")
  let nonce ← v2Nonce (body.get "nonce")
  some { cluster, programId, owner, vault, deviceTokenHash, stage1, stage2, stage3, revision,
         timestamp, nonce }

def registerMessageV2 (f : RegisterFieldsV2) : String :=
  "\n".intercalate [
    registerDomainV2,
    "version=" ++ toString notifyAuthVersionV2,
    "cluster=" ++ f.cluster,
    "programId=" ++ f.programId,
    "audience=" ++ notifyAudience,
    "action=register",
    "owner=" ++ f.owner,
    "vault=" ++ f.vault,
    "deviceTokenHash=" ++ f.deviceTokenHash,
    "stage1=" ++ toString f.stage1,
    "stage2=" ++ toString f.stage2,
    "stage3=" ++ toString f.stage3,
    "revision=" ++ toString f.revision,
    "timestamp=" ++ toString f.timestamp,
    "nonce=" ++ f.nonce]

structure DeregisterFieldsV2 where
  cluster : String
  programId : String
  owner : String
  vault : String
  timestamp : Nat
  nonce : String

def deregisterFieldsV2 (host : Host) (body : Body) : Option DeregisterFieldsV2 := do
  let cluster ← v2Cluster (body.get "cluster")
  let programId ← v2Pubkey host (body.get "programId")
  let owner ← v2Pubkey host (body.get "owner")
  let vault ← v2Pubkey host (body.get "vault")
  let timestamp ← v2PosInt (body.get "timestamp")
  let nonce ← v2Nonce (body.get "nonce")
  some { cluster, programId, owner, vault, timestamp, nonce }

def deregisterMessageV2 (f : DeregisterFieldsV2) : String :=
  "\n".intercalate [
    deregisterDomainV2,
    "version=" ++ toString notifyAuthVersionV2,
    "cluster=" ++ f.cluster,
    "programId=" ++ f.programId,
    "audience=" ++ notifyAudience,
    "action=deregister",
    "owner=" ++ f.owner,
    "vault=" ++ f.vault,
    "timestamp=" ++ toString f.timestamp,
    "nonce=" ++ f.nonce]

/-! ## Authorization -/

/-- The trusted context of the deployment. -/
structure Expected where
  cluster : String
  programId : String
  audience : String

def sigWindowSec : Int := 600
def deviceTokenMin : Nat := 32
def deviceTokenMax : Nat := 4096

/-- Whitespace, controls, and line and paragraph separators. -/
def tokenDisallowed (c : Char) : Bool :=
  let n := c.val.toNat
  n ≤ 0x20 || (0x7f ≤ n && n ≤ 0xa0) || n == 0x1680 || (0x2000 ≤ n && n ≤ 0x200a) ||
    n == 0x2028 || n == 0x2029 || n == 0x202f || n == 0x205f || n == 0x3000 || n == 0xfeff

def validDeviceToken : Option Json → Option String
  | some (.string t) =>
    if deviceTokenMin ≤ utf16Length t ∧ utf16Length t ≤ deviceTokenMax ∧
      t.toList.any tokenDisallowed = false then some t
    else none
  | _ => none

/-- `value === text`. -/
def Json.isText (value : Option Json) (text : String) : Bool :=
  match value with
  | some (.string s) => s = text
  | _ => false

def contextMismatch (body : Body) (expected : Expected) : Bool :=
  expected.audience ≠ notifyAudience || !Json.isText (body.get "cluster") expected.cluster ||
    !Json.isText (body.get "programId") expected.programId ||
    !Json.isText (body.get "audience") expected.audience

def freshnessError (timestamp : Option Json) (now : Int) : Option Result :=
  match timestamp with
  | some (.number n) =>
    if n.den ≠ 1 ∨ n.num ≤ 0 then some .invalidRequest
    else if sigWindowSec < (now - n.num).natAbs then some .staleTimestamp
    else none
  | _ => some .invalidRequest

/-- Exactly 64 bytes, in canonical Base58. -/
def decodeSignature (host : Host) : Option Json → Option (List UInt8)
  | some (.string sig) => do
    let bytes ← host.bs58Decode sig
    if bytes.length = 64 ∧ host.bs58Encode bytes = sig then some bytes else none
  | _ => none

def decodeOwnerBytes (host : Host) (owner : String) : Option (List UInt8) := do
  let bytes ← host.bs58Decode owner
  if bytes.length = 32 then some bytes else none

def isVersionV2 : Option Json → Bool
  | some (.number n) => n = notifyAuthVersionV2
  | _ => false

/-- The value, or the code of the failed check. -/
def orFail {α : Type} (code : Result) : Option α → Except Result α
  | some a => .ok a
  | none => .error code

/-- The signature of the owner over the message. -/
def checkSignature (host : Host) (message owner : String) (signature : Option Json) :
    Except Result Unit := do
  let sigBytes ← orFail .invalidSignature (decodeSignature host signature)
  let ownerBytes ← orFail .invalidRequest (decodeOwnerBytes host owner)
  if host.verifyEd25519 message sigBytes ownerBytes then .ok () else .error .invalidSignature

/-- The checks of a signed registration before the ownership of the vault is verified. -/
def authorizeRegisterV2 (host : Host) (expected : Expected) (now : Int) (body : Body) :
    Except Result SignedRegistration := do
  if !isVersionV2 (body.get "version") then throw .invalidRequest
  if !Json.isText (body.get "action") "register" then throw .invalidRequest
  if contextMismatch body expected then throw .contextMismatch
  let deviceToken ← orFail .invalidRequest (validDeviceToken (body.get "deviceToken"))
  if let some code := freshnessError (body.get "timestamp") now then throw code
  let fields ← orFail .invalidRequest (registerFieldsV2 host body (host.sha256Hex deviceToken))
  checkSignature host (registerMessageV2 fields) fields.owner (body.get "signature")
  return {
    owner := fields.owner
    vault := fields.vault
    deviceToken := deviceToken
    deviceTokenHash := fields.deviceTokenHash
    stage1 := fields.stage1
    stage2 := fields.stage2
    stage3 := fields.stage3
    revision := fields.revision
    signedAt := fields.timestamp
    nonce := fields.nonce
    nonceUsedAt := now }

/-- The checks of a signed deregistration; the flag says that the ownership of the vault
    is still to be verified, because the store does not know the vault. -/
def authorizeDeregisterV2 (host : Host) (expected : Expected) (now : Int) (store : Store)
    (body : Body) : Except Result (SignedDeregistration × Bool) := do
  if !isVersionV2 (body.get "version") then throw .invalidRequest
  if !Json.isText (body.get "action") "deregister" then throw .invalidRequest
  if contextMismatch body expected then throw .contextMismatch
  if let some code := freshnessError (body.get "timestamp") now then throw code
  let fields ← orFail .invalidRequest (deregisterFieldsV2 host body)
  let pda ← orFail .invalidRequest (host.findVaultPda fields.owner fields.programId)
  if pda ≠ fields.vault then throw .contextMismatch
  checkSignature host (deregisterMessageV2 fields) fields.owner (body.get "signature")
  let command : SignedDeregistration := {
    owner := fields.owner
    vault := fields.vault
    nonce := fields.nonce
    nonceUsedAt := now
    signedAt := fields.timestamp }
  match store.getRegistration fields.vault with
  | some row => if row.owner = fields.owner then return (command, false) else throw .ownerConflict
  | none => return (command, true)

/-- What the verification of a vault's ownership ends with. -/
inductive OwnershipVerdict
  | owned
  | refused
  /-- The chain could not be read; the signed path tells this from a refusal. -/
  | unavailable
  /-- The verifier itself threw. -/
  | threw
  deriving DecidableEq, Repr

def classifyOwnership : OwnershipVerdict → Option Result
  | .owned => none
  | .refused => some .ownershipFailed
  | .unavailable | .threw => some .dependencyUnavailable

end DeadMansVault.Notify
