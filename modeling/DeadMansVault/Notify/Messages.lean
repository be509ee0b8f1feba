-- SUMMARY: The builders of the messages that owners sign, and what they throw.
import DeadMansVault.Library.Lines
import DeadMansVault.Notify.Authorization
import Mathlib.Algebra.Order.Field.Rat

/-!
# Signed messages

The builders take the values of a caller as they are. Those of the first version
interpolate them; those of the second check each field in turn, and throw at the
first that is malformed.
-/

namespace DeadMansVault.Notify

/-! ## The first version -/

def registerDomain : String := "DMV_NOTIFY_REGISTER_V1"
def deregisterDomain : String := "DMV_NOTIFY_DEREGISTER_V1"

/-- Each field as the text that it is interpolated as. -/
structure RegisterFields where
  owner : String
  vault : String
  deviceTokenHash : String
  stage1 : String
  stage2 : String
  stage3 : String
  timestamp : String
  nonce : String

def registerMessage (f : RegisterFields) : String :=
  "\n".intercalate [
    registerDomain,
    "owner=" ++ f.owner,
    "vault=" ++ f.vault,
    "deviceTokenHash=" ++ f.deviceTokenHash,
    "stage1=" ++ f.stage1,
    "stage2=" ++ f.stage2,
    "stage3=" ++ f.stage3,
    "timestamp=" ++ f.timestamp,
    "nonce=" ++ f.nonce]

structure DeregisterFields where
  owner : String
  vault : String
  timestamp : String
  nonce : String

def deregisterMessage (f : DeregisterFields) : String :=
  "\n".intercalate [
    deregisterDomain,
    "owner=" ++ f.owner,
    "vault=" ++ f.vault,
    "timestamp=" ++ f.timestamp,
    "nonce=" ++ f.nonce]

/-! ## The second version -/

/-- The values given; `none` is `undefined`, or a value that is none of a request's. -/
structure RegisterValues where
  cluster : Option Json
  programId : Option Json
  owner : Option Json
  vault : Option Json
  deviceTokenHash : Option Json
  stage1 : Option Json
  stage2 : Option Json
  stage3 : Option Json
  revision : Option Json
  timestamp : Option Json
  nonce : Option Json

structure DeregisterValues where
  cluster : Option Json
  programId : Option Json
  owner : Option Json
  vault : Option Json
  timestamp : Option Json
  nonce : Option Json

def orThrow {α : Type} (message : String) : Option α → Except String α
  | some a => .ok a
  | none => .error message

/-- What is wrong with a key that is not canonical. -/
def pubkeyError (host : Host) (k : Option Json) (field : String) : String :=
  match k with
  | some (.string k) =>
    if k ≠ "" ∧ host.isPubkey (.string k) = true then "noncanonical " ++ field else "invalid " ++ field
  | _ => "invalid " ++ field

def checkPubkey (host : Host) (k : Option Json) (field : String) : Except String String :=
  orThrow (pubkeyError host k field) (v2Pubkey host k)

def checkTokenHash : Option Json → Except String String
  | some (.string h) => orThrow "invalid deviceTokenHash" (v2TokenHash h)
  | _ => .error "invalid deviceTokenHash"

def checkPosInt (n : Option Json) (field : String) : Except String Nat :=
  orThrow ("invalid " ++ field) (v2PosInt n)

def checkRegister (host : Host) (v : RegisterValues) : Except String RegisterFieldsV2 := do
  let cluster ← orThrow "invalid cluster" (v2Cluster v.cluster)
  let programId ← checkPubkey host v.programId "programId"
  let owner ← checkPubkey host v.owner "owner"
  let vault ← checkPubkey host v.vault "vault"
  let deviceTokenHash ← checkTokenHash v.deviceTokenHash
  let stage1 ← checkPosInt v.stage1 "stage1"
  let stage2 ← checkPosInt v.stage2 "stage2"
  let stage3 ← checkPosInt v.stage3 "stage3"
  let revision ← checkPosInt v.revision "revision"
  let timestamp ← checkPosInt v.timestamp "timestamp"
  let nonce ← orThrow "invalid nonce" (v2Nonce v.nonce)
  return { cluster, programId, owner, vault, deviceTokenHash, stage1, stage2, stage3, revision,
           timestamp, nonce }

/-- `registerMessageV2` of the server -/
def buildRegisterMessageV2 (host : Host) (v : RegisterValues) : Except String String :=
  registerMessageV2 <$> checkRegister host v

def checkDeregister (host : Host) (v : DeregisterValues) : Except String DeregisterFieldsV2 := do
  let cluster ← orThrow "invalid cluster" (v2Cluster v.cluster)
  let programId ← checkPubkey host v.programId "programId"
  let owner ← checkPubkey host v.owner "owner"
  let vault ← checkPubkey host v.vault "vault"
  let timestamp ← checkPosInt v.timestamp "timestamp"
  let nonce ← orThrow "invalid nonce" (v2Nonce v.nonce)
  return { cluster, programId, owner, vault, timestamp, nonce }

/-- `deregisterMessageV2` of the server -/
def buildDeregisterMessageV2 (host : Host) (v : DeregisterValues) : Except String String :=
  deregisterMessageV2 <$> checkDeregister host v

/-! ## What a check accepts -/

variable {host : Host} {v : Option Json} {field s : String}

theorem orThrow_ok {α : Type} {message : String} {o : Option α} {a : α}
    (h : orThrow message o = .ok a) : o = some a := by
  cases o with
  | none => cases h
  | some b =>
      cases h
      rfl

theorem v2Cluster_eq_some {c : String} (h : v2Cluster v = some c) :
    v = some (.string c) ∧ Plain c := by
  unfold v2Cluster at h
  split at h
  next c' =>
    split at h
    next hc =>
      cases h
      refine ⟨rfl, ?_⟩
      rcases hc with rfl | rfl
      · unfold Plain
        decide
      · unfold Plain
        decide
    next => cases h
  next => cases h

/-- What the package promises: a canonical key is one, and is Base58. -/
structure Host.Base58 (host : Host) : Prop where
  isPubkey : ∀ k, host.canonicalPubkey k = true → host.isPubkey (.string k) = true
  chars : ∀ k, host.canonicalPubkey k = true → k.toList.all (· ∈ base58Chars) = true

theorem newline_not_base58 : decide ('\n' ∈ base58Chars) = false := by decide

theorem checkPubkey_ok (hhost : host.Base58) (h : checkPubkey host v field = .ok s) :
    v = some (.string s) ∧ Plain s := by
  have hkey := orThrow_ok h
  unfold v2Pubkey at hkey
  split at hkey
  next k =>
    split at hkey
    next hk =>
      cases hkey
      exact ⟨rfl, plain_of_forall (hhost.chars _ hk.2) newline_not_base58⟩
    next => cases hkey
  next => cases hkey

theorem checkTokenHash_ok (h : checkTokenHash v = .ok s) : v = some (.string s) ∧ Plain s := by
  unfold checkTokenHash at h
  split at h
  next hash =>
    have hhash := orThrow_ok h
    unfold v2TokenHash at hhash
    split at hhash
    next hchars =>
      cases hhash
      exact ⟨rfl, plain_of_forall hchars.2 (by decide)⟩
    next => cases hhash
  next => cases h

theorem checkPosInt_ok {n : Nat} (h : checkPosInt v field = .ok n) :
    v = some (.number (n : Rat)) := by
  have hint := orThrow_ok h
  unfold v2PosInt at hint
  split at hint
  next q =>
    split at hint
    next hq =>
      cases hint
      have hcast : ((q.num.toNat : Int) : Rat) = q := by
        rw [Int.toNat_of_nonneg hq.2.1.le]
        exact (Rat.den_eq_one_iff q).mp hq.1
      rw [← Int.cast_natCast, hcast]
    next => cases hint
  next => cases hint

theorem v2Nonce_eq_some (h : v2Nonce v = some s) : v = some (.string s) ∧ Plain s := by
  unfold v2Nonce at h
  split at h
  next x =>
    split at h
    next hx =>
      cases h
      exact ⟨rfl, plain_of_forall hx.2.2 newline_not_base58⟩
    next => cases h
  next => cases h

/-! ## Messages as keyed lines -/

def registerKeys : List String :=
  [registerDomainV2, "version=", "cluster=", "programId=", "audience=", "action=register", "owner=",
    "vault=", "deviceTokenHash=", "stage1=", "stage2=", "stage3=", "revision=", "timestamp=",
    "nonce="]

def RegisterFieldsV2.texts (f : RegisterFieldsV2) : List String :=
  ["", toString notifyAuthVersionV2, f.cluster, f.programId, notifyAudience, "", f.owner, f.vault,
    f.deviceTokenHash, toString f.stage1, toString f.stage2, toString f.stage3,
    toString f.revision, toString f.timestamp, f.nonce]

theorem registerMessageV2_eq (f : RegisterFieldsV2) :
    registerMessageV2 f = keyed registerKeys f.texts := by
  simp only [registerMessageV2, keyed, registerKeys, RegisterFieldsV2.texts, List.zipWith,
    String.append_empty]

def deregisterKeys : List String :=
  [deregisterDomainV2, "version=", "cluster=", "programId=", "audience=", "action=deregister",
    "owner=", "vault=", "timestamp=", "nonce="]

def DeregisterFieldsV2.texts (f : DeregisterFieldsV2) : List String :=
  ["", toString notifyAuthVersionV2, f.cluster, f.programId, notifyAudience, "", f.owner, f.vault,
    toString f.timestamp, f.nonce]

theorem deregisterMessageV2_eq (f : DeregisterFieldsV2) :
    deregisterMessageV2 f = keyed deregisterKeys f.texts := by
  simp only [deregisterMessageV2, keyed, deregisterKeys, DeregisterFieldsV2.texts, List.zipWith,
    String.append_empty]

/-- The values that the fields were read from. -/
def RegisterFieldsV2.values (f : RegisterFieldsV2) : RegisterValues where
  cluster := some (.string f.cluster)
  programId := some (.string f.programId)
  owner := some (.string f.owner)
  vault := some (.string f.vault)
  deviceTokenHash := some (.string f.deviceTokenHash)
  stage1 := some (.number f.stage1)
  stage2 := some (.number f.stage2)
  stage3 := some (.number f.stage3)
  revision := some (.number f.revision)
  timestamp := some (.number f.timestamp)
  nonce := some (.string f.nonce)

def DeregisterFieldsV2.values (f : DeregisterFieldsV2) : DeregisterValues where
  cluster := some (.string f.cluster)
  programId := some (.string f.programId)
  owner := some (.string f.owner)
  vault := some (.string f.vault)
  timestamp := some (.number f.timestamp)
  nonce := some (.string f.nonce)

theorem bind_ok {α β : Type} {x : Except String α} {f : α → Except String β} {b : β}
    (h : (x >>= f) = .ok b) : ∃ a, x = .ok a ∧ f a = .ok b := by
  cases x with
  | error e => cases h
  | ok a => exact ⟨a, rfl, h⟩

theorem checkRegister_ok (hhost : host.Base58) {v : RegisterValues} {f : RegisterFieldsV2}
    (h : checkRegister host v = .ok f) : v = f.values ∧ ∀ t ∈ f.texts, Plain t := by
  unfold checkRegister at h
  obtain ⟨cluster, hcluster, h⟩ := bind_ok h
  obtain ⟨programId, hprogramId, h⟩ := bind_ok h
  obtain ⟨owner, howner, h⟩ := bind_ok h
  obtain ⟨vault, hvault, h⟩ := bind_ok h
  obtain ⟨hash, hhash, h⟩ := bind_ok h
  obtain ⟨stage1, hstage1, h⟩ := bind_ok h
  obtain ⟨stage2, hstage2, h⟩ := bind_ok h
  obtain ⟨stage3, hstage3, h⟩ := bind_ok h
  obtain ⟨revision, hrevision, h⟩ := bind_ok h
  obtain ⟨timestamp, htimestamp, h⟩ := bind_ok h
  obtain ⟨nonce, hnonce, h⟩ := bind_ok h
  cases h
  obtain ⟨hcluster, hplainCluster⟩ := v2Cluster_eq_some (orThrow_ok hcluster)
  obtain ⟨hprogramId, hplainProgramId⟩ := checkPubkey_ok hhost hprogramId
  obtain ⟨howner, hplainOwner⟩ := checkPubkey_ok hhost howner
  obtain ⟨hvault, hplainVault⟩ := checkPubkey_ok hhost hvault
  obtain ⟨hhash, hplainHash⟩ := checkTokenHash_ok hhash
  obtain ⟨hnonce, hplainNonce⟩ := v2Nonce_eq_some (orThrow_ok hnonce)
  refine ⟨?_, ?_⟩
  · cases v
    simp only at *
    subst hcluster hprogramId howner hvault hhash hnonce
    rw [checkPosInt_ok hstage1, checkPosInt_ok hstage2, checkPosInt_ok hstage3,
      checkPosInt_ok hrevision, checkPosInt_ok htimestamp]
    rfl
  · have hconst : Plain "" ∧ Plain (toString notifyAuthVersionV2) ∧ Plain notifyAudience := by
      unfold Plain
      decide
    simp only [RegisterFieldsV2.texts, List.forall_mem_cons]
    exact ⟨hconst.1, hconst.2.1, hplainCluster, hplainProgramId, hconst.2.2, hconst.1, hplainOwner,
      hplainVault, hplainHash, plain_repr _, plain_repr _, plain_repr _, plain_repr _,
      plain_repr _, hplainNonce, by simp⟩

theorem checkDeregister_ok (hhost : host.Base58) {v : DeregisterValues} {f : DeregisterFieldsV2}
    (h : checkDeregister host v = .ok f) : v = f.values ∧ ∀ t ∈ f.texts, Plain t := by
  unfold checkDeregister at h
  obtain ⟨cluster, hcluster, h⟩ := bind_ok h
  obtain ⟨programId, hprogramId, h⟩ := bind_ok h
  obtain ⟨owner, howner, h⟩ := bind_ok h
  obtain ⟨vault, hvault, h⟩ := bind_ok h
  obtain ⟨timestamp, htimestamp, h⟩ := bind_ok h
  obtain ⟨nonce, hnonce, h⟩ := bind_ok h
  cases h
  obtain ⟨hcluster, hplainCluster⟩ := v2Cluster_eq_some (orThrow_ok hcluster)
  obtain ⟨hprogramId, hplainProgramId⟩ := checkPubkey_ok hhost hprogramId
  obtain ⟨howner, hplainOwner⟩ := checkPubkey_ok hhost howner
  obtain ⟨hvault, hplainVault⟩ := checkPubkey_ok hhost hvault
  obtain ⟨hnonce, hplainNonce⟩ := v2Nonce_eq_some (orThrow_ok hnonce)
  refine ⟨?_, ?_⟩
  · cases v
    simp only at *
    subst hcluster hprogramId howner hvault hnonce
    rw [checkPosInt_ok htimestamp]
    rfl
  · have hconst : Plain "" ∧ Plain (toString notifyAuthVersionV2) ∧ Plain notifyAudience := by
      unfold Plain
      decide
    simp only [DeregisterFieldsV2.texts, List.forall_mem_cons]
    exact ⟨hconst.1, hconst.2.1, hplainCluster, hplainProgramId, hconst.2.2, hconst.1, hplainOwner,
      hplainVault, plain_repr _, hplainNonce, by simp⟩

end DeadMansVault.Notify
