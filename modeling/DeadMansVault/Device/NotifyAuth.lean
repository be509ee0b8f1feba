-- SUMMARY: The app's own copy of the message builders of the second version.
import DeadMansVault.Notify.Messages

/-!
# The app's message builders

The app keeps a copy of the server's canonical formats. Each check here returns the
text that goes into the message, or throws; the keys are read with the same package.
-/

namespace DeadMansVault.Device.NotifyAuth

open Notify (Host Json utf16Length base58Chars RegisterValues DeregisterValues)

def registerDomainV2 : String := "DMV_NOTIFY_REGISTER_V2"
def deregisterDomainV2 : String := "DMV_NOTIFY_DEREGISTER_V2"
def notifyAuthVersionV2 : Nat := 2
def notifyAudience : String := "https://notify.palatinearc.com"

def v2Cluster : Option Json → Except String String
  | some (.string c) =>
    if c ≠ "devnet" ∧ c ≠ "mainnet-beta" then .error "invalid cluster" else .ok c
  | _ => .error "invalid cluster"

def v2Pubkey (host : Host) (k : Option Json) (field : String) : Except String String :=
  match k with
  | some (.string k) =>
    if k = "" then .error ("invalid " ++ field)
    else if host.isPubkey (.string k) = false then .error ("invalid " ++ field)
    else if host.canonicalPubkey k = false then .error ("noncanonical " ++ field)
    else .ok k
  | _ => .error ("invalid " ++ field)

def v2TokenHash : Option Json → Except String String
  | some (.string h) =>
    if h.length = 64 ∧ h.toList.all (fun c => c.isDigit || ('a' ≤ c && c ≤ 'f')) = true then .ok h
    else .error "invalid deviceTokenHash"
  | _ => .error "invalid deviceTokenHash"

def v2PosInt (n : Option Json) (field : String) : Except String String :=
  match n with
  | some (.number n) =>
    if n.den ≠ 1 ∨ 2 ^ 53 - 1 < n.num.natAbs ∨ n.num ≤ 0 then .error ("invalid " ++ field)
    else .ok (toString n.num.natAbs)
  | _ => .error ("invalid " ++ field)

def v2Nonce : Option Json → Except String String
  | some (.string x) =>
    if utf16Length x < 22 ∨ 64 < utf16Length x ∨ x.toList.all (· ∈ base58Chars) = false then
      .error "invalid nonce"
    else .ok x
  | _ => .error "invalid nonce"

def registerMessageV2 (host : Host) (f : RegisterValues) : Except String String := do
  let cluster ← v2Cluster f.cluster
  let programId ← v2Pubkey host f.programId "programId"
  let owner ← v2Pubkey host f.owner "owner"
  let vault ← v2Pubkey host f.vault "vault"
  let deviceTokenHash ← v2TokenHash f.deviceTokenHash
  let stage1 ← v2PosInt f.stage1 "stage1"
  let stage2 ← v2PosInt f.stage2 "stage2"
  let stage3 ← v2PosInt f.stage3 "stage3"
  let revision ← v2PosInt f.revision "revision"
  let timestamp ← v2PosInt f.timestamp "timestamp"
  let nonce ← v2Nonce f.nonce
  return "\n".intercalate [
    registerDomainV2,
    "version=" ++ toString notifyAuthVersionV2,
    "cluster=" ++ cluster,
    "programId=" ++ programId,
    "audience=" ++ notifyAudience,
    "action=register",
    "owner=" ++ owner,
    "vault=" ++ vault,
    "deviceTokenHash=" ++ deviceTokenHash,
    "stage1=" ++ stage1,
    "stage2=" ++ stage2,
    "stage3=" ++ stage3,
    "revision=" ++ revision,
    "timestamp=" ++ timestamp,
    "nonce=" ++ nonce]

def deregisterMessageV2 (host : Host) (f : DeregisterValues) : Except String String := do
  let cluster ← v2Cluster f.cluster
  let programId ← v2Pubkey host f.programId "programId"
  let owner ← v2Pubkey host f.owner "owner"
  let vault ← v2Pubkey host f.vault "vault"
  let timestamp ← v2PosInt f.timestamp "timestamp"
  let nonce ← v2Nonce f.nonce
  return "\n".intercalate [
    deregisterDomainV2,
    "version=" ++ toString notifyAuthVersionV2,
    "cluster=" ++ cluster,
    "programId=" ++ programId,
    "audience=" ++ notifyAudience,
    "action=deregister",
    "owner=" ++ owner,
    "vault=" ++ vault,
    "timestamp=" ++ timestamp,
    "nonce=" ++ nonce]

/-! ## Both copies check alike -/

variable {host : Host}

theorem v2Cluster_eq : ∀ v, v2Cluster v = Notify.orThrow "invalid cluster" (Notify.v2Cluster v)
  | some (.string c) => by
      simp only [v2Cluster, Notify.v2Cluster]
      by_cases hc : c = "devnet" ∨ c = "mainnet-beta"
      · rw [if_pos hc, if_neg fun h => hc.elim h.1 h.2]
        rfl
      · rw [if_neg hc, if_pos (not_or.mp hc)]
        rfl
  | none | some .null | some (.bool _) | some (.number _) | some (.array _) | some (.object _) => rfl

theorem v2Pubkey_eq (hhost : host.Base58) (field : String) :
    ∀ v, v2Pubkey host v field = Notify.checkPubkey host v field
  | some (.string k) => by
      simp only [v2Pubkey, Notify.checkPubkey, Notify.v2Pubkey, Notify.pubkeyError]
      by_cases hempty : k = ""
      · simp [hempty, Notify.orThrow]
      · cases hcanonical : host.canonicalPubkey k with
        | true => simp [hempty, hhost.isPubkey k hcanonical, Notify.orThrow]
        | false => cases hkey : host.isPubkey (.string k) <;> simp [hempty, Notify.orThrow]
  | none | some .null | some (.bool _) | some (.number _) | some (.array _) | some (.object _) => rfl

theorem v2TokenHash_eq : ∀ v, v2TokenHash v = Notify.checkTokenHash v
  | some (.string h) => by
      simp only [v2TokenHash, Notify.checkTokenHash, Notify.v2TokenHash]
      split <;> rfl
  | none | some .null | some (.bool _) | some (.number _) | some (.array _) | some (.object _) => rfl

theorem v2PosInt_eq (field : String) :
    ∀ v, v2PosInt v field = toString <$> Notify.checkPosInt v field
  | some (.number n) => by
      simp only [v2PosInt, Notify.checkPosInt, Notify.v2PosInt]
      by_cases hn : n.den = 1 ∧ 0 < n.num ∧ n.num ≤ 2 ^ 53 - 1
      · have hin : ¬(n.den ≠ 1 ∨ 2 ^ 53 - 1 < n.num.natAbs ∨ n.num ≤ 0) := by
          refine not_or.mpr ⟨not_not_intro hn.1, ?_⟩
          omega
        have habs : n.num.natAbs = n.num.toNat := by omega
        rw [if_pos hn, if_neg hin, habs]
        rfl
      · have hout : n.den ≠ 1 ∨ 2 ^ 53 - 1 < n.num.natAbs ∨ n.num ≤ 0 := by
          by_contra hin
          obtain ⟨hden, hin⟩ := not_or.mp hin
          exact hn ⟨not_not.mp hden, by omega, by omega⟩
        rw [if_neg hn, if_pos hout]
        rfl
  | none | some .null | some (.bool _) | some (.string _) | some (.array _) | some (.object _) => rfl

theorem v2Nonce_eq : ∀ v, v2Nonce v = Notify.orThrow "invalid nonce" (Notify.v2Nonce v)
  | some (.string x) => by
      simp only [v2Nonce, Notify.v2Nonce]
      cases hchars : x.toList.all (· ∈ base58Chars) with
      | true =>
          by_cases hx : 22 ≤ utf16Length x ∧ utf16Length x ≤ 64
          · have hin : ¬(utf16Length x < 22 ∨ 64 < utf16Length x ∨ true = false) := by
              simp only [Bool.true_eq_false, or_false]
              omega
            rw [if_neg hin, if_pos ⟨hx.1, hx.2, rfl⟩]
            rfl
          · have hout : utf16Length x < 22 ∨ 64 < utf16Length x ∨ true = false := by omega
            rw [if_pos hout, if_neg fun h => hx ⟨h.1, h.2.1⟩]
            rfl
      | false => simp [Notify.orThrow]
  | none | some .null | some (.bool _) | some (.number _) | some (.array _) | some (.object _) => rfl

/-- Both builders accept the same values, throw the same errors and write the same text. -/
theorem registerMessageV2_eq (hhost : host.Base58) (v : RegisterValues) :
    registerMessageV2 host v = Notify.buildRegisterMessageV2 host v := by
  simp only [registerMessageV2, Notify.buildRegisterMessageV2, Notify.checkRegister, v2Cluster_eq,
    v2Pubkey_eq hhost, v2TokenHash_eq, v2PosInt_eq, v2Nonce_eq, bind_map_left, map_bind,
    map_pure]
  rfl

theorem deregisterMessageV2_eq (hhost : host.Base58) (v : DeregisterValues) :
    deregisterMessageV2 host v = Notify.buildDeregisterMessageV2 host v := by
  simp only [deregisterMessageV2, Notify.buildDeregisterMessageV2, Notify.checkDeregister,
    v2Cluster_eq, v2Pubkey_eq hhost, v2PosInt_eq, v2Nonce_eq, bind_map_left, map_bind, map_pure]
  rfl

end DeadMansVault.Device.NotifyAuth
