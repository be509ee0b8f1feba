-- SUMMARY: Raw parsing undoes the program's encoding, and the shipped parsers are the tested ones.
import DeadMansVault.Device.RawAccounts
import DeadMansVault.Notify.Solana
import DeadMansVault.Program.Accounts
import DeadMansVault.Program.Gates

/-!
# Decoding

The app and the server read the program's accounts by offsets computed by hand. The
shipped copy of the app's parsers computes a length up front and reads on trust; it
returns what the tested copy returns, on any bytes. And what the program stores is
read back as stored, whatever is left behind it in the account.
-/

namespace DeadMansVault

open Device Read

/-! ## The shipped and the tested parsers -/

/-- Both return, and they return the same. -/
def Agree {α : Type} (a b : Except ReadError α) : Prop := ∃ r, a = .ok r ∧ b = .ok r

namespace Device

theorem consumes_publicKey : Consumes 32 publicKey := (Consumes.bytes 32).map.map

theorem consumes_bigNumber : Consumes 8 bigNumber := (Consumes.bytes 8).map.map

theorem consumes_number (k : Nat) : Consumes k (Read.number k) := (Consumes.bytes k).map

namespace RawAccountParsers

open VaultTransactionService

theorem isProgramAccount_iff {info : AccountInfo} {programId : PublicKey} {name : AccountName}
    {minLen : Nat} : isProgramAccount (some info) name minLen programId = true ↔
      info.owner = programId ∧ max minLen 8 ≤ info.data.length ∧
        info.data.take 8 = discriminators name := by
  unfold isProgramAccount
  by_cases howner : info.owner = programId
  · by_cases hshort : info.data.length < max minLen 8
    · simp [howner, hshort]
      omega
    · simp [howner, hshort]
      omega
  · simp [howner]

theorem verifyAccount_iff {info : AccountInfo} {programId : PublicKey} {discHex : String}
    {minLen : Nat} : verifyAccount programId (some info) discHex minLen = true ↔
      info.owner = programId ∧ minLen ≤ info.data.length ∧
        toHex (info.data.take 8) = discHex.toList := by
  simp only [verifyAccount, Bool.and_eq_true, decide_eq_true_eq, and_assoc]

/-- The two copies check the same about an account. -/
theorem verifyAccount_eq {info : Option AccountInfo} {programId : PublicKey} {name : AccountName}
    {discHex : String} {minLen : Nat} (hdisc : discriminators name = fromHex discHex.toList)
    (hhex : toHex (fromHex discHex.toList) = discHex.toList) (hlen : 8 ≤ minLen) :
    verifyAccount programId info discHex minLen = isProgramAccount info name minLen programId := by
  cases info with
  | none => rfl
  | some info =>
      have hmax : max minLen 8 = minLen := by omega
      rw [Bool.eq_iff_iff, verifyAccount_iff, isProgramAccount_iff, toHex_eq_iff hhex, hdisc, hmax]

theorem guards_pubkey : Guards Cursor.pastEnd 32 Cursor.pubkey publicKey :=
  .need _ consumes_publicKey

theorem guards_i64 : Guards Cursor.pastEnd 8 Cursor.i64 bigNumber :=
  .need _ consumes_bigNumber

theorem guards_u8 : Guards Cursor.pastEnd 1 Cursor.u8 byte := .need _ (consumes_number 1)

theorem guards_bool : Guards Cursor.pastEnd 1 Cursor.bool flag := guards_u8.map

theorem guards_u16 : Guards Cursor.pastEnd 2 Cursor.u16 (Read.number 2) :=
  .need _ (consumes_number 2)

theorem guards_u32 : Guards Cursor.pastEnd 4 Cursor.u32 (Read.number 4) :=
  .need _ (consumes_number 4)

theorem guards_u64big : Guards Cursor.pastEnd 8 Cursor.u64big (Read.number 8) :=
  .need _ (consumes_number 8)

theorem guards_beneficiary : Guards Cursor.pastEnd 34 beneficiary rawBeneficiary :=
  guards_pubkey.bind fun _ => guards_u16.bind fun _ => .pure _

theorem guards_assignment : Guards Cursor.pastEnd 42 assignment rawAssignment :=
  guards_pubkey.bind fun _ => guards_i64.bind fun _ => guards_u8.bind fun _ =>
    guards_bool.bind fun _ => .pure _

theorem guards_vaultConfigTail (owner agentPubkey : PublicKey) (interval grace : Int) (n : Nat) :
    Guards Cursor.pastEnd (n * 34 + 23) (vaultConfigTail owner agentPubkey interval grace n)
      (rawVaultConfigTail owner agentPubkey interval grace n) :=
  (guards_beneficiary.many n).bind fun _ => guards_bool.bind fun _ => guards_bool.bind fun _ =>
    guards_i64.bind fun _ => guards_i64.bind fun _ => guards_u8.bind fun _ =>
    guards_bool.bind fun _ => guards_bool.bind fun _ => guards_u16.bind fun _ => .pure _

theorem guards_assetPlanTail (n : Nat) :
    Guards Cursor.pastEnd (n * 42 + 8) (assetPlanTail n) (rawAssetPlanTail n) :=
  (guards_assignment.many n).bind fun _ => guards_u64big.bind fun _ => .pure _

/-- A guarded parse and a plain one come to the same in the end. -/
def Settled {α : Type} (checked plain : Except ReadError (Option α × Nat)) : Prop :=
  Agree (plain.map Prod.fst) (orNull (checked.map Prod.fst))

theorem settled_bind {α β : Type} {m : String} {n : Nat} {checked plain : Read α}
    {k k' : α → Read (Option β)} {data : List UInt8} {offset : Nat}
    (h : Guards m n checked plain) (hroom : offset + n ≤ data.length)
    (hrest : ∀ a, Settled (k a data (offset + n)) (k' a data (offset + n))) :
    Settled ((checked >>= k) data offset) ((plain >>= k') data offset) := by
  obtain ⟨a, hchecked, hplain⟩ := h.bind_inside k k' hroom
  rw [hchecked, hplain]
  exact hrest a

theorem settled_inside {α : Type} {m : String} {n : Nat} {checked plain : Read (Option α)}
    {data : List UInt8} {offset : Nat} (h : Guards m n checked plain)
    (hroom : offset + n ≤ data.length) : Settled (checked data offset) (plain data offset) := by
  obtain ⟨a, hchecked, hplain⟩ := h.inside data offset hroom
  rw [hchecked, hplain]
  exact ⟨a, rfl, rfl⟩

/-- Where the vector does not fit, the guarded parse throws and the plain one has seen it. -/
theorem settled_vector {α : Type} {m : String} {cap n size : Nat}
    {checked plain : Read (Option α)} {data : List UInt8} {offset : Nat}
    (h : Guards m size checked plain) (hoffset : offset ≤ data.length) :
    Settled ((if cap < n then pure none else checked) data offset)
      ((do
        let truncated ← short size
        if cap < n ∨ truncated = true then pure none else plain) data offset) := by
  rw [run_bind]
  show Settled _ ((if cap < n ∨ decide (data.length < offset + size) = true then pure none
    else plain : Read (Option α)) data offset)
  by_cases hcap : cap < n
  · rw [if_pos hcap, if_pos (Or.inl hcap)]
    exact ⟨none, rfl, rfl⟩
  · by_cases hshort : data.length < offset + size
    · rw [if_neg hcap, if_pos (Or.inr (decide_eq_true hshort)),
        h.outside data offset hoffset hshort]
      exact ⟨none, rfl, rfl⟩
    · rw [if_neg hcap, if_neg (by simp [hcap, hshort])]
      exact settled_inside h (by omega)

theorem settled_vaultConfig {data : List UInt8} (h : 92 ≤ data.length) :
    Settled (vaultConfigFields data 8) (rawVaultConfigFields data 8) := by
  refine settled_bind guards_pubkey (by omega) fun owner => ?_
  refine settled_bind guards_pubkey (by omega) fun agentPubkey => ?_
  refine settled_bind guards_i64 (by omega) fun interval => ?_
  refine settled_bind guards_i64 (by omega) fun grace => ?_
  refine settled_bind guards_u32 (by omega) fun count => ?_
  exact settled_vector (guards_vaultConfigTail owner agentPubkey interval grace count) (by omega)

theorem settled_executionLog {data : List UInt8} (h : 66 ≤ data.length) :
    Settled (executionLogFields data (8 + 32)) (rawExecutionLogFields data (8 + 32)) := by
  refine settled_bind guards_i64 (by omega) fun solSnapshot => ?_
  refine settled_bind guards_u32 (by omega) fun solPaidMask => ?_
  -- One copy reads the time of the start and drops it, the other steps over it.
  obtain ⟨startedAt, hread, -⟩ := guards_i64.inside data (8 + 32 + 8 + 4) (by omega)
  rw [run_bind, run_bind, hread]
  exact settled_inside (guards_bool.bind fun completed => .pure (some _)) (by omega)

theorem settled_assetPlan {data : List UInt8} (h : 44 ≤ data.length) :
    Settled (assetPlanFields data (8 + 32)) (rawAssetPlanFields data (8 + 32)) := by
  refine settled_bind guards_u32 (by omega) fun len => ?_
  exact settled_vector (guards_assetPlanTail len) (by omega)

theorem settled_tokenDist {data : List UInt8} (h : 85 ≤ data.length) :
    Settled (tokenDistFields data (8 + 32 + 32)) (rawTokenDistFields data (8 + 32 + 32)) := by
  refine settled_bind guards_i64 (by omega) fun snapshot => ?_
  refine settled_bind guards_u32 (by omega) fun paidMask => ?_
  exact ⟨_, rfl, rfl⟩

theorem agree_ifVerified {α : Type} {info : Option AccountInfo} {programId : PublicKey}
    {name : AccountName} {discHex : String} {minLen offset : Nat}
    {checked plain : Read (Option α)} (hdisc : discriminators name = fromHex discHex.toList)
    (hhex : toHex (fromHex discHex.toList) = discHex.toList) (hlen : 8 ≤ minLen)
    (h : ∀ data : List UInt8, minLen ≤ data.length →
      Settled (checked data offset) (plain data offset)) :
    Agree (ifVerified (verifyAccount programId info discHex minLen) info fun data =>
        plain.parse data offset)
      (ifVerified (isProgramAccount info name minLen programId) info fun data =>
        orNull (checked.parse data offset)) := by
  rw [verifyAccount_eq hdisc hhex hlen]
  cases hok : isProgramAccount info name minLen programId with
  | false => exact ⟨none, rfl, rfl⟩
  | true =>
      cases info with
      | none => exact ⟨none, rfl, rfl⟩
      | some info =>
          have hroom := (isProgramAccount_iff.mp hok).2.1
          exact h info.data (by omega)

theorem numberAt_ok (data : List UInt8) (offset : Nat) (h : offset + 8 ≤ data.length) :
    ∃ n, numberAt data offset = .ok n := by
  obtain ⟨n, hread⟩ := consumes_bigNumber data offset h
  refine ⟨toNumber n, ?_⟩
  rw [numberAt, Read.parse, hread]
  rfl

theorem agree_deadline (programId : PublicKey) (vaultInfo hbInfo : Option AccountInfo) :
    Agree (getOnChainDeadline programId vaultInfo hbInfo)
      (parseDeadline vaultInfo hbInfo programId) := by
  have hvault : verifyAccount programId vaultInfo discVaultConfig 88 =
      isProgramAccount vaultInfo .vaultConfig 88 programId :=
    verifyAccount_eq rfl (by decide) (by decide)
  have hheart : verifyAccount programId hbInfo discHeartbeat 48 =
      isProgramAccount hbInfo .heartbeatRecord 48 programId :=
    verifyAccount_eq rfl (by decide) (by decide)
  unfold getOnChainDeadline parseDeadline
  rw [hvault, hheart]
  cases hv : isProgramAccount vaultInfo .vaultConfig 88 programId with
  | false => exact ⟨none, rfl, rfl⟩
  | true =>
      cases hh : isProgramAccount hbInfo .heartbeatRecord 48 programId with
      | false => exact ⟨none, rfl, rfl⟩
      | true =>
          obtain ⟨vault, rfl⟩ : ∃ vault, vaultInfo = some vault := by
            cases vaultInfo with
            | none => cases hv
            | some vault => exact ⟨vault, rfl⟩
          obtain ⟨hb, rfl⟩ : ∃ hb, hbInfo = some hb := by
            cases hbInfo with
            | none => cases hh
            | some hb => exact ⟨hb, rfl⟩
          have hroom := (isProgramAccount_iff.mp hv).2.1
          have hroom' := (isProgramAccount_iff.mp hh).2.1
          obtain ⟨interval, hinterval⟩ := numberAt_ok vault.data 72 (by omega)
          obtain ⟨grace, hgrace⟩ := numberAt_ok vault.data 80 (by omega)
          obtain ⟨last, hlast⟩ := numberAt_ok hb.data 40 (by omega)
          simp only [Option.elim_some, hinterval, hgrace, hlast]
          exact ⟨_, rfl, rfl⟩

end RawAccountParsers

end Device

open RawAccountParsers VaultTransactionService in
/-- Any account, whoever owns it and whatever its bytes, is read by the shipped parsers as by
the tested ones; none of them throws or runs off the buffer. -/
theorem shipped_parsers_tested (programId : PublicKey) :
    (∀ info, Agree (parseVaultConfigRaw programId info) (parseVaultConfig info programId)) ∧
    (∀ info, Agree (fetchExecutionLog programId info) (parseExecutionLog info programId)) ∧
    (∀ info, Agree (fetchAssetPlan programId info) (parseAssetPlan info programId)) ∧
    (∀ info, Agree (fetchTokenDist programId info) (parseTokenDist info programId)) ∧
    (∀ vaultInfo hbInfo, Agree (getOnChainDeadline programId vaultInfo hbInfo)
      (parseDeadline vaultInfo hbInfo programId)) := by
  refine ⟨fun info => ?_, fun info => ?_, fun info => ?_, fun info => ?_,
    fun vaultInfo hbInfo => agree_deadline programId vaultInfo hbInfo⟩
  · exact agree_ifVerified rfl (by decide) (by decide) fun data => settled_vaultConfig
  · exact agree_ifVerified rfl (by decide) (by decide) fun data => settled_executionLog
  · exact agree_ifVerified rfl (by decide) (by decide) fun data => settled_assetPlan
  · exact agree_ifVerified rfl (by decide) (by decide) fun data => settled_tokenDist

/-! ## What is stored is read back -/

/-- What the program stores in a config: intervals in its range, at most so many beneficiaries
as it allows, and times of the clock, which counts from 1970. -/
structure StoredConfig.Storable (c : Cluster) (f : StoredConfig) : Prop where
  intervalRange : minHeartbeatInterval c.devnet ≤ f.heartbeatInterval.toInt ∧
    f.heartbeatInterval.toInt ≤ maxHeartbeatInterval
  graceRange : minGracePeriod c.devnet ≤ f.gracePeriod.toInt ∧ f.gracePeriod.toInt ≤ maxGracePeriod
  count : f.beneficiaries.length ≤ maxBeneficiaries
  createdAt : 0 ≤ f.createdAt.toInt
  updatedAt : 0 ≤ f.updatedAt.toInt

theorem minHeartbeatInterval_nonneg (devnet : Bool) : 0 ≤ minHeartbeatInterval devnet := by
  cases devnet <;> decide

theorem minGracePeriod_nonneg (devnet : Bool) : 0 ≤ minGracePeriod devnet := by
  cases devnet <;> decide

namespace StoredConfig.Storable

variable {c : Cluster} {f : StoredConfig}

theorem interval_nonneg (h : f.Storable c) : 0 ≤ f.heartbeatInterval.toInt :=
  (minHeartbeatInterval_nonneg c.devnet).trans h.intervalRange.1

theorem grace_nonneg (h : f.Storable c) : 0 ≤ f.gracePeriod.toInt :=
  (minGracePeriod_nonneg c.devnet).trans h.graceRange.1

end StoredConfig.Storable

theorem toInt_ofInt_nonneg {x : Int} (h : 0 ≤ x) (h' : x ≤ i64Max) :
    (BitVec.ofInt 64 x).toInt = x := by
  unfold i64Max at h'
  exact BitVec.toInt_ofInt_eq_self (by decide) (by omega) (by omega)

/-- A config that the program accepts is stored in words that stand for its own intervals and
times. -/
theorem storable_of_accepted {c : Cluster} {v : VaultConfig} (L : Layout) (ha : v.Accepted c)
    (hcreated : 0 ≤ v.createdAt ∧ v.createdAt ≤ i64Max)
    (hupdated : 0 ≤ v.updatedAt ∧ v.updatedAt ≤ i64Max) :
    (L.stored v).Storable c ∧ (L.stored v).heartbeatInterval.toInt = v.heartbeatInterval ∧
      (L.stored v).gracePeriod.toInt = v.gracePeriod ∧
      (L.stored v).createdAt.toInt = v.createdAt ∧ (L.stored v).updatedAt.toInt = v.updatedAt := by
  have hinterval : (BitVec.ofInt 64 v.heartbeatInterval).toInt = v.heartbeatInterval := by
    have hmin := minHeartbeatInterval_nonneg c.devnet
    have hmax : maxHeartbeatInterval ≤ i64Max := by decide
    exact toInt_ofInt_nonneg (hmin.trans ha.intervalRange.1) (ha.intervalRange.2.trans hmax)
  have hgrace : (BitVec.ofInt 64 v.gracePeriod).toInt = v.gracePeriod := by
    have hmin := minGracePeriod_nonneg c.devnet
    have hmax : maxGracePeriod ≤ i64Max := by decide
    exact toInt_ofInt_nonneg (hmin.trans ha.graceRange.1) (ha.graceRange.2.trans hmax)
  have hcreated' := toInt_ofInt_nonneg hcreated.1 hcreated.2
  have hupdated' := toInt_ofInt_nonneg hupdated.1 hupdated.2
  refine ⟨?_, hinterval, hgrace, hcreated', hupdated'⟩
  exact {
    intervalRange := by simpa only [Layout.stored, hinterval] using ha.intervalRange
    graceRange := by simpa only [Layout.stored, hgrace] using ha.graceRange
    count := by simpa only [Layout.stored, List.length_map] using ha.count.2
    createdAt := by simpa only [Layout.stored, hcreated'] using hcreated.1
    updatedAt := by simpa only [Layout.stored, hupdated'] using hupdated.1 }

/-- The fields of a stored config, as the app shows them. -/
def StoredConfig.exposed (f : StoredConfig) : RawVaultConfig where
  owner := f.owner
  agentPubkey := f.agentPubkey
  heartbeatInterval := f.heartbeatInterval.toInt
  gracePeriod := f.gracePeriod.toInt
  beneficiaries := f.beneficiaries.map fun b =>
    { wallet := b.1, shareBps := b.2.toNat, hasSpecificAssets := false }
  executed := f.executed
  active := f.active
  createdAt := f.createdAt.toInt
  updatedAt := f.updatedAt.toInt
  bump := f.bump.toNat
  isMutable := f.isMutable
  hasAssetPlan := f.hasAssetPlan
  openTokenDists := f.openTokenDists.toNat

/-- The fields of a stored config that the server reads. -/
def StoredConfig.served (toBase58 : BitVec 256 → String) (f : StoredConfig) :
    Notify.ParsedVault where
  owner := toBase58 f.owner
  interval := f.heartbeatInterval.toInt
  grace := f.gracePeriod.toInt
  executed := f.executed
  active := f.active
  beneficiaries := f.beneficiaries.map fun b =>
    { wallet := toBase58 b.1, shareBps := b.2.toNat }

def StoredLog.exposed (l : StoredLog) : RawExecutionLog where
  solSnapshot := l.solSnapshot.toNat
  solPaidMask := l.solPaidMask.toNat
  completed := l.completed

def StoredPlan.exposed (p : StoredPlan) : RawAssetPlan where
  assignments := p.assignments.map fun a =>
    { mint := a.mint, amount := a.amount.toNat, beneficiaryIndex := a.beneficiaryIndex.toNat,
      isNft := a.isNft }
  paidMask := p.paidMask.toNat

def StoredDist.exposed (d : StoredDist) : RawTokenDist where
  snapshot := d.snapshot.toNat
  paidMask := d.paidMask.toNat

theorem toInt_of_nonneg {w : Nat} {x : BitVec w} (h : 0 ≤ x.toInt) : x.toInt = x.toNat := by
  have hlt := x.isLt
  rw [BitVec.toInt_eq_toNat_cond] at h ⊢
  split at h
  · rw [if_pos ‹_›]
  · omega

open Codec

theorem length_storedFields (f : StoredConfig) :
    8 + (storedFields.encode f).length = bountyOffset f.beneficiaries.length := by
  have hlegacy := length_legacyAccount ⟨fun _ => 0, 0, 0⟩ f
  rw [← hlegacy]
  simp only [legacyAccount, Codec.pair, List.length_append, hasSize_tag _ _, length_toBytes]

theorem takes_word {w k : Nat} (x : BitVec w) (h : (w + 7) / 8 = k) (hw : w = 8 * k) :
    Takes (Read.number k) ((word w).encode x) x.toNat := by
  have hlt : x.toNat < 256 ^ k := by
    calc x.toNat < 2 ^ w := x.isLt
      _ = 256 ^ k := by rw [hw, Nat.pow_mul]
  have hread : Takes (Read.number k) (toBytes k x.toNat) x.toNat := .number hlt
  rwa [← h] at hread ⊢

namespace Device

theorem takes_publicKey (k : BitVec 256) : Takes publicKey ((word 256).encode k) k := by
  have hread : Takes publicKey ((word 256).encode k) (BitVec.ofNat 256 k.toNat) :=
    (takes_word k rfl rfl).map
  rwa [BitVec.ofNat_toNat, BitVec.setWidth_eq] at hread

theorem takes_bigNumber (x : BitVec 64) : Takes bigNumber ((word 64).encode x) (x.toNat : Int) :=
  (takes_word x rfl rfl).map

namespace RawAccountParsers

theorem takes_pubkey (k : BitVec 256) : Takes Cursor.pubkey ((word 256).encode k) k :=
  (takes_publicKey k).need rfl

theorem takes_i64 (x : BitVec 64) : Takes Cursor.i64 ((word 64).encode x) (x.toNat : Int) :=
  (takes_bigNumber x).need rfl

theorem takes_u64big (x : BitVec 64) : Takes Cursor.u64big ((word 64).encode x) x.toNat :=
  (takes_word x rfl rfl).need rfl

theorem takes_u32 (x : BitVec 32) : Takes Cursor.u32 ((word 32).encode x) x.toNat :=
  (takes_word x rfl rfl).need rfl

theorem takes_u16 (x : BitVec 16) : Takes Cursor.u16 ((word 16).encode x) x.toNat :=
  (takes_word x rfl rfl).need rfl

theorem takes_u8 (x : BitVec 8) : Takes Cursor.u8 ((word 8).encode x) x.toNat :=
  (takes_word x rfl rfl).need rfl

theorem takes_bool (x : Bool) : Takes Cursor.bool (Codec.bool.encode x) x :=
  ((Takes.bit x).need rfl).nonzero

theorem takes_beneficiary (b : BitVec 256 × BitVec 16) :
    Takes beneficiary (((word 256).pair (word 16)).encode b)
      { wallet := b.1, shareBps := b.2.toNat, hasSpecificAssets := false } :=
  (takes_pubkey b.1).bind (takes_u16 b.2).last

theorem takes_assignment (a : StoredAssignment) : Takes assignment (assignmentFields.encode a)
    { mint := a.mint, amount := a.amount.toNat, beneficiaryIndex := a.beneficiaryIndex.toNat,
      isNft := a.isNft } :=
  (takes_pubkey a.mint).bind <| (takes_i64 a.amount).bind <| (takes_u8 a.beneficiaryIndex).bind
    (takes_bool a.isNft).last

/-- Of a vector, the reader takes the length and then the elements. -/
theorem finds_list {α β γ : Type} {A : Codec α} {r : Read β} {f : α → β} {cap : Nat} {as : List α}
    {w : List UInt8} {c : γ} {k : List β → Read (Option γ)} (hcap : as.length ≤ cap)
    (hbound : cap < 2 ^ 32) (hr : ∀ a, Takes r (A.encode a) (f a))
    (hk : Finds (k (as.map f)) w (some c)) :
    Finds (do
      let n ← Cursor.u32
      if cap < n then pure none else r.many n >>= k) (A.list.encode as ++ w) (some c) := by
  have hlen : (BitVec.ofNat 32 as.length).toNat = as.length := by
    rw [BitVec.toNat_ofNat, Nat.mod_eq_of_lt (by omega)]
  have hcount := takes_u32 (BitVec.ofNat 32 as.length)
  rw [hlen] at hcount
  have hrest : Finds (if cap < as.length then pure none else r.many as.length >>= k)
      (as.flatMap A.encode ++ w) (some c) := by
    rw [if_neg (by omega)]
    exact (Takes.many as fun a _ => hr a).finds hk
  rw [Codec.list, List.append_assoc]
  exact hcount.finds hrest

/-- A time that is not negative is read as it is, though the reader takes no sign. -/
theorem takes_time {x : BitVec 64} (h : 0 ≤ x.toInt) :
    Takes Cursor.i64 ((word 64).encode x) x.toInt := by
  rw [toInt_of_nonneg h]
  exact takes_i64 x

theorem finds_vaultConfig {c : Cluster} {f : StoredConfig} (h : f.Storable c) :
    Finds vaultConfigFields (storedFields.encode f) (some f.exposed) := by
  refine (takes_pubkey f.owner).finds ?_
  refine (takes_pubkey f.agentPubkey).finds ?_
  refine (takes_time h.interval_nonneg).finds ?_
  refine (takes_time h.grace_nonneg).finds ?_
  refine finds_list h.count (by decide) takes_beneficiary ?_
  refine (takes_bool f.executed).finds ?_
  refine (takes_bool f.active).finds ?_
  refine (takes_time h.createdAt).finds ?_
  refine (takes_time h.updatedAt).finds ?_
  refine (takes_u8 f.bump).finds ?_
  refine (takes_bool f.isMutable).finds ?_
  refine (takes_bool f.hasAssetPlan).finds ?_
  exact (takes_u16 f.openTokenDists).last.toFinds

theorem finds_executionLog (l : StoredLog) : Finds executionLogFields
    ((word 64).encode l.solSnapshot ++ ((word 32).encode l.solPaidMask ++
      ((word 64).encode l.startedAt ++ Codec.bool.encode l.completed))) (some l.exposed) := by
  refine (takes_i64 l.solSnapshot).finds ?_
  refine (takes_u32 l.solPaidMask).finds ?_
  refine (takes_i64 l.startedAt).finds ?_
  exact (takes_bool l.completed).last.toFinds

theorem finds_assetPlan {p : StoredPlan} (h : p.assignments.length ≤ maxAssignments) :
    Finds assetPlanFields (assignmentFields.list.encode p.assignments ++
      (word 64).encode p.paidMask) (some p.exposed) := by
  refine finds_list h (by decide) takes_assignment ?_
  exact (takes_u64big p.paidMask).last.toFinds

theorem finds_tokenDist (d : StoredDist) : Finds tokenDistFields
    ((word 64).encode d.snapshot ++ (word 32).encode d.paidMask) (some d.exposed) := by
  refine (takes_i64 d.snapshot).finds ?_
  exact (takes_u32 d.paidMask).last.toFinds

theorem length_discriminators (name : AccountName) : (discriminators name).length = 8 := by
  cases name <;> decide

/-- The parser finds the fields it exposes behind the discriminator and the fields it skips. -/
theorem parse_account {α β : Type} {A : Codec β} {x : β} {programId : PublicKey}
    {name : AccountName} {minLen : Nat} {checked : Read (Option α)} {v : α}
    (skipped w behind rest : List UInt8) (hsplit : A.encode x = skipped ++ (w ++ behind))
    (hmin : minLen ≤ 8 + (A.encode x).length) (h : Finds checked w (some v)) :
    ifVerified
      (isProgramAccount (some ⟨programId, accountBytes (discriminators name) A x rest⟩) name minLen
        programId)
      (some ⟨programId, accountBytes (discriminators name) A x rest⟩)
      (fun data => orNull (checked.parse data (8 + skipped.length))) = .ok (some v) := by
  have hverified : isProgramAccount
      (some ⟨programId, accountBytes (discriminators name) A x rest⟩) name minLen programId =
        true := by
    refine isProgramAccount_iff.mpr ⟨rfl, ?_, ?_⟩
    · simp only [accountBytes, List.length_append, length_discriminators]
      omega
    · exact List.take_left' (length_discriminators name)
  have hdata : accountBytes (discriminators name) A x rest =
      (discriminators name ++ skipped) ++ (w ++ (behind ++ rest)) := by
    rw [accountBytes, hsplit]
    simp only [List.append_assoc]
  have hparse := h.parse (discriminators name ++ skipped) (behind ++ rest)
  rw [List.length_append, length_discriminators] at hparse
  rw [hverified]
  show orNull (checked.parse (accountBytes (discriminators name) A x rest) (8 + skipped.length)) = _
  rw [hdata, hparse]
  rfl

end RawAccountParsers

end Device

namespace Notify.Solana

theorem takes_key (k : BitVec 256) : Takes key ((word 256).encode k) k := takes_publicKey k

/-- The program's intervals are small enough for a double. -/
theorem takes_signedNumber {x : BitVec 64} (h : x.toInt.natAbs < 2 ^ 53) :
    Takes signedNumber ((word 64).encode x) x.toInt := by
  have hread : Takes signedNumber ((word 64).encode x) (toNumber (BitVec.ofNat 64 x.toNat).toInt) :=
    (takes_word x rfl rfl).map
  rwa [BitVec.ofNat_toNat, BitVec.setWidth_eq, toNumber_eq h] at hread

theorem takes_beneficiary (toBase58 : BitVec 256 → String) (b : BitVec 256 × BitVec 16) :
    Takes (beneficiary toBase58) (((word 256).pair (word 16)).encode b)
      { wallet := toBase58 b.1, shareBps := b.2.toNat } :=
  (takes_key b.1).bind (takes_word b.2 rfl rfl).last

theorem finds_vault {c : Cluster} {f : StoredConfig} (toBase58 : BitVec 256 → String)
    (h : f.Storable c) :
    Finds (vaultFields toBase58) (storedFields.encode f) (f.served toBase58) := by
  have hinterval : f.heartbeatInterval.toInt.natAbs < 2 ^ 53 := by
    have hmin := h.interval_nonneg
    have hmax : f.heartbeatInterval.toInt ≤ 31_536_000 := h.intervalRange.2
    omega
  have hgrace : f.gracePeriod.toInt.natAbs < 2 ^ 53 := by
    have hmin := h.grace_nonneg
    have hmax : f.gracePeriod.toInt ≤ 63_072_000 := h.graceRange.2
    omega
  have hcount : f.beneficiaries.length ≤ 20 := h.count
  have hlen : (BitVec.ofNat 32 f.beneficiaries.length).toNat = f.beneficiaries.length := by
    rw [BitVec.toNat_ofNat, Nat.mod_eq_of_lt (by omega)]
  have hnumber := takes_word (BitVec.ofNat 32 f.beneficiaries.length) rfl rfl
  rw [hlen] at hnumber
  refine Finds.need ?_ ?_
  · refine (takes_key f.owner).finds ?_
    refine (Takes.skip (hasSize_word 256 f.agentPubkey)).finds ?_
    refine (takes_signedNumber hinterval).finds ?_
    refine (takes_signedNumber hgrace).finds ?_
    show Finds _ ((Codec.list _).encode f.beneficiaries ++ _) _
    rw [Codec.list, List.append_assoc]
    refine hnumber.finds ?_
    rw [if_neg (show ¬ Solana.maxBeneficiaries < f.beneficiaries.length from
      Nat.not_lt.mpr hcount)]
    refine Finds.need ?_ ?_
    · refine (Takes.many f.beneficiaries fun b _ => takes_beneficiary toBase58 b).finds ?_
      refine (Takes.flag f.executed).finds ?_
      exact (Takes.flag f.active).finds (.pure _ _)
    · have hlist := ((hasSize_word 256).pair (hasSize_word 16)).length_list f.beneficiaries
      simp only [Codec.list, List.length_append, hasSize_word 32 _] at hlist
      simp only [List.length_append, Codec.pair, hasSize_bool _] at hlist ⊢
      omega
  · have hall := length_storedFields f
    unfold bountyOffset at hall
    omega

end Notify.Solana

/-- Each hard-coded discriminator is the program's. -/
theorem discriminators_eq :
    RawAccountParsers.discriminators .vaultConfig = VaultConfig.discriminator ∧
    RawAccountParsers.discriminators .executionLog = ExecutionLog.discriminator ∧
    RawAccountParsers.discriminators .assetPlan = AssetPlan.discriminator ∧
    RawAccountParsers.discriminators .tokenDist = TokenDist.discriminator := by
  decide

open RawAccountParsers in
/-- Every value that the program stores is parsed as it was stored, by the app and by the
server, whatever bytes are left behind it in the account. -/
theorem parsing_undoes_storing (c : Cluster) (programId : PublicKey)
    (toBase58 : BitVec 256 → String) (rest : List UInt8) :
    (∀ f bounty, f.Storable c →
      let data := accountBytes VaultConfig.discriminator configFields (f, bounty) rest
      parseVaultConfig (some ⟨programId, data⟩) programId = .ok (some f.exposed) ∧
        Notify.Solana.parseVaultConfig toBase58 data = .ok (f.served toBase58)) ∧
    (∀ l, parseExecutionLog
      (some ⟨programId, accountBytes ExecutionLog.discriminator logFields l rest⟩) programId =
        .ok (some l.exposed)) ∧
    (∀ p, p.assignments.length ≤ maxAssignments → parseAssetPlan
      (some ⟨programId, accountBytes AssetPlan.discriminator planFields p rest⟩) programId =
        .ok (some p.exposed)) ∧
    ∀ d, parseTokenDist
      (some ⟨programId, accountBytes TokenDist.discriminator distFields d rest⟩) programId =
        .ok (some d.exposed) := by
  rw [← discriminators_eq.1, ← discriminators_eq.2.1, ← discriminators_eq.2.2.1,
    ← discriminators_eq.2.2.2]
  refine ⟨fun f bounty h => ⟨?_, ?_⟩, fun l => ?_, fun p h => ?_, fun d => ?_⟩
  · refine parse_account [] (storedFields.encode f) ((word 64).encode bounty) rest rfl ?_
      (finds_vaultConfig h)
    have hlen := length_storedFields f
    unfold bountyOffset at hlen
    simp only [configFields, Codec.pair, List.length_append]
    omega
  · have hserved := (Notify.Solana.finds_vault toBase58 h).append ((word 64).encode bounty)
    exact hserved.parse (discriminators .vaultConfig) rest
  · refine parse_account ((word 256).encode l.vault) _ ((word 32).encode l.transferCount ++
      ((word 64).encode l.totalSolDistributed ++ (word 8).encode l.bump)) rest ?_ ?_
      (finds_executionLog l)
    · simp only [logFields, Codec.iso, Codec.pair, List.append_assoc]
    · simp only [logFields, Codec.iso, Codec.pair, List.length_append, hasSize_word _ _,
        hasSize_bool _]
      decide
  · refine parse_account ((word 256).encode p.vault) _ ((word 8).encode p.bump) rest ?_ ?_
      (finds_assetPlan h)
    · simp only [planFields, Codec.iso, Codec.pair, List.append_assoc]
    · simp only [planFields, Codec.iso, Codec.pair, Codec.list, List.length_append,
        hasSize_word _ _]
      omega
  · refine parse_account ((word 256).encode d.vault ++ (word 256).encode d.mint) _
      ((word 8).encode d.bump) rest ?_ ?_ (finds_tokenDist d)
    · simp only [distFields, Codec.iso, Codec.pair, List.append_assoc]
    · simp only [distFields, Codec.iso, Codec.pair, List.length_append, hasSize_word _ _]
      decide

/-- A vault of two beneficiaries that once had more, so that some of their bytes are left. -/
def storedSample : StoredConfig where
  owner := 1
  agentPubkey := 2
  heartbeatInterval := 604_800
  gracePeriod := 2_592_000
  beneficiaries := [(3, 6_000), (4, 4_000)]
  executed := false
  active := true
  createdAt := 1_750_000_000
  updatedAt := 1_750_000_001
  bump := 254
  isMutable := true
  hasAssetPlan := false
  openTokenDists := 0

theorem parsing_undoes_storing_sample :
    RawAccountParsers.parseVaultConfig
        (some ⟨7, accountBytes VaultConfig.discriminator configFields (storedSample, 9) [5, 0, 1]⟩)
        7 = .ok (some storedSample.exposed) ∧
      storedSample.exposed.createdAt = 1_750_000_000 ∧
      storedSample.exposed.beneficiaries.map (·.shareBps) = [6_000, 4_000] := by
  refine ⟨?_, rfl, rfl⟩
  refine ((parsing_undoes_storing ⟨false, fun _ => 0, fun _ => .token⟩ 7 (fun _ => "") [5, 0, 1]).1
    storedSample 9 ?_).1
  exact {
    intervalRange := by decide
    graceRange := by decide
    count := by decide
    createdAt := by decide
    updatedAt := by decide }

end DeadMansVault
