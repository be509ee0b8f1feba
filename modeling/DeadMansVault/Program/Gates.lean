-- SUMMARY: The checks that several handlers share, read back from a handler that succeeded.
import DeadMansVault.Program.Chain
import DeadMansVault.Program.Util

/-!
# Gates

Owner and agent instructions all pass the same gate: the vault and its heartbeat
load, belong together, and the deadline has not come. Execution instructions
pass another: the vault and its log load and belong together. The handlers spell
these checks out each time; the inversion lemmas of the handlers state them by
name.
-/

namespace DeadMansVault

/-- The instant at which a vault may be executed. -/
def VaultConfig.deadlineAt (vault : VaultConfig) (heartbeat : HeartbeatRecord) : Int :=
  heartbeat.lastHeartbeat + vault.heartbeatInterval + vault.gracePeriod

/-- The gate of the instructions that only a living owner can use. -/
structure Unfrozen (s : World) (vaultKey : Pubkey) (vault : VaultConfig)
    (heartbeat : HeartbeatRecord) : Prop where
  config : s.vaultConfigs vaultKey = some vault
  record : s.heartbeatRecords (.heartbeat vaultKey) = some heartbeat
  pinned : heartbeat.vault = vaultKey
  before : s.now < vault.deadlineAt heartbeat

/-- The gate of the instructions that carry an execution out. -/
structure Executing (s : World) (vaultKey : Pubkey) (vault : VaultConfig) (log : ExecutionLog) :
    Prop where
  config : s.vaultConfigs vaultKey = some vault
  log : s.executionLogs (.execution vaultKey) = some log
  seeds : vaultKey = .vault vault.owner

/-- What the checks on the parts of a new or edited config accept. -/
structure VaultConfig.Accepted (c : Cluster) (vault : VaultConfig) : Prop where
  intervalRange : minHeartbeatInterval c.devnet ≤ vault.heartbeatInterval ∧
    vault.heartbeatInterval ≤ maxHeartbeatInterval
  graceRange : minGracePeriod c.devnet ≤ vault.gracePeriod ∧ vault.gracePeriod ≤ maxGracePeriod
  count : vault.beneficiaries ≠ [] ∧ vault.beneficiaries.length ≤ maxBeneficiaries
  shares : (vault.beneficiaries.map (·.shareBps)).sum = 10000
  notOwner : ∀ b ∈ vault.beneficiaries, b.wallet ≠ vault.owner

/-- An owner's edit: everything that only the creation of the vault or its
    execution decides stays. -/
structure VaultConfig.Edited (c : Cluster) (vault vault' : VaultConfig) : Prop where
  owner : vault'.owner = vault.owner
  executed : vault'.executed = vault.executed
  active : vault'.active = vault.active
  isMutable : vault'.isMutable = vault.isMutable
  openTokenDists : vault'.openTokenDists = vault.openTokenDists
  keeperBounty : vault'.keeperBounty = vault.keeperBounty
  accepted : vault.Accepted c → vault'.Accepted c

theorem VaultConfig.Edited.refl {c : Cluster} (vault : VaultConfig) : vault.Edited c vault :=
  ⟨rfl, rfl, rfl, rfl, rfl, rfl, fun h => h⟩

theorem VaultConfig.Edited.setPlan {c : Cluster} (vault : VaultConfig) (hasAssetPlan : Bool) :
    vault.Edited c { vault with hasAssetPlan := hasAssetPlan } :=
  ⟨rfl, rfl, rfl, rfl, rfl, rfl, fun h => ⟨h.1, h.2, h.3, h.4, h.5⟩⟩

theorem VaultConfig.Edited.trans {c : Cluster} {v v' v'' : VaultConfig} (h : v.Edited c v')
    (h' : v'.Edited c v'') : v.Edited c v'' :=
  ⟨h'.owner.trans h.owner, h'.executed.trans h.executed, h'.active.trans h.active,
    h'.isMutable.trans h.isMutable, h'.openTokenDists.trans h.openTokenDists,
    h'.keeperBounty.trans h.keeperBounty, fun ha => h'.accepted (h.accepted ha)⟩

/-- The movement, if it moves anything. -/
def Movement.made (mv : Movement) : List Movement :=
  if 0 < mv.amount then [mv] else []

theorem Movement.mem_made {mv x : Movement} (h : mv ∈ x.made) : mv = x ∧ 0 < x.amount := by
  unfold Movement.made at h
  split at h
  · rename_i hpos
    exact ⟨List.mem_singleton.mp h, hpos⟩
  · cases h

namespace World

/-- The world after a payment of lamports that is skipped when it is zero. -/
@[simps] def paySol (s : World) (source dest : Pubkey) (n : Nat) (purpose : Purpose) : World :=
  { s with
    lamports := Ledger.move s.lamports source dest n
    moved := s.moved ++ Movement.made ⟨.sol, source, dest, dest, n, purpose⟩ }

/-- The world after a payment of tokens that is skipped when it is zero. -/
@[simps] def payTokens (s : World) (source mint dest recipient : Pubkey) (n : Nat)
    (purpose : Purpose) : World :=
  { s with
    tokenAmounts := Ledger.move s.tokenAmounts source dest n
    moved := s.moved ++ Movement.made ⟨.token mint, source, dest, recipient, n, purpose⟩ }

variable {c : Cluster} {s s' : World}

theorem paySol_eq {source dest : Pubkey} {n : Nat} {purpose : Purpose} :
    s.paySol source dest n purpose =
      if 0 < n then s.sendLamports source dest n purpose else s := by
  split
  · rename_i hpos
    simp [paySol, sendLamports, Movement.made, hpos]
  · obtain rfl : n = 0 := by omega
    simp [paySol, Movement.made]

theorem payTokens_eq {source mint dest recipient : Pubkey} {n : Nat} {purpose : Purpose} :
    s.payTokens source mint dest recipient n purpose =
      if 0 < n then s.sendTokens source mint dest recipient n purpose else s := by
  split
  · rename_i hpos
    simp [payTokens, sendTokens, Movement.made, hpos]
  · obtain rfl : n = 0 := by omega
    simp [payTokens, Movement.made]

/-- The plan of the vault, when the config says that it has one. -/
def registeredPlan (s : World) (vaultKey : Pubkey) (vault : VaultConfig) : Option AssetPlan :=
  if vault.hasAssetPlan then s.assetPlans (.assetPlan vaultKey) else none

/-- Creating an account leaves its address with at least the rent of its size. -/
theorem fundRent_ok {payer k : Pubkey} {space : Nat} (h : s.fundRent c payer k space = .ok s') :
    ∃ n, n ≤ s.lamports payer ∧ c.minimumBalance space ≤ s.lamports k + n ∧
      s' = s.sendLamports payer k n .rent := by
  simp only [fundRent, systemTransfer, transferLamports_eq_ok] at h
  obtain ⟨hn, -, rfl⟩ := h
  refine ⟨_, hn, ?_, rfl⟩
  split <;> omega

theorem refundLamports_eq_ok {k dest : Pubkey} :
    s.refundLamports k dest = .ok s' ↔
      Function.update s.lamports k 0 dest + s.lamports k ≤ u64Max ∧
      s' = s.sendLamports k dest (s.lamports k) .refund := by
  simp [refundLamports, transferLamports_eq_ok]

theorem closeAssetPlan_eq_ok {k dest : Pubkey} :
    s.closeAssetPlan k dest = .ok s' ↔
      Function.update s.lamports k 0 dest + s.lamports k ≤ u64Max ∧
      s' = (s.sendLamports k dest (s.lamports k) .refund).putAssetPlan k none := by
  simp only [closeAssetPlan, Except.bind_eq_ok, transferLamports_eq_ok, Except.pure_eq_ok]
  constructor
  · rintro ⟨_, ⟨-, hfit, rfl⟩, rfl⟩
    exact ⟨by simpa using hfit, rfl⟩
  · rintro ⟨hfit, rfl⟩
    exact ⟨_, ⟨le_rfl, by simpa using hfit, rfl⟩, rfl⟩

/-- The world after the vault and its heartbeat are closed to `dest`. -/
def closePair (s : World) (vaultKey dest : Pubkey) : World :=
  let s := (s.sendLamports vaultKey dest (s.lamports vaultKey) .refund).putVaultConfig vaultKey none
  (s.sendLamports (.heartbeat vaultKey) dest (s.lamports (.heartbeat vaultKey))
    .refund).putHeartbeatRecord (.heartbeat vaultKey) none

/-- The world after the plan is closed to `dest`, when the vault has one. -/
def closePlan (s : World) (vault : VaultConfig) (vaultKey dest : Pubkey) : World :=
  if vault.hasAssetPlan then
    (s.sendLamports (.assetPlan vaultKey) dest (s.lamports (.assetPlan vaultKey))
      .refund).putAssetPlan (.assetPlan vaultKey) none
  else s

theorem payLamports_eq_ok {source dest : Pubkey} {n : Nat} {purpose : Purpose} :
    s.payLamports source dest n purpose = .ok s' ↔
      n ≤ s.lamports source ∧
      Function.update s.lamports source (s.lamports source - n) dest + n ≤ u64Max ∧
      s' = s.sendLamports source dest n purpose :=
  transferLamports_eq_ok

theorem payPositive_ok {source dest : Pubkey} {n : Nat} {purpose : Purpose}
    (h : s.payPositive source dest n purpose = .ok s') :
    n ≤ s.lamports source ∧ s' = s.paySol source dest n purpose := by
  rw [paySol_eq]
  unfold payPositive at h
  split at h
  · rename_i hpos
    obtain ⟨hn, -, rfl⟩ := payLamports_eq_ok.mp h
    exact ⟨hn, by rw [if_pos hpos]⟩
  · rename_i hzero
    cases h
    exact ⟨by omega, by rw [if_neg hzero]⟩

theorem transferPositive_ok {program : TokenProgram} {source mint dest authority : Pubkey}
    {n decimals : Nat} {purpose : Purpose} {account : TokenAccount}
    (hd : s.tokenAccounts dest = some account)
    (h : s.transferPositive c program source mint dest authority n decimals purpose = .ok s') :
    n ≤ s.tokenAmounts source ∧ s' = s.payTokens source mint dest account.owner n purpose ∧
      (0 < n → s.tokenAccounts source = some ⟨some (c.tokenProgram mint), mint, authority⟩ ∧
        account = ⟨some (c.tokenProgram mint), mint, account.owner⟩) := by
  rw [payTokens_eq]
  unfold transferPositive at h
  split at h
  · rename_i hpos
    obtain ⟨recipient, hs, hd', hn, rfl⟩ := transferChecked_ok h
    rw [hd, Option.some.injEq] at hd'
    subst hd'
    exact ⟨hn, by rw [if_pos hpos], fun _ => ⟨hs, rfl⟩⟩
  · rename_i hzero
    cases h
    exact ⟨by omega, by rw [if_neg hzero], fun h => absurd h hzero⟩

end World

end DeadMansVault
