-- SUMMARY: That no instruction leaves one of the accounts around a vault without its rent.
import DeadMansVault.Program.Footprint

/-!
# Rent

The runtime refuses a transaction that leaves an account with less than the rent of its size.
`Upkept c s s'` says of the accounts derived from vaults, whatever they hold, that the second
world gives no cause for it where the first gave none. It composes, and every accepted
instruction satisfies it. The vaults themselves, whose lamports are paid out, are not its matter:
for them there is the solvency of their estates.
-/

namespace DeadMansVault

open World

/-- The size of the account of the program at an address, if there is one. -/
def World.accountSpace (s : World) : Pubkey → Option Nat
  | .vault o => (s.vaultConfigs (.vault o)).map fun _ => VaultConfig.space
  | .heartbeat vault => (s.heartbeatRecords (.heartbeat vault)).map fun _ => HeartbeatRecord.space
  | .execution vault => (s.executionLogs (.execution vault)).map fun _ => ExecutionLog.space
  | .assetPlan vault => (s.assetPlans (.assetPlan vault)).map fun _ => AssetPlan.space
  | .tokenDist vault mint => (s.tokenDists (.tokenDist vault mint)).map fun _ => TokenDist.space
  | _ => none

/-- Every account of the program holds the rent of its size. -/
def World.RentExempt (c : Cluster) (s : World) : Prop :=
  ∀ k space, s.accountSpace k = some space → c.minimumBalance space ≤ s.lamports k

/-- An account around a vault was there and has lost nothing, or it holds its rent. -/
def Upkept (c : Cluster) (s s' : World) : Prop :=
  ∀ k space, (∀ o, k ≠ .vault o) → s'.accountSpace k = some space →
    s.accountSpace k = some space ∧ s.lamports k ≤ s'.lamports k ∨
      c.minimumBalance space ≤ s'.lamports k

/-- Addresses of which `Upkept` does not speak: the vaults, and those of no account. -/
def Pubkey.Outside (k : Pubkey) : Prop := ¬ k.programControlled ∨ ∃ o, k = .vault o

theorem Pubkey.outside_of_canSign {signer : Pubkey} (h : signer.canSign = true) :
    signer.Outside := by
  cases signer with
  | key => exact .inl id
  | _ => cases h

variable {c : Cluster} {s s' s'' : World} {k vault : Pubkey}

/-! ## The accounts after a write -/

theorem World.accountSpace_programControlled {space : Nat} (h : s.accountSpace k = some space) :
    k.programControlled := by
  cases k with
  | key | associatedToken => cases h
  | _ => trivial

theorem World.accountSpace_putVaultConfig (v : Option VaultConfig) (hk : ∀ o, k ≠ .vault o) :
    (s.putVaultConfig vault v).accountSpace k = s.accountSpace k := by
  cases k with
  | vault o => exact absurd rfl (hk o)
  | _ => rfl

theorem World.accountSpace_putHeartbeatRecord (h : Option HeartbeatRecord) :
    (s.putHeartbeatRecord (.heartbeat vault) h).accountSpace =
      Function.update s.accountSpace (.heartbeat vault) (h.map fun _ => HeartbeatRecord.space) := by
  funext k
  by_cases hk : k = .heartbeat vault
  · rw [hk, Function.update_self]
    exact congrArg (Option.map _) (Function.update_self ..)
  · rw [Function.update_of_ne hk]
    cases k with
    | heartbeat => exact congrArg (Option.map _) (Function.update_of_ne hk ..)
    | _ => rfl

theorem World.accountSpace_putAssetPlan (p : Option AssetPlan) :
    (s.putAssetPlan (.assetPlan vault) p).accountSpace =
      Function.update s.accountSpace (.assetPlan vault) (p.map fun _ => AssetPlan.space) := by
  funext k
  by_cases hk : k = .assetPlan vault
  · rw [hk, Function.update_self]
    exact congrArg (Option.map _) (Function.update_self ..)
  · rw [Function.update_of_ne hk]
    cases k with
    | assetPlan => exact congrArg (Option.map _) (Function.update_of_ne hk ..)
    | _ => rfl

theorem World.accountSpace_putExecutionLog (l : Option ExecutionLog) :
    (s.putExecutionLog (.execution vault) l).accountSpace =
      Function.update s.accountSpace (.execution vault) (l.map fun _ => ExecutionLog.space) := by
  funext k
  by_cases hk : k = .execution vault
  · rw [hk, Function.update_self]
    exact congrArg (Option.map _) (Function.update_self ..)
  · rw [Function.update_of_ne hk]
    cases k with
    | execution => exact congrArg (Option.map _) (Function.update_of_ne hk ..)
    | _ => rfl

theorem World.accountSpace_putTokenDist (mint : Pubkey) (d : Option TokenDist) :
    (s.putTokenDist (.tokenDist vault mint) d).accountSpace =
      Function.update s.accountSpace (.tokenDist vault mint) (d.map fun _ => TokenDist.space) := by
  funext k
  by_cases hk : k = .tokenDist vault mint
  · rw [hk, Function.update_self]
    exact congrArg (Option.map _) (Function.update_self ..)
  · rw [Function.update_of_ne hk]
    cases k with
    | tokenDist => exact congrArg (Option.map _) (Function.update_of_ne hk ..)
    | _ => rfl

namespace Upkept

/-! ## Composition -/

theorem refl (s : World) : Upkept c s s := fun _ _ _ h => .inl ⟨h, le_rfl⟩

theorem trans (h : Upkept c s s') (h' : Upkept c s' s'') : Upkept c s s'' := by
  intro k space hk hspace
  rcases h' k space hk hspace with ⟨hmid, hle⟩ | hrent
  · exact (h k space hk hmid).imp (fun hkept => ⟨hkept.1, hkept.2.trans hle⟩) hle.trans'
  · exact .inr hrent

/-- The turns of a loop follow one another. -/
theorem loop {ι : Type} {R : World → ι → World → Prop} {es : List ι}
    (hR : ∀ s e s', R s e s' → Upkept c s s') (h : Trace R s es s') : Upkept c s s' :=
  h.preserves (P := fun t => Upkept c s t) (fun t e t' ht hstep => ht.trans (hR t e t' hstep))
    (refl s)

/-! ## The calls of the handlers -/

theorem of_same (hspace : ∀ k, (∀ o, k ≠ .vault o) → s'.accountSpace k = s.accountSpace k)
    (hlamports : s'.lamports = s.lamports) : Upkept c s s' := by
  intro k space hk h
  rw [hspace k hk] at h
  exact .inl ⟨h, by rw [hlamports]⟩

theorem putVaultConfig (v : Option VaultConfig) : Upkept c s (s.putVaultConfig vault v) :=
  of_same (fun _ => accountSpace_putVaultConfig v) rfl

theorem dropTokenAccount : Upkept c s (s.dropTokenAccount k) := of_same (fun _ _ => rfl) rfl

theorem payTokens {source mint dest recipient : Pubkey} {n : Nat} {purpose : Purpose} :
    Upkept c s (s.payTokens source mint dest recipient n purpose) := of_same (fun _ _ => rfl) rfl

theorem sendTokens {source mint dest recipient : Pubkey} {n : Nat} {purpose : Purpose} :
    Upkept c s (s.sendTokens source mint dest recipient n purpose) := of_same (fun _ _ => rfl) rfl

/-- Lamports from outside take none from the accounts. -/
theorem sendLamports {source dest : Pubkey} {n : Nat} {purpose : Purpose}
    (hsource : source.Outside) : Upkept c s (s.sendLamports source dest n purpose) := by
  intro k space hk hspace
  refine .inl ⟨hspace, Ledger.le_move ?_⟩
  rintro rfl
  rcases hsource with hfree | ⟨o, rfl⟩
  · exact hfree (accountSpace_programControlled hspace)
  · exact hk o rfl

theorem paySol {source dest : Pubkey} {n : Nat} {purpose : Purpose} (hsource : source.Outside) :
    Upkept c s (s.paySol source dest n purpose) := by
  rw [paySol_eq]
  split
  · exact sendLamports hsource
  · exact refl s

/-- An account is written that was there, or holds its rent. -/
theorem write {α : Type} {there : Option α} {space : Nat}
    (hspace : s'.accountSpace = Function.update s.accountSpace k (some space))
    (hlamports : s'.lamports = s.lamports) (hthere : s.accountSpace k = there.map fun _ => space)
    (hrent : there.isSome = true ∨ c.minimumBalance space ≤ s.lamports k) : Upkept c s s' := by
  intro k' space' _ h
  rw [hspace] at h
  rw [hlamports]
  by_cases hk : k' = k
  · subst hk
    rw [Function.update_self] at h
    obtain rfl := Option.some.inj h
    refine hrent.imp_left fun hsome => ⟨?_, le_rfl⟩
    obtain ⟨x, rfl⟩ := Option.isSome_iff_exists.mp hsome
    exact hthere
  · rw [Function.update_of_ne hk] at h
    exact .inl ⟨h, le_rfl⟩

/-- An account is closed with all its lamports. -/
theorem close {dest : Pubkey} {n : Nat}
    (hspace : s'.accountSpace = Function.update s.accountSpace k none)
    (hlamports : s'.lamports = Ledger.move s.lamports k dest n) : Upkept c s s' := by
  intro k' space _ h
  rw [hspace] at h
  have hk : k' ≠ k := by
    rintro rfl
    rw [Function.update_self] at h
    cases h
  rw [Function.update_of_ne hk] at h
  rw [hlamports]
  exact .inl ⟨h, Ledger.le_move hk⟩

theorem putHeartbeatRecord {h : HeartbeatRecord}
    (hrent : (s.heartbeatRecords (.heartbeat vault)).isSome = true ∨
      c.minimumBalance HeartbeatRecord.space ≤ s.lamports (.heartbeat vault)) :
    Upkept c s (s.putHeartbeatRecord (.heartbeat vault) (some h)) :=
  write (accountSpace_putHeartbeatRecord _) rfl rfl hrent

theorem putAssetPlan {p : AssetPlan}
    (hrent : (s.assetPlans (.assetPlan vault)).isSome = true ∨
      c.minimumBalance AssetPlan.space ≤ s.lamports (.assetPlan vault)) :
    Upkept c s (s.putAssetPlan (.assetPlan vault) (some p)) :=
  write (accountSpace_putAssetPlan _) rfl rfl hrent

theorem putExecutionLog {l : ExecutionLog}
    (hrent : (s.executionLogs (.execution vault)).isSome = true ∨
      c.minimumBalance ExecutionLog.space ≤ s.lamports (.execution vault)) :
    Upkept c s (s.putExecutionLog (.execution vault) (some l)) :=
  write (accountSpace_putExecutionLog _) rfl rfl hrent

theorem putTokenDist {mint : Pubkey} {d : TokenDist}
    (hrent : (s.tokenDists (.tokenDist vault mint)).isSome = true ∨
      c.minimumBalance TokenDist.space ≤ s.lamports (.tokenDist vault mint)) :
    Upkept c s (s.putTokenDist (.tokenDist vault mint) (some d)) :=
  write (accountSpace_putTokenDist mint _) rfl rfl hrent

theorem closePair {dest : Pubkey} (hvault : vault.Outside) :
    Upkept c s (s.closePair vault dest) := by
  unfold World.closePair
  exact ((sendLamports hvault).trans (putVaultConfig none)).trans
    (close (accountSpace_putHeartbeatRecord none) rfl)

theorem closePlan {config : VaultConfig} {dest : Pubkey} :
    Upkept c s (s.closePlan config vault dest) := by
  unfold World.closePlan
  split
  · exact close (accountSpace_putAssetPlan none) rfl
  · exact refl s

end Upkept

/-! ## New accounts -/

/-- What has just been funded holds its rent. -/
theorem fundRent_funds {signer : Pubkey} {space : Nat} (hsign : signer.canSign = true)
    (hk : k.canSign = false) (h : s.fundRent c signer k space = .ok s') :
    c.minimumBalance space ≤ s'.lamports k := by
  obtain ⟨n, -, hrent, rfl⟩ := fundRent_ok h
  have hne : k ≠ signer := by
    rintro rfl
    cases hk.symm.trans hsign
  rwa [sendLamports_lamports, Ledger.move_dest hne]

theorem initializeVault_funds {ctx : InitializeVault} {params : InitializeVaultParams}
    (h : initializeVault c ctx params s = .ok s') :
    c.minimumBalance HeartbeatRecord.space ≤ s'.lamports (.heartbeat ctx.vaultConfig) := by
  simp only [initializeVault, Except.bind_eq_ok, require_eq_ok, requireSigner_eq_ok,
    requireSeeds_eq_ok, exists_const] at h
  obtain ⟨hsign, -, -, s₁, -, hheart, -, s₂, hfund, -, -, -, -, -, -, -, -, -, -, -, h⟩ := h
  rw [hheart] at hfund
  obtain ⟨-, -, rfl⟩ := transferLamports_eq_ok.mp h
  have hkept : s₂.lamports (.heartbeat ctx.vaultConfig) ≤
      Ledger.move s₂.lamports ctx.owner ctx.feeRecipient vaultCreationFeeLamports
        (.heartbeat ctx.vaultConfig) := Ledger.le_move fun heq => by
    rw [← heq] at hsign
    cases hsign
  exact (fundRent_funds hsign rfl hfund).trans hkept

theorem setAssetPlan_funds {ctx : SetAssetPlan} {assignments : List AssetAssignment}
    (h : setAssetPlan c ctx assignments s = .ok s') :
    c.minimumBalance AssetPlan.space ≤ s'.lamports (.assetPlan ctx.vaultConfig) := by
  simp only [setAssetPlan, Except.bind_eq_ok, require_eq_ok, requireSigner_eq_ok,
    requireSeeds_eq_ok, Except.pure_eq_ok, exists_const] at h
  obtain ⟨hsign, _, -, _, -, hplan, -, s₁, hfund, -, -, -, -, -, -, _, -, -, _, -, _, -, rfl⟩ := h
  rw [hplan] at hfund
  have hfunds := fundRent_funds hsign rfl hfund
  exact hfunds

theorem beginExecution_funds {ctx : BeginExecution} (h : beginExecution c ctx s = .ok s') :
    c.minimumBalance ExecutionLog.space ≤ s'.lamports (.execution ctx.vaultConfig) := by
  simp only [beginExecution, Except.bind_eq_ok, require_eq_ok, requireSigner_eq_ok,
    requireSeeds_eq_ok, Except.pure_eq_ok, exists_const] at h
  obtain ⟨hsign, _, -, _, -, hlog, -, s₁, hfund, _, -, -, -, -, -, _, -, -, _, -, rfl⟩ := h
  rw [hlog] at hfund
  have hfunds := fundRent_funds hsign rfl hfund
  exact hfunds

theorem beginTokenDist_funds {ctx : BeginTokenDist} (h : beginTokenDist c ctx s = .ok s') :
    c.minimumBalance TokenDist.space ≤ s'.lamports (.tokenDist ctx.vaultConfig ctx.mint) := by
  simp only [beginTokenDist, Except.bind_eq_ok, require_eq_ok, requireSigner_eq_ok,
    requireSeeds_eq_ok, Except.pure_eq_ok, exists_const] at h
  obtain ⟨hsign, _, -, _, -, _, -, _, -, hdist, -, s₁, hfund, -, -, -, -, _, -, _, -, -, rfl⟩ := h
  rw [hdist] at hfund
  have hfunds := fundRent_funds hsign rfl hfund
  exact hfunds

/-! ## The rent of each instruction -/

theorem initializeVault_upkept {ctx : InitializeVault} {params : InitializeVaultParams}
    (h : initializeVault c ctx params s = .ok s') : Upkept c s s' := by
  have hfunds := initializeVault_funds h
  obtain ⟨config, record, n, n', fee, hsign, -, -, -, -, -, -, -, -, -, -, -, -, -, -, -, -, rfl⟩ :=
    initializeVault_ok h
  have howner := Pubkey.outside_of_canSign hsign
  -- The fee may as well be paid before the record is written.
  have hbefore : Upkept c s ((((s.sendLamports ctx.owner ctx.vaultConfig n .rent).sendLamports
      ctx.owner (.heartbeat ctx.vaultConfig) n' .rent).putVaultConfig ctx.vaultConfig
      (some config)).sendLamports ctx.owner feeWallet fee .creationFee) :=
    (((Upkept.sendLamports howner).trans (.sendLamports howner)).trans
      (.putVaultConfig _)).trans (.sendLamports howner)
  exact hbefore.trans (.putHeartbeatRecord (h := record) (.inr hfunds))

theorem updateVault_upkept {ctx : UpdateVault} {params : UpdateVaultParams}
    (h : updateVault c ctx params s = .ok s') : Upkept c s s' := by
  obtain ⟨_, _, _, -, -, -, -, -, -, -, -, -, -, rfl⟩ := updateVault_ok h
  exact .putVaultConfig _

theorem recordHeartbeat_upkept {ctx : RecordHeartbeat} {method : HeartbeatMethod}
    (h : recordHeartbeat ctx method s = .ok s') : Upkept c s s' := by
  obtain ⟨_, _, _, -, hgate, -, -, -, -, -, -, rfl⟩ := recordHeartbeat_ok h
  exact .putHeartbeatRecord (.inl (Option.isSome_of_eq_some hgate.record))

theorem rotateAgent_upkept {ctx : RotateAgent} {newAgentPubkey : Pubkey}
    (h : rotateAgent ctx newAgentPubkey s = .ok s') : Upkept c s s' := by
  obtain ⟨_, _, _, _, -, hgate, -, -, -, -, -, -, -, -, rfl⟩ := rotateAgent_ok (c := c) h
  exact (Upkept.putVaultConfig _).trans
    (.putHeartbeatRecord (.inl (Option.isSome_of_eq_some hgate.record)))

theorem setAssetPlan_upkept {ctx : SetAssetPlan} {assignments : List AssetAssignment}
    (h : setAssetPlan c ctx assignments s = .ok s') : Upkept c s s' := by
  have hfunds := setAssetPlan_funds h
  obtain ⟨_, _, _, hsign, -, -, -, -, -, -, -, -, rfl⟩ := setAssetPlan_ok h
  exact ((Upkept.sendLamports (Pubkey.outside_of_canSign hsign)).trans
    (.putAssetPlan (.inr hfunds))).trans (.putVaultConfig _)

/-- Only a plan that is there is replaced. -/
theorem updateAssetPlan_found {ctx : UpdateAssetPlan} {assignments : List AssetAssignment}
    (h : updateAssetPlan ctx assignments s = .ok s') :
    (s.assetPlans (.assetPlan ctx.vaultConfig)).isSome = true := by
  simp only [updateAssetPlan, Except.bind_eq_ok, require_eq_ok, requireSeeds_eq_ok,
    loadAssetPlan_eq_ok, exists_const] at h
  obtain ⟨_, -, _, -, _, -, plan, hp, -, -, -, -, -, -, -, hplan, -⟩ := h
  rw [hplan] at hp
  exact Option.isSome_of_eq_some hp

theorem updateAssetPlan_upkept {ctx : UpdateAssetPlan} {assignments : List AssetAssignment}
    (h : updateAssetPlan ctx assignments s = .ok s') : Upkept c s s' := by
  have hfound := updateAssetPlan_found h
  obtain ⟨_, _, -, -, -, -, -, -, -, -, rfl⟩ := updateAssetPlan_ok h
  exact .putAssetPlan (.inl hfound)

theorem clearAssetPlan_upkept {ctx : ClearAssetPlan} (h : clearAssetPlan ctx s = .ok s') :
    Upkept c s s' := by
  obtain ⟨_, _, -, -, -, -, -, -, -, rfl⟩ := clearAssetPlan_ok h
  refine Upkept.trans ?_ (.putVaultConfig _)
  exact .close (accountSpace_putAssetPlan none) rfl

theorem withdrawFromVault_upkept {ctx : WithdrawFromVault} {amount : Nat}
    (h : withdrawFromVault c ctx amount s = .ok s') : Upkept c s s' := by
  obtain ⟨_, _, _, -, -, -, -, -, -, -, rfl⟩ := withdrawFromVault_ok h
  exact .sendTokens

theorem withdrawSolFromVault_upkept {ctx : WithdrawSolFromVault} {amount : Nat}
    (h : withdrawSolFromVault c ctx amount s = .ok s') : Upkept c s s' := by
  obtain ⟨_, _, -, hseeds, -, -, -, rfl⟩ := withdrawSolFromVault_ok h
  exact .sendLamports (.inr ⟨_, hseeds⟩)

theorem revokeVault_upkept {ctx : RevokeVault} (h : revokeVault ctx s = .ok s') :
    Upkept c s s' := by
  obtain ⟨_, _, -, hseeds, -, -, -, -, -, rfl⟩ := revokeVault_ok h
  exact Upkept.closePlan.trans (.closePair (.inr ⟨_, hseeds⟩))

theorem closeRevokedVault_upkept {ctx : CloseRevokedVault}
    (h : closeRevokedVault ctx s = .ok s') : Upkept c s s' := by
  obtain ⟨_, _, -, hseeds, -, -, -, -, -, rfl⟩ := closeRevokedVault_ok h
  exact .closePair (.inr ⟨_, hseeds⟩)

theorem beginExecution_upkept {ctx : BeginExecution} (h : beginExecution c ctx s = .ok s') :
    Upkept c s s' := by
  have hfunds := beginExecution_funds h
  obtain ⟨_, _, _, hsign, -, -, -, -, -, -, -, -, -, rfl⟩ := beginExecution_ok h
  exact (Upkept.sendLamports (Pubkey.outside_of_canSign hsign)).trans
    (.putExecutionLog (.inr hfunds))

theorem beginTokenDist_upkept {ctx : BeginTokenDist} (hp : s.Regular c)
    (h : beginTokenDist c ctx s = .ok s') : Upkept c s s' := by
  have hfunds := beginTokenDist_funds h
  obtain ⟨_, _, _, hsign, -, -, -, -, -, rfl⟩ := beginTokenDist_ok hp.vacant h
  exact ((Upkept.sendLamports (Pubkey.outside_of_canSign hsign)).trans
    (.putTokenDist (.inr hfunds))).trans (.putVaultConfig _)

theorem executeSpecificAsset_upkept {ctx : ExecuteSpecificAsset} {j : Nat}
    (h : executeSpecificAsset c ctx j s = .ok s') : Upkept c s s' := by
  obtain ⟨_, _, _, _, _, _, _, -, -, hplan, -, -, -, -, -, -, -, -, -, -, -, rfl⟩ :=
    executeSpecificAsset_ok h
  exact (Upkept.putAssetPlan (.inl (Option.isSome_of_eq_some hplan))).trans .payTokens

theorem executeSpecificSol_upkept {ctx : ExecuteSpecificSol} {j : Nat}
    (h : executeSpecificSol c ctx j s = .ok s') : Upkept c s s' := by
  obtain ⟨_, _, _, _, _, -, hgate, hplan, -, -, -, -, -, -, rfl⟩ := executeSpecificSol_ok h
  exact (Upkept.paySol (.inr ⟨_, hgate.seeds⟩)).trans
    (.putAssetPlan (.inl (Option.isSome_of_eq_some hplan)))

theorem paySolShare_upkept {benefs : List Beneficiary} {snapshot : Nat}
    {entry : Nat × AccountMeta} (hvault : vault.Outside)
    (h : paySolShare vault (.execution vault) benefs snapshot s entry = .ok s') :
    Upkept c s s' := by
  obtain ⟨_, _, -, hlog, ⟨-, rfl⟩ | ⟨-, -, -, _, _, rfl⟩⟩ := paySolShare_ok h
  · exact .refl _
  · exact (Upkept.paySol hvault).trans
      (.putExecutionLog (.inl (Option.isSome_of_eq_some hlog)))

theorem executeSolShares_upkept {ctx : ExecuteSolShares} {indices : List Nat}
    (h : executeSolShares ctx indices s = .ok s') : Upkept c s s' := by
  obtain ⟨_, _, -, hgate, -, hrun⟩ := executeSolShares_ok h
  exact .loop (fun _ _ _ => paySolShare_upkept (.inr ⟨_, hgate.seeds⟩)) hrun

theorem payTokenShare_upkept {ctx : ExecuteTokenShares} {benefs : List Beneficiary}
    {snapshot decimals : Nat} {entry : Nat × AccountMeta}
    (hkey : ctx.tokenDist = .tokenDist ctx.vaultConfig ctx.mint)
    (h : payTokenShare c ctx benefs snapshot decimals s entry = .ok s') : Upkept c s s' := by
  obtain ⟨_, _, -, hdist, ⟨-, rfl⟩ | ⟨-, _, -, -, -, rfl⟩⟩ := payTokenShare_ok h
  · exact .refl _
  · rw [hkey] at hdist ⊢
    exact (Upkept.putTokenDist (.inl (Option.isSome_of_eq_some hdist))).trans .payTokens

theorem executeTokenShares_upkept {ctx : ExecuteTokenShares} {indices : List Nat}
    (h : executeTokenShares c ctx indices s = .ok s') : Upkept c s s' := by
  obtain ⟨_, _, _, -, -, -, hkey, -, -, hrun⟩ := executeTokenShares_ok h
  exact .loop (fun _ _ _ => payTokenShare_upkept hkey) hrun

theorem finalizeExecution_upkept {ctx : FinalizeExecution}
    (h : finalizeExecution c ctx s = .ok s') : Upkept c s s' := by
  obtain ⟨_, _, -, hgate, -, -, -, rfl⟩ := finalizeExecution_ok h
  exact ((Upkept.putVaultConfig _).trans
    (.putExecutionLog (.inl (Option.isSome_of_eq_some hgate.log)))).trans
    (.paySol (.inr ⟨_, hgate.seeds⟩))

theorem closeTokenDist_upkept {ctx : CloseTokenDist} (h : closeTokenDist c ctx s = .ok s') :
    Upkept c s s' := by
  obtain ⟨_, _, _, _, _, _, -, -, -, -, -, -, -, rfl, -, -, rfl, rfl⟩ := closeTokenDist_ok h
  exact (((Upkept.payTokens.trans (.sendLamports (.inl id))).trans .dropTokenAccount).trans
    (.putVaultConfig _)).trans (.close (accountSpace_putTokenDist _ none) rfl)

theorem settleAndClose_upkept {config : VaultConfig} {plan : Option AssetPlan} {dest : Pubkey}
    {largestBenef : Option Pubkey} (hvault : vault.Outside)
    (h : settleAndClose c config plan vault (.heartbeat vault) (.execution vault) dest
      largestBenef s = .ok s') : Upkept c s s' := by
  obtain ⟨_, _, -, rfl, rfl⟩ := settleAndClose_ok h
  exact (((Upkept.paySol hvault).trans .closePlan).trans (.closePair hvault)).trans
    (.close (accountSpace_putExecutionLog none) rfl)

theorem closeExecutedVault_upkept {ctx : CloseExecutedVault}
    (h : closeExecutedVault c ctx s = .ok s') : Upkept c s s' := by
  obtain ⟨_, _, _, -, hgate, -, -, hsettle⟩ := closeExecutedVault_ok h
  exact settleAndClose_upkept (.inr ⟨_, hgate.seeds⟩) hsettle

theorem closeExecutedVaultByOwner_upkept {ctx : CloseExecutedVaultByOwner}
    (h : closeExecutedVaultByOwner c ctx s = .ok s') : Upkept c s s' := by
  obtain ⟨_, _, _, -, hgate, -, hsettle⟩ := closeExecutedVaultByOwner_ok h
  exact settleAndClose_upkept (.inr ⟨_, hgate.seeds⟩) hsettle

/-- Every accepted instruction leaves the accounts around the vaults their rent. -/
theorem exec_upkept {i : Instruction} (hp : s.Regular c) (h : exec c i s = .ok s') :
    Upkept c s s' := by
  have hfresh : Upkept c s s.fresh := .of_same (fun _ _ => rfl) rfl
  refine hfresh.trans ?_
  unfold exec Instruction.dispatch at h
  cases i with
  | initializeVault => exact initializeVault_upkept h
  | updateVault => exact updateVault_upkept h
  | recordHeartbeat => exact recordHeartbeat_upkept h
  | rotateAgent => exact rotateAgent_upkept h
  | revokeVault => exact revokeVault_upkept h
  | closeRevokedVault => exact closeRevokedVault_upkept h
  | closeExecutedVaultByOwner => exact closeExecutedVaultByOwner_upkept h
  | closeExecutedVault => exact closeExecutedVault_upkept h
  | withdrawFromVault => exact withdrawFromVault_upkept h
  | withdrawSolFromVault => exact withdrawSolFromVault_upkept h
  | setAssetPlan => exact setAssetPlan_upkept h
  | updateAssetPlan => exact updateAssetPlan_upkept h
  | clearAssetPlan => exact clearAssetPlan_upkept h
  | beginExecution => exact beginExecution_upkept h
  | beginTokenDist => exact beginTokenDist_upkept hp.fresh h
  | executeSpecificAsset => exact executeSpecificAsset_upkept h
  | executeSpecificSol => exact executeSpecificSol_upkept h
  | executeSolShares => exact executeSolShares_upkept h
  | executeTokenShares => exact executeTokenShares_upkept h
  | finalizeExecution => exact finalizeExecution_upkept h
  | closeTokenDist => exact closeTokenDist_upkept h

end DeadMansVault
