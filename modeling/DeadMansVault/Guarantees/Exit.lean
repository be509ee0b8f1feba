-- SUMMARY: When the owner's exit from the app goes through, what it returns, and what stands where it does not.
import DeadMansVault.Automation.Leaving
import DeadMansVault.Guarantees.Griefing
import DeadMansVault.Guarantees.Settlement

/-!
# The owner's exit

The app empties the vault and revokes it in batches, and only the last batch carries the revoke.
What it withdraws is what the node lists, and it withdraws it from the associated accounts. So it
goes through if and only if, the vault being open to changes and its deadline ahead, the
associated accounts hold all that is listed.
-/

namespace DeadMansVault

open Crank Device Script World RevokeEnv

variable {c : Cluster} {node : Node} {handset : Handset} {owner : Pubkey} {v : VaultConfig}
  {h : HeartbeatRecord} {s w : World}

/-! ## The refund -/

theorem give_environment (hs : s.Regular c) {source dest : Pubkey} {n : Nat}
    (hsource : ¬ source.programControlled) (hn : n ≤ s.lamports source) :
    Environment c s (s.give source dest n) := by
  refine ⟨⟨hs.clock, hs.lamportSupply.move hn, hs.tokenSupply, hs.vacant, hs.vaultAtas,
    hs.defaultMint⟩, le_rfl, rfl, rfl, rfl, rfl, rfl, fun k hk => ?_, fun k account _ hk _ _ =>
      ⟨hk, le_rfl⟩⟩
  exact Ledger.le_move (fun heq => hsource (heq ▸ hk))

theorem not_programControlled {k : Pubkey} (h : k.canSign = true) : ¬ k.programControlled := by
  intro hcontrolled
  cases k with
  | vault => cases h
  | heartbeat => cases h
  | execution => cases h
  | assetPlan => cases h
  | tokenDist => cases h
  | _ => exact hcontrolled

/-- The agent's key is a key, and it is not the owner's. -/
def Device.Handset.Apart (handset : Handset) (owner : Pubkey) : Prop :=
  ∀ agent ∈ handset.agent, agent.canSign = true ∧ agent ≠ owner

/-- The refund moves lamports from the agent's key to the owner, and nothing else. -/
structure Refunded (c : Cluster) (handset : Handset) (owner : Pubkey) (s t : World) : Prop where
  reachable : Reachable c t
  now : t.now = s.now
  vaultConfigs : t.vaultConfigs = s.vaultConfigs
  heartbeatRecords : t.heartbeatRecords = s.heartbeatRecords
  assetPlans : t.assetPlans = s.assetPlans
  tokenAccounts : t.tokenAccounts = s.tokenAccounts
  tokenAmounts : t.tokenAmounts = s.tokenAmounts
  ownerLamports : t.lamports owner = s.lamports owner + handset.sweep s
  lamports : ∀ k, k.canSign = false → t.lamports k = s.lamports k

theorem Device.Handset.refunded (hs : Reachable c s) (hsign : owner.canSign = true)
    (hapart : handset.Apart owner) : Refunded c handset owner s (handset.swept s owner) := by
  obtain ⟨agent, refusal, toBase58⟩ := handset
  cases agent with
  | none => exact ⟨hs, rfl, rfl, rfl, rfl, rfl, rfl, rfl, fun _ _ => rfl⟩
  | some agent =>
      obtain ⟨hkey, hother⟩ := hapart agent rfl
      have hle : Handset.sweep ⟨some agent, refusal, toBase58⟩ s ≤ s.lamports agent := by
        unfold Handset.sweep
        dsimp only [Option.elim_some]
        split <;> omega
      refine ⟨hs.step (.environment (give_environment hs.sound.regular
        (not_programControlled hkey) hle)), rfl, rfl, rfl, rfl, rfl, rfl, ?_, fun k hk => ?_⟩
      · exact Ledger.move_dest (Ne.symm hother)
      · refine Ledger.move_of_ne ?_ ?_
        · rintro rfl
          exact Bool.false_ne_true (hk.symm.trans hkey)
        · rintro rfl
          exact Bool.false_ne_true (hk.symm.trans hsign)

/-! ## The lamports of the revoke -/

/-- The accounts that the revoke closes. -/
def VaultConfig.revokedAccounts (v : VaultConfig) (vaultKey : Pubkey) : List Pubkey :=
  (if v.hasAssetPlan then [.assetPlan vaultKey] else []) ++ [vaultKey, .heartbeat vaultKey]

theorem revoked_lamports (v : VaultConfig) (vaultKey dest : Pubkey) :
    ((w.closePlan v vaultKey dest).closePair vaultKey dest).lamports =
      Ledger.drainAll w.lamports dest (v.revokedAccounts vaultKey) := by
  rw [VaultConfig.revokedAccounts, drainAll_append, ← closePlan_lamports]
  rfl

/-- What the revoke returns, with all that the vault holds. -/
def World.dues (s : World) (v : VaultConfig) (owner : Pubkey) : Nat :=
  ((v.revokedAccounts (.vault owner)).map s.lamports).sum

theorem revokedAccounts_nodup (v : VaultConfig) (owner : Pubkey) :
    (v.revokedAccounts (.vault owner)).Nodup := by
  unfold VaultConfig.revokedAccounts
  split <;> simp

theorem not_mem_revokedAccounts (hsign : owner.canSign = true) (v : VaultConfig) :
    owner ∉ v.revokedAccounts (.vault owner) := by
  intro hmem
  have hkey : owner.canSign = false := by
    simp only [VaultConfig.revokedAccounts, List.mem_append, List.mem_ite_nil_right,
      List.mem_cons, List.not_mem_nil, or_false] at hmem
    rcases hmem with ⟨-, heq⟩ | heq | heq <;> rw [heq] <;> rfl
  exact Bool.false_ne_true (hkey.symm.trans hsign)

/-- What has been withdrawn before the revoke is not missing after it. -/
theorem emptied_dues {out : Pubkey → Nat} {sol : Nat} (hsign : owner.canSign = true)
    (hw : Emptied c owner s w out sol) :
    w.lamports owner + w.dues v owner = s.lamports owner + s.dues v owner := by
  have hkeys : ∀ k : Pubkey, k.canSign = false → k ≠ owner := by
    rintro k hk rfl
    exact Bool.false_ne_true (hk.symm.trans hsign)
  have hplan := hw.lamports (.assetPlan (.vault owner)) (hkeys _ rfl) (by rintro ⟨⟩)
  have hheart := hw.lamports (.heartbeat (.vault owner)) (hkeys _ rfl) (by rintro ⟨⟩)
  have hvault := hw.vaultLamports
  have howner := hw.ownerLamports
  unfold World.dues VaultConfig.revokedAccounts
  split <;>
    simp only [List.cons_append, List.nil_append, List.map_cons, List.map_nil, List.sum_cons,
      List.sum_nil] <;>
    omega

/-! ## The run -/

/-- The transactions of the exit, one after the other. -/
def Device.exitIxs (c : Cluster) (node : Node) (s : World) (owner : Pubkey) (v : VaultConfig) :
    Transaction :=
  withdrawals c node s owner ++ [revocation owner v]

/-- All of the transactions land, or they stop where a batch does not. -/
theorem leave_onNode (handset : Handset) (r : Run World)
    (hv : r.net.vaultConfigs (.vault owner) = some v) (hactive : v.active = true)
    (hexec : v.executed = false)
    (hlegible : Legible c node r.net owner) :
    Meets (fun r' => r' = r) ((revokeEnv c node handset).leave owner (some v))
      (fun _ r' => landsAll c r.net (exitIxs c node r.net owner v) = some r'.net)
      (fun _ r' => landsAll c r.net (exitIxs c node r.net owner v) = none ∧ ∃ done rest,
        exitIxs c node r.net owner v = done ++ rest ∧ rest ≠ [] ∧
          landsAll c r.net done = some r'.net) := by
  rintro r' rfl
  obtain ⟨count, hixs⟩ := buildWithdrawAll_onNode handset hlegible hv
  obtain ⟨batches, hflat, hbatches⟩ := buildBatchedTxs_onNode c node handset
    (withdrawals c node r'.net owner) hv
  have hsent := sendAll_meets c node handset r'.net batches r' rfl
  have hopen : (some v).any (fun v => v.active && !v.executed) = true := by
    rw [Option.any_some, hactive, hexec]
    rfl
  unfold RevokeEnv.leave
  rw [if_pos hopen, run_bind_ok hixs]
  dsimp only
  rw [run_bind_ok hbatches]
  rw [hflat] at hsent
  cases hrun : batches.forM (revokeEnv c node handset).sendOwnerTx r' with
  | ok u r₁ =>
      rw [hrun] at hsent
      rw [run_bind_ok hrun]
      exact hsent
  | error e r₁ =>
      rw [hrun] at hsent
      rw [run_bind_error hrun]
      exact hsent

/-- All of the exit lands, and the amounts shown are the differences; or it throws where a batch
    does not land. -/
theorem revokeVault_onNode (hv : s.vaultConfigs (.vault owner) = some v)
    (ht : (handset.swept s owner).vaultConfigs = s.vaultConfigs) (howner : v.owner = owner)
    (hactive : v.active = true) (hexec : v.executed = false)
    (hlegible : Legible c node (handset.swept s owner) owner) :
    (∃ result r, (revokeEnv c node handset).revokeVault owner ⟨s, []⟩ = .ok result r ∧
      landsAll c (handset.swept s owner) (exitIxs c node (handset.swept s owner) owner v) =
        some r.net ∧
      result.agent.lamports = handset.sweep s ∧
      (result.totalReturned, result.vaultReturned) = computeReturnedSol
        (some (s.lamports owner : Int)) (some (r.net.lamports owner : Int)) (handset.sweep s)) ∨
    (∃ e r, (revokeEnv c node handset).revokeVault owner ⟨s, []⟩ = .error e r ∧
      landsAll c (handset.swept s owner) (exitIxs c node (handset.swept s owner) owner v) = none ∧
      ∃ done rest, exitIxs c node (handset.swept s owner) owner v = done ++ rest ∧ rest ≠ [] ∧
        landsAll c (handset.swept s owner) done = some r.net) := by
  obtain ⟨refund, hlamports, hrefund⟩ := refundAgent_onNode c node handset owner ⟨s, []⟩
  have hconfig := fetchVaultConfig_onNode c node handset owner ⟨s, []⟩
  dsimp only at hconfig hlamports hrefund
  rw [hv] at hconfig
  have hown : ¬ (some v).any (fun v => decide (v.owner ≠ owner)) = true := by
    rw [Option.any_some, howner]
    simp
  have hleave := leave_onNode handset ⟨handset.swept s owner, []⟩
    ((congrFun ht _).trans hv) hactive hexec hlegible _ rfl
  have hbefore : (revokeEnv c node handset).balanceIfKnown owner ⟨s, []⟩ =
      .ok (some (s.lamports owner : Int)) ⟨s, []⟩ := rfl
  unfold RevokeEnv.revokeVault
  rw [run_bind_ok hconfig, if_neg hown, run_bind_ok hbefore, run_bind_ok hrefund]
  cases hrun : (revokeEnv c node handset).leave owner (some v) ⟨handset.swept s owner, []⟩ with
  | ok left r =>
      rw [hrun] at hleave
      rw [run_bind_ok hrun]
      obtain ⟨status, labels⟩ := left
      exact .inl ⟨_, r, rfl, hleave, hlamports, by rw [← hlamports]; rfl⟩
  | error e r =>
      rw [hrun] at hleave
      rw [run_bind_error hrun]
      exact .inr ⟨e, r, rfl, hleave⟩

/-! ## The exit -/

/-- The owner leaves an active vault with the app on a device. -/
structure Departing (c : Cluster) (node : Node) (handset : Handset) (owner : Pubkey)
    (v : VaultConfig) (h : HeartbeatRecord) (s : World) : Prop where
  reachable : Reachable c s
  config : s.vaultConfigs (.vault owner) = some v
  record : s.heartbeatRecords (.heartbeat (.vault owner)) = some h
  active : v.active = true
  signs : owner.canSign = true
  apart : handset.Apart owner
  legible : Legible c node (handset.swept s owner) owner

/-- The vault is gone, and what it held is the owner's: of the tokens what was listed, and all of
    the lamports. -/
structure Departed (c : Cluster) (owner : Pubkey) (v : VaultConfig) (holding : Pubkey → Nat)
    (sweep : Nat) (s s' : World) : Prop where
  config : s'.vaultConfigs (.vault owner) = none
  record : s'.heartbeatRecords (.heartbeat (.vault owner)) = none
  plan : s'.assetPlans (.assetPlan (.vault owner)) = none
  ownerTokens : ∀ m, s'.tokenAmounts (canonicalAta c owner m) =
    s.tokenAmounts (canonicalAta c owner m) + holding m
  vaultTokens : ∀ m, s'.tokenAmounts (canonicalAta c (.vault owner) m) + holding m =
    s.tokenAmounts (canonicalAta c (.vault owner) m)
  lamports : s'.lamports owner = s.lamports owner + sweep + s.dues v owner

/-- The vault is as it was, and nothing has gone anywhere but to the owner. -/
structure Detained (c : Cluster) (owner : Pubkey) (sweep : Nat) (s s' : World) : Prop where
  config : s'.vaultConfigs (.vault owner) = s.vaultConfigs (.vault owner)
  record : s'.heartbeatRecords (.heartbeat (.vault owner)) =
    s.heartbeatRecords (.heartbeat (.vault owner))
  plan : s'.assetPlans (.assetPlan (.vault owner)) = s.assetPlans (.assetPlan (.vault owner))
  tokens : ∀ m, s'.tokenAmounts (canonicalAta c (.vault owner) m) +
      s'.tokenAmounts (canonicalAta c owner m) =
    s.tokenAmounts (canonicalAta c (.vault owner) m) + s.tokenAmounts (canonicalAta c owner m)
  lamports : s'.lamports (.vault owner) + s'.lamports owner =
    s.lamports (.vault owner) + s.lamports owner + sweep

/-- What comes before the rest of a list is not its last element. -/
theorem mem_of_append_last {α : Type} {done rest xs : List α} {x : α}
    (h : xs ++ [x] = done ++ rest) (hrest : rest ≠ []) : ∀ y ∈ done, y ∈ xs := by
  intro y hy
  obtain ⟨front, last, rfl⟩ := (List.eq_nil_or_concat rest).resolve_left hrest
  rw [List.concat_eq_append, ← List.append_assoc] at h
  obtain ⟨rfl, -⟩ := List.append_inj' h rfl
  exact List.mem_append_left _ hy

namespace Departing

theorem refunded (hd : Departing c node handset owner v h s) :
    Refunded c handset owner s (handset.swept s owner) :=
  Handset.refunded hd.reachable hd.signs hd.apart

/-- The gate of the owner's instructions, in the numbers of the vault. -/
theorem leavable_iff (hd : Departing c node handset owner v h s) :
    (∃ h', Leavable (handset.swept s owner) owner v h') ↔
      s.now < v.deadlineAt h ∧ v.deadlineAt h ≤ i64Max := by
  have hr := hd.refunded
  have hrecord := (congrFun hr.heartbeatRecords (.heartbeat (.vault owner))).trans hd.record
  obtain ⟨hpin, hmin, -⟩ := (hd.reachable.lawful owner).record h hd.record
  obtain ⟨hacc, howner⟩ := (hd.reachable.lawful owner).accepted v hd.config
  constructor
  · rintro ⟨h', hleave⟩
    obtain rfl := Option.some.inj (hrecord.symm.trans hleave.unfrozen.record)
    exact ⟨lt_of_eq_of_lt hr.now.symm hleave.unfrozen.before, deadline_le hleave.deadline⟩
  · rintro ⟨hbefore, hfit⟩
    refine ⟨h, ⟨⟨(congrFun hr.vaultConfigs _).trans hd.config, hrecord, hpin,
      lt_of_eq_of_lt hr.now hbefore⟩, howner, ?_⟩⟩
    have hpos : 0 ≤ minHeartbeatInterval c.devnet ∧ 0 ≤ minGracePeriod c.devnet := by
      unfold minHeartbeatInterval minGracePeriod
      cases c.devnet <;> decide
    exact deadline_ok hmin (hpos.1.trans hacc.intervalRange.1) (hpos.2.trans hacc.graceRange.1) hfit

/-- What all of the transactions together leave. -/
theorem departed (hd : Departing c node handset owner v h s) {s' : World}
    (hland : landsAll c (handset.swept s owner) (exitIxs c node (handset.swept s owner) owner v) =
      some s') :
    Departed c owner v (node.holding (handset.swept s owner) (.vault owner)) (handset.sweep s)
      s s' := by
  have hr := hd.refunded
  obtain ⟨-, -, w, hw, rfl⟩ := exit_lands hr.reachable
    ((congrFun hr.vaultConfigs _).trans hd.config) hd.signs hland
  have hamounts : ((w.fresh.closePlan v (.vault owner) owner).closePair (.vault owner)
      owner).tokenAmounts = w.tokenAmounts := by
    unfold World.closePair World.closePlan
    split <;> rfl
  have hplans : ((w.fresh.closePlan v (.vault owner) owner).closePair (.vault owner)
      owner).assetPlans = (w.fresh.closePlan v (.vault owner) owner).assetPlans := rfl
  refine ⟨?_, ?_, ?_, fun m => ?_, fun m => ?_, ?_⟩
  · exact Function.update_self ..
  · exact Function.update_self ..
  · rw [hplans]
    unfold World.closePlan
    split
    · exact Function.update_self ..
    next hhas =>
      show w.assetPlans _ = none
      rw [hw.assetPlans, hr.assetPlans, Option.eq_none_iff_forall_ne_some]
      intro p hp
      obtain ⟨v', hv', hhas'⟩ := (hd.reachable.lawful owner).planned.mp
        (Option.isSome_iff_exists.mpr ⟨p, hp⟩)
      obtain rfl := Option.some.inj (hd.config.symm.trans hv')
      exact hhas hhas'
  · rw [hamounts, hw.ownerTokens m, hr.tokenAmounts]
  · rw [hamounts, hw.vaultTokens m, hr.tokenAmounts]
  · have hdues := emptied_dues (v := v) hd.signs hw
    have hsame : (handset.swept s owner).dues v owner = s.dues v owner := by
      unfold World.dues
      refine congrArg List.sum (List.map_congr_left fun k hk => hr.lamports k ?_)
      simp only [VaultConfig.revokedAccounts, List.mem_append, List.mem_ite_nil_right,
        List.mem_cons, List.not_mem_nil, or_false] at hk
      rcases hk with ⟨-, rfl⟩ | rfl | rfl <;> rfl
    rw [revoked_lamports, Ledger.drainAll_apply (revokedAccounts_nodup v owner)
      (not_mem_revokedAccounts hd.signs v), if_neg (not_mem_revokedAccounts hd.signs v),
      if_pos rfl]
    show w.lamports owner + w.dues v owner = _
    rw [hdues, hsame, hr.ownerLamports]

/-- What the transactions before the last one leave. -/
theorem detained (hd : Departing c node handset owner v h s) {done rest : Transaction}
    {s' : World} (hixs : exitIxs c node (handset.swept s owner) owner v = done ++ rest)
    (hrest : rest ≠ []) (hland : landsAll c (handset.swept s owner) done = some s') :
    Detained c owner (handset.sweep s) s s' := by
  have hr := hd.refunded
  have hw := (Emptied.start owner hr.reachable).run hd.signs
    (fun ix hix => withdrawals_withdraw node _ ix (mem_of_append_last hixs hrest ix hix)) hland
  refine ⟨?_, ?_, ?_, fun m => ?_, ?_⟩
  · rw [hw.vaultConfigs, hr.vaultConfigs]
  · rw [hw.heartbeatRecords, hr.heartbeatRecords]
  · rw [hw.assetPlans, hr.assetPlans]
  · have hvault := hw.vaultTokens m
    have howner := hw.ownerTokens m
    rw [hr.tokenAmounts] at hvault howner
    omega
  · have hvault := hw.vaultLamports
    have howner := hw.ownerLamports
    rw [hr.lamports _ rfl] at hvault
    rw [hr.ownerLamports] at howner
    omega

end Departing

/-- The vault can be revoked, and its associated accounts hold all that is listed. -/
structure Exitable (c : Cluster) (node : Node) (handset : Handset) (owner : Pubkey)
    (v : VaultConfig) (h : HeartbeatRecord) (s : World) : Prop where
  isMutable : v.isMutable = true
  before : s.now < v.deadlineAt h
  fits : v.deadlineAt h ≤ i64Max
  covered : ∀ m, node.holding (handset.swept s owner) (.vault owner) m ≤
    s.tokenAmounts (canonicalAta c (.vault owner) m)

/-- The amounts that the user is shown. -/
structure Shown (handset : Handset) (owner : Pubkey) (v : VaultConfig) (s : World)
    (result : RevokeResult) : Prop where
  agent : result.agent.lamports = handset.sweep s
  vault : result.vaultReturned = s.dues v owner
  total : result.totalReturned = handset.sweep s + s.dues v owner

namespace Departing

/-- All of the transactions land exactly where the vault is exitable. -/
theorem lands_iff (hd : Departing c node handset owner v h s) :
    (∃ s', landsAll c (handset.swept s owner) (exitIxs c node (handset.swept s owner) owner v) =
      some s') ↔ Exitable c node handset owner v h s := by
  have hr := hd.refunded
  have hlands := exit_lands_iff hr.reachable hd.legible
    ((congrFun hr.vaultConfigs _).trans hd.config) hd.active hd.signs
  rw [hd.leavable_iff, hr.tokenAmounts] at hlands
  rw [← Option.ne_none_iff_exists']
  refine hlands.trans ⟨?_, ?_⟩
  · rintro ⟨⟨hbefore, hfit⟩, hmutable, hcover⟩
    exact ⟨hmutable, hbefore, hfit, hcover⟩
  · rintro ⟨hmutable, hbefore, hfit, hcover⟩
    exact ⟨⟨hbefore, hfit⟩, hmutable, hcover⟩

/-- The two ways in which an exit ends. -/
theorem ends (hd : Departing c node handset owner v h s) :
    (∃ result r, (revokeEnv c node handset).revokeVault owner ⟨s, []⟩ = .ok result r ∧
      Exitable c node handset owner v h s ∧ Shown handset owner v s result ∧
      Departed c owner v (node.holding (handset.swept s owner) (.vault owner)) (handset.sweep s)
        s r.net) ∨
    (∃ e r, (revokeEnv c node handset).revokeVault owner ⟨s, []⟩ = .error e r ∧
      ¬ Exitable c node handset owner v h s ∧ Detained c owner (handset.sweep s) s r.net) := by
  have hlaw := hd.reachable.lawful owner
  have hexec : v.executed = false := by
    have hstatus := hlaw.status v hd.config
    rw [hd.active] at hstatus
    exact (Bool.not_eq_true' _).mp hstatus.symm
  rcases revokeVault_onNode hd.config hd.refunded.vaultConfigs (hlaw.accepted v hd.config).2
    hd.active hexec hd.legible with ⟨result, r, hrun, hland, hagent, htotal⟩ |
      ⟨e, r, hrun, hland, done, rest, hixs, hrest, hdone⟩
  · have hdeparted := hd.departed hland
    have hlamports := hdeparted.lamports
    obtain ⟨hall, hvault⟩ := Prod.mk.inj htotal
    refine .inl ⟨result, r, hrun, hd.lands_iff.mp ⟨_, hland⟩, ⟨hagent, ?_, ?_⟩, hdeparted⟩
    · rw [hvault]
      omega
    · rw [hall]
      omega
  · refine .inr ⟨e, r, hrun, fun hexit => ?_, hd.detained hixs hrest hdone⟩
    obtain ⟨s', hs'⟩ := hd.lands_iff.mpr hexit
    cases hland.symm.trans hs'

end Departing

namespace Sample

/-- The sample with the keeper's spare account, and with lamports at the agent's key. -/
def manned : Genesis := { crowded with lamports := (agent, 50_000_000) :: crowded.lamports }

def founding : List Cue := [.run (initializeVault beneficiaries), setAssetPlan assignments]

/-- The owner is alive. -/
def living : World := manned.world.play cluster founding

def phone : Handset where
  agent := some agent
  refusal _ := { name := "SendTransactionError", message := "custom program error" }
  toBase58 _ := ""

theorem living_evaluates :
    (manned.consistent = true ∧ manned.world.plays cluster noCheck founding = true) ∧
    living.vaultConfigs vault = some config ∧
    living.heartbeatRecords (.heartbeat vault) = some heartbeat ∧ living.now = 0 ∧
    listed quietNode (phone.swept living Sample.owner) Sample.owner = [(gold, 101)] ∧
    (living.mints gold).isSome = true ∧ (living.mints silver).isSome = true ∧
    living.tokenAmounts (ata vault) = 101 := by
  decide +kernel

theorem living_reachable : Reachable cluster living :=
  Genesis.reachable living_evaluates.1.1 living_evaluates.1.2

theorem living_tokenAccounts {k : Pubkey} {account : TokenAccount}
    (hk : living.tokenAccounts k = some account) :
    (k = .key 9 ∧ account = spare) ∨ (k = ata vault ∧ account = ⟨some .token, gold, vault⟩) ∨
      (k = ata alice ∧ account = ⟨some .token, gold, alice⟩) ∨
      (k = ata bob ∧ account = ⟨some .token, gold, bob⟩) := by
  have hsound := (Reachable.initial (Genesis.initial (c := cluster) living_evaluates.1.1)).sound
  have hlisted := hsound.play_tokenAccounts living_evaluates.1.2 hk
  simp only [Genesis.world, Option.map_eq_some_iff] at hlisted
  obtain ⟨entry, hfind, rfl⟩ := hlisted
  have hkey : entry.1 = k := by simpa using List.find?_some hfind
  subst hkey
  have hmem := List.mem_of_find?_eq_some hfind
  simp only [manned, crowded, genesis, List.mem_cons, List.not_mem_nil, or_false] at hmem
  rcases hmem with rfl | rfl | rfl | rfl
  · exact .inl ⟨rfl, rfl⟩
  · exact .inr (.inl ⟨rfl, rfl⟩)
  · exact .inr (.inr (.inl ⟨rfl, rfl⟩))
  · exact .inr (.inr (.inr ⟨rfl, rfl⟩))

theorem phone_apart : phone.Apart Sample.owner := by
  intro key hkey
  obtain rfl := Option.some.inj hkey
  decide

/-- The owner has no token account yet. -/
theorem living_none (m : Pubkey) :
    living.tokenAccounts (canonicalAta cluster Sample.owner m) = none := by
  cases hk : living.tokenAccounts (canonicalAta cluster Sample.owner m) with
  | none => rfl
  | some account =>
      rcases living_tokenAccounts hk with ⟨heq, -⟩ | ⟨heq, -⟩ | ⟨heq, -⟩ | ⟨heq, -⟩ <;> cases heq

end Sample

/-- The node lists every token account of the vault. -/
def Crank.Node.Complete (node : Node) (w : World) (vault : Pubkey) : Prop :=
  ∀ k account program, w.tokenAccounts k = some account → account.owner = vault →
    account.program = some program → k ∈ node.accounts w vault program

/-- Two listed accounts of a mint count both. -/
theorem two_le_balance {keys : List Pubkey} {f : Pubkey → Option (Pubkey × Nat)} {k k' m : Pubkey}
    {n n' : Nat} (hne : k ≠ k') (hk : k ∈ keys) (hk' : k' ∈ keys) (hf : f k = some (m, n))
    (hf' : f k' = some (m, n')) : n + n' ≤ balance (keys.filterMap f) m := by
  induction keys with
  | nil => cases hk
  | cons key keys ih =>
      by_cases hfirst : key = k
      · subst hfirst
        have hrest := le_balance ((List.mem_cons.mp hk').resolve_left hne.symm) hf'
        rw [List.filterMap_cons_some hf, balance_cons, if_pos rfl]
        exact Nat.add_le_add_left hrest _
      by_cases hsecond : key = k'
      · subst hsecond
        have hrest := le_balance ((List.mem_cons.mp hk).resolve_left hne) hf
        rw [List.filterMap_cons_some hf', balance_cons, if_pos rfl]
        dsimp only
        omega
      have hrest := ih ((List.mem_cons.mp hk).resolve_left (Ne.symm hfirst))
        ((List.mem_cons.mp hk').resolve_left (Ne.symm hsecond))
      cases hkey : f key with
      | none => rwa [List.filterMap_cons_none hkey]
      | some entry =>
          rw [List.filterMap_cons_some hkey, balance_cons]
          exact hrest.trans (Nat.le_add_left _ _)

/-- What the vault has of a mint elsewhere is more than its associated account holds. -/
theorem Crank.Node.Complete.exceeds (hall : node.Complete w (.vault owner)) (hs : w.Regular c)
    {k : Pubkey} {account : TokenAccount} {program : TokenProgram}
    (hk : w.tokenAccounts k = some account) (howner : account.owner = .vault owner)
    (hprogram : account.program = some program)
    (hne : k ≠ canonicalAta c (.vault owner) account.mint) :
    w.tokenAmounts k + w.tokenAmounts (canonicalAta c (.vault owner) account.mint) ≤
      node.holding w (.vault owner) account.mint := by
  have hlisted := hall k account program hk howner hprogram
  cases hata : w.tokenAccounts (canonicalAta c (.vault owner) account.mint) with
  | none =>
      rw [hs.vacant _ hata, Nat.add_zero]
      exact Node.listed_le_holding hlisted hk hprogram howner
  | some ata =>
      obtain rfl := hs.vaultAtas _ _ _ _ hata
      have hlisted' := hall _ _ _ hata rfl rfl
      have hcounts : (w.tokenAccounts k).bind (fun a =>
          if a.owner = .vault owner ∧ a.program = some program then
            some (a.mint, w.tokenAmounts k) else none) =
          some (account.mint, w.tokenAmounts k) := by
        rw [hk, Option.bind_some, if_pos ⟨howner, hprogram⟩]
      have hcounts' : (w.tokenAccounts (canonicalAta c (.vault owner) account.mint)).bind (fun a =>
          if a.owner = .vault owner ∧ a.program = some (c.tokenProgram account.mint) then
            some (a.mint, w.tokenAmounts (canonicalAta c (.vault owner) account.mint)) else none) =
          some (account.mint, w.tokenAmounts (canonicalAta c (.vault owner) account.mint)) := by
        rw [hata, Option.bind_some, if_pos ⟨rfl, rfl⟩]
      by_cases hsame : program = c.tokenProgram account.mint
      · subst hsame
        -- Both are in the listing of the one program.
        have hboth : w.tokenAmounts k +
            w.tokenAmounts (canonicalAta c (.vault owner) account.mint) ≤
            balance (node.held w (.vault owner) (c.tokenProgram account.mint)) account.mint :=
          two_le_balance hne hlisted hlisted' hcounts hcounts'
        unfold Node.holding
        cases hmint : c.tokenProgram account.mint <;> rw [hmint] at hboth <;> omega
      · -- Each is in the listing of its own program.
        have hown : w.tokenAmounts k ≤ balance (node.held w (.vault owner) program)
            account.mint := le_balance hlisted hcounts
        have hother : w.tokenAmounts (canonicalAta c (.vault owner) account.mint) ≤
            balance (node.held w (.vault owner) (c.tokenProgram account.mint)) account.mint :=
          le_balance hlisted' hcounts'
        unfold Node.holding
        cases hmint : c.tokenProgram account.mint <;> cases program <;>
          rw [hmint] at hsame hother <;>
          first
            | exact absurd rfl hsame
            | omega

/-- Nothing happens on the vault but heartbeats. -/
def Spares (owner : Pubkey) (e : Event) : Prop :=
  ∀ i moved, e = .executed i moved → i.vaultKey = .vault owner →
    ∃ ctx method, i = .recordHeartbeat ctx method

/-- The account is the vault's, and it is not empty. -/
def Stray (owner k : Pubkey) (account : TokenAccount) (w : World) : Prop :=
  w.tokenAccounts k = some { account with owner := .vault owner } ∧ 0 < w.tokenAmounts k

theorem Stray.step {k : Pubkey} {account : TokenAccount} {s' : World} {e : Event}
    (h : Stray owner k account s) (hs : Reachable c s) (hprogram : account.program.isSome = true)
    (hstep : Step c s e s') (hspares : Spares owner e) : Stray owner k account s' := by
  obtain ⟨hk, hpos⟩ := h
  cases hstep with
  | rejected => exact ⟨hk, hpos⟩
  | environment henv =>
      obtain ⟨hk', hle⟩ := henv.vaultTokens k _ owner hk hprogram rfl
      exact ⟨hk', hpos.trans_le hle⟩
  | @executed i _ _ hexec =>
      by_cases ho : i.vaultKey = .vault owner
      · obtain ⟨ctx, method, rfl⟩ := hspares i _ rfl ho
        obtain ⟨_, _, _, -, -, -, -, -, -, -, -, rfl⟩ := recordHeartbeat_ok hexec
        exact ⟨hk, hpos⟩
      · obtain ⟨hk', hle⟩ := (exec_confined hs.sound.regular hexec).tokens k _ hk (Ne.symm ho)
        exact ⟨hk', hpos.trans_le hle⟩

theorem Stray.run {k : Pubkey} {account : TokenAccount} {s' : World} {es : List Event}
    (h : Stray owner k account s) (hs : Reachable c s) (hprogram : account.program.isSome = true)
    (hrun : Trace (Step c) s es s') (hspares : ∀ e ∈ es, Spares owner e) :
    Stray owner k account s' :=
  ((hrun.restrict hspares).preserves (P := fun w => Reachable c w ∧ Stray owner k account w)
    (fun _ _ _ hw hstep => ⟨hw.1.step hstep.1, hw.2.step hw.1 hprogram hstep.1 hstep.2⟩)
    ⟨hs, h⟩).2

/-- **A stray account detains the owner.** Anyone who holds some of a mint can make the account
    over to an active vault. As long as nothing happens on the vault but heartbeats, the exit of
    its owner fails from then on, on every node that lists all token accounts of the vault. -/
theorem stray_account_detains {k : Pubkey} {program : TokenProgram} {account : TokenAccount}
    (hs : Reachable c s) (hk : s.tokenAccounts k = some account)
    (hprogram : account.program = some program) (howner : ∀ o', account.owner ≠ .vault o')
    (hamount : 0 < s.tokenAmounts k) :
    Environment c s (s.handOver k account owner) ∧
    ∀ es w node handset v h, Trace (Step c) (s.handOver k account owner) es w →
      (∀ e ∈ es, Spares owner e) → Departing c node handset owner v h w →
      Node.Complete node (handset.swept w owner) (.vault owner) →
      ∃ e r, (revokeEnv c node handset).revokeVault owner ⟨w, []⟩ = .error e r ∧
        Detained c owner (handset.sweep w) w r.net := by
  have henv := handOver_environment hs.sound.regular hk howner owner
  refine ⟨henv, fun es w node handset v h hrun hspares hd hall => ?_⟩
  have hstray : Stray owner k account w :=
    Stray.run ⟨handOver_self .., hamount⟩ (hs.step (.environment henv)) (by rw [hprogram]; rfl)
      hrun hspares
  have hr := hd.refunded
  have hexceeds := hall.exceeds (c := c) hr.reachable.sound.regular
    ((congrFun hr.tokenAccounts _).trans hstray.1) rfl hprogram
    (ne_vaultAta hs.sound.regular hk howner owner _ _).symm
  rw [hr.tokenAmounts] at hexceeds
  rcases hd.ends with ⟨_, _, -, hexit, -⟩ | ⟨e, r, hrun', -, hdetained⟩
  · have hcover := hexit.covered account.mint
    have hpos := hstray.2
    dsimp only at hexceeds
    omega
  · exact ⟨e, r, hrun', hdetained⟩

namespace Sample

/-- The keeper has made its spare account over. -/
def encumbered : World := living.handOver (.key 9) spare Sample.owner

theorem encumbered_evaluates :
    living.tokenAccounts (.key 9) = some spare ∧ 0 < living.tokenAmounts (.key 9) ∧
    listed openNode (phone.swept encumbered Sample.owner) Sample.owner =
      [(gold, 101), (silver, 5)] := by
  decide +kernel

theorem spare_owner (o : Pubkey) : spare.owner ≠ .vault o := Pubkey.noConfusion

theorem encumbered_departing :
    Departing cluster openNode phone Sample.owner config heartbeat encumbered where
  reachable := living_reachable.step (.environment (handOver_environment
    living_reachable.sound.regular encumbered_evaluates.1 spare_owner Sample.owner))
  config := living_evaluates.2.1
  record := living_evaluates.2.2.1
  active := rfl
  signs := rfl
  apart := phone_apart
  legible := by
    obtain ⟨-, -, -, -, -, hgold, hsilver, -⟩ := living_evaluates
    refine ⟨fun token htoken => ?_, rfl, fun m account hk => ?_⟩
    · rw [encumbered_evaluates.2.2] at htoken
      rcases List.mem_cons.mp htoken with rfl | htoken
      · exact hgold
      · obtain rfl := List.mem_singleton.mp htoken
        exact hsilver
    · have hne : canonicalAta cluster Sample.owner m ≠ .key 9 := by
        rintro ⟨⟩
      have hthere : encumbered.tokenAccounts (canonicalAta cluster Sample.owner m) = some account :=
        hk
      have hold := (handOver_of_ne hne spare Sample.owner).symm.trans hthere
      cases (living_none m).symm.trans hold

theorem encumbered_complete :
    Node.Complete openNode (phone.swept encumbered Sample.owner) (.vault Sample.owner) := by
  intro k account program hk howner hprogram
  by_cases hkey : k = .key 9
  · rw [hkey]
    exact List.mem_cons_of_mem _ (List.mem_singleton_self _)
  · have hold : living.tokenAccounts k = some account :=
      (handOver_of_ne hkey spare Sample.owner).symm.trans hk
    rcases living_tokenAccounts hold with ⟨rfl, -⟩ | ⟨rfl, rfl⟩ | ⟨-, rfl⟩ | ⟨-, rfl⟩
    · exact absurd rfl hkey
    · exact List.mem_cons_self
    · cases howner
    · cases howner

end Sample

/-- Then the owner of the sample vault cannot leave. -/
theorem stray_account_detains_sample : ∃ e r,
    (revokeEnv Sample.cluster Sample.openNode Sample.phone).revokeVault Sample.owner
      ⟨Sample.encumbered, []⟩ = .error e r ∧
    Detained Sample.cluster Sample.owner (Sample.phone.sweep Sample.encumbered) Sample.encumbered
      r.net :=
  (stray_account_detains Sample.living_reachable Sample.encumbered_evaluates.1 rfl
    Sample.spare_owner Sample.encumbered_evaluates.2.1).2 [] _ _ _ _ _ (.nil _)
    (fun _ he => absurd he List.not_mem_nil) Sample.encumbered_departing Sample.encumbered_complete

end DeadMansVault
