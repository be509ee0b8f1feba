-- SUMMARY: The closes of an executed vault: who gets its lamports, what is gone, and that it happens once.
import DeadMansVault.Guarantees.Events
import DeadMansVault.Program.Scenario

/-!
# Settlement

The keeper and the owner close an executed vault alike: the dust goes to the
beneficiary with the largest share, the rents go to the closer, and nothing else
changes hands. What a caller leaves out of the optional accounts can only make the
close fail.
-/

namespace DeadMansVault

open World

variable {c : Cluster} {o : Pubkey} {s s' : World}

/-! ## Both closes -/

/-- The accounts that a close is passed. -/
structure CloseAccounts where
  closer : Pubkey
  vaultConfig : Pubkey
  assetPlan : Option Pubkey
  largestBenef : Option Pubkey

/-- The instruction is a close of an executed vault, by anyone or by its owner. -/
def Instruction.closing : Instruction → Option CloseAccounts
  | closeExecutedVault ctx => some ⟨ctx.payer, ctx.vaultConfig, ctx.assetPlan, ctx.largestBenef⟩
  | closeExecutedVaultByOwner ctx =>
    some ⟨ctx.owner, ctx.vaultConfig, ctx.assetPlan, ctx.largestBenef⟩
  | _ => none

/-- The accounts of the vault that the close empties. -/
def VaultConfig.closedAccounts (v : VaultConfig) (vaultKey : Pubkey) : List Pubkey :=
  (if v.hasAssetPlan then [.assetPlan vaultKey] else []) ++
    [vaultKey, .heartbeat vaultKey, .execution vaultKey]

/-- The lamports of the vault above its rent. -/
def World.solDust (c : Cluster) (s : World) (vaultKey : Pubkey) : Nat :=
  s.lamports vaultKey - c.minimumBalance VaultConfig.space

/-- The rents that the closer gets. -/
def World.closeReward (c : Cluster) (s : World) (v : VaultConfig) (vaultKey : Pubkey) : Nat :=
  c.minimumBalance VaultConfig.space + s.lamports (.heartbeat vaultKey) +
    s.lamports (.execution vaultKey) +
    if v.hasAssetPlan then s.lamports (.assetPlan vaultKey) else 0

/-- What a close has found, and what it leaves behind. -/
structure Settles (c : Cluster) (a : CloseAccounts) (v : VaultConfig) (wallet : Pubkey)
    (s s' : World) : Prop where
  /-- The plan's account was passed if there is a plan. -/
  plan : v.hasAssetPlan = true → a.assetPlan = some (.assetPlan a.vaultConfig)
  balances : ∀ k, s'.lamports k =
    if k ∈ v.closedAccounts a.vaultConfig then 0
    else s.lamports k + (if k = wallet then s.solDust c a.vaultConfig else 0) +
      if k = a.closer then s.closeReward c v a.vaultConfig else 0
  total : ∀ F : Finset Pubkey, (∀ k ∈ v.closedAccounts a.vaultConfig, k ∈ F) → a.closer ∈ F →
    wallet ∈ F → ∑ k ∈ F, s'.lamports k = ∑ k ∈ F, s.lamports k
  config : s'.vaultConfigs a.vaultConfig = none
  record : s'.heartbeatRecords (.heartbeat a.vaultConfig) = none
  log : s'.executionLogs (.execution a.vaultConfig) = none
  assets : s'.assetPlans (.assetPlan a.vaultConfig) = none

/-! ## The lamports of a close -/

theorem closePlan_lamports (v : VaultConfig) (vaultKey dest : Pubkey) :
    (s.closePlan v vaultKey dest).lamports = Ledger.drainAll s.lamports dest
      (if v.hasAssetPlan then [.assetPlan vaultKey] else []) := by
  unfold World.closePlan
  split <;> rfl

theorem drainAll_append {l : Pubkey → Nat} {b : Pubkey} (as as' : List Pubkey) :
    Ledger.drainAll l b (as ++ as') = Ledger.drainAll (Ledger.drainAll l b as) b as' := by
  induction as generalizing l with
  | nil => rfl
  | cons a as ih => exact ih

/-- After the dust is paid, every account closed is drained to `dest`. -/
theorem settleAndClose_lamports {v : VaultConfig} {plan : Option AssetPlan}
    {dest : Pubkey} (wallet : Pubkey) {largestBenef : Option Pubkey}
    (hwallet : ∀ benef, v.beneficiaries[largestShareIndex v.beneficiaries]? = some benef →
      benef.wallet = wallet)
    (h : settleAndClose c v plan (.vault o) (.heartbeat (.vault o)) (.execution (.vault o)) dest
      largestBenef s = .ok s') :
    s'.lamports = Ledger.drainAll
      (Ledger.move s.lamports (.vault o) wallet (s.solDust c (.vault o))) dest
      (v.closedAccounts (.vault o)) := by
  obtain ⟨recipient, s₁, hdust, rfl, rfl⟩ := settleAndClose_ok h
  have hpaid : Ledger.move s.lamports (.vault o) recipient (s.solDust c (.vault o)) =
      Ledger.move s.lamports (.vault o) wallet (s.solDust c (.vault o)) := by
    rcases Nat.eq_zero_or_pos (s.solDust c (.vault o)) with hzero | hpos
    · rw [hzero, Ledger.move_zero, Ledger.move_zero]
    · obtain ⟨benef, hbenef, rfl⟩ := hdust hpos
      rw [hwallet benef hbenef]
  rw [VaultConfig.closedAccounts, drainAll_append, ← hpaid]
  have hplan := closePlan_lamports (s := s.paySol (.vault o) recipient (s.solDust c (.vault o))
    .solDust) v (.vault o) dest
  have hsol : (s.paySol (.vault o) recipient (s.solDust c (.vault o)) .solDust).lamports =
      Ledger.move s.lamports (.vault o) recipient (s.solDust c (.vault o)) := rfl
  rw [hsol] at hplan
  rw [← hplan]
  rfl

theorem closedAccounts_nodup (v : VaultConfig) : (v.closedAccounts (.vault o)).Nodup := by
  unfold VaultConfig.closedAccounts
  split <;> simp

theorem not_mem_closedAccounts {k : Pubkey} (h : ¬ Pubkey.Within (.vault o) k)
    (v : VaultConfig) : k ∉ v.closedAccounts (.vault o) := by
  intro hmem
  unfold VaultConfig.closedAccounts at hmem
  simp only [List.mem_append, List.mem_ite_nil_right, List.mem_cons, List.not_mem_nil,
    or_false] at hmem
  rcases hmem with ⟨-, rfl⟩ | rfl | rfl | rfl
  · exact h .assetPlan
  · exact h .self
  · exact h .heartbeat
  · exact h .execution

theorem not_within_of_canSign {k : Pubkey} (h : k.canSign = true) :
    ¬ Pubkey.Within (.vault o) k := by
  rintro (_ | _)
  all_goals cases h

/-- What the close empties, once the dust is out, is the closer's reward. -/
theorem sum_closedAccounts {v : VaultConfig} {wallet : Pubkey}
    (hrent : c.minimumBalance VaultConfig.space ≤ s.lamports (.vault o))
    (hwallet : ¬ Pubkey.Within (.vault o) wallet) :
    ((v.closedAccounts (.vault o)).map
      (Ledger.move s.lamports (.vault o) wallet (s.solDust c (.vault o)))).sum =
      s.closeReward c v (.vault o) := by
  have hvault : Ledger.move s.lamports (.vault o) wallet (s.solDust c (.vault o)) (.vault o) =
      c.minimumBalance VaultConfig.space := by
    rw [Ledger.move_source fun heq : Pubkey.vault o = wallet => hwallet (heq ▸ .self), World.solDust]
    omega
  have hkept : ∀ k, Pubkey.Within (.vault o) k → k ≠ .vault o →
      Ledger.move s.lamports (.vault o) wallet (s.solDust c (.vault o)) k = s.lamports k :=
    fun k hk hne => Ledger.move_of_ne hne fun heq => hwallet (heq ▸ hk)
  unfold VaultConfig.closedAccounts World.closeReward
  rw [List.map_append, List.sum_append, List.map_cons, List.map_cons, List.map_singleton,
    List.sum_cons, List.sum_cons, List.sum_singleton, hvault, hkept _ .heartbeat (by simp),
    hkept _ .execution (by simp)]
  split
  · rw [List.map_singleton, List.sum_singleton, hkept _ .assetPlan (by simp)]
    omega
  · rw [List.map_nil, List.sum_nil]
    omega

theorem closeRegisteredPlan_plan {v : VaultConfig} {plan : Option AssetPlan}
    {vaultKey dest : Pubkey} (h : closeRegisteredPlan s v plan vaultKey dest = .ok s')
    (hhas : v.hasAssetPlan = true) : plan.isSome = true := by
  simp only [closeRegisteredPlan, hhas, if_true, Except.bind_eq_ok, okOr_eq_ok] at h
  obtain ⟨p, rfl, -⟩ := h
  rfl

theorem settleAndClose_plan {v : VaultConfig} {plan : Option AssetPlan}
    {vaultKey heartbeatKey logKey dest : Pubkey} {key largestBenef : Option Pubkey}
    (hload : s.loadOptionalAssetPlan vaultKey key = .ok plan)
    (h : settleAndClose c v plan vaultKey heartbeatKey logKey dest largestBenef s = .ok s')
    (hhas : v.hasAssetPlan = true) : key = some (.assetPlan vaultKey) := by
  simp only [settleAndClose, Except.bind_eq_ok] at h
  obtain ⟨_, -, _, hplan, -⟩ := h
  have hsome := closeRegisteredPlan_plan hplan hhas
  cases key with
  | none =>
      cases hload
      cases hsome
  | some k =>
      simp only [loadOptionalAssetPlan, Except.bind_eq_ok, require_eq_ok, exists_const] at hload
      obtain ⟨_, -, hk, -⟩ := hload
      rw [hk]

/-- The gate and the settlement of a close, whichever of the two it is. -/
theorem closing_ok {i : Instruction} {a : CloseAccounts} (hi : i.closing = some a)
    (h : i.dispatch c s = .ok s') :
    ∃ v l plan, a.closer.canSign = true ∧ Closable s a.vaultConfig v l ∧
      s.loadOptionalAssetPlan a.vaultConfig a.assetPlan = .ok plan ∧
      settleAndClose c v plan a.vaultConfig (.heartbeat a.vaultConfig) (.execution a.vaultConfig)
        a.closer a.largestBenef s = .ok s' := by
  unfold Instruction.dispatch at h
  cases i with
  | closeExecutedVault ctx =>
      cases hi
      obtain ⟨v, l, -, hsign, hgate, -⟩ := closeExecutedVault_ok h
      simp only [closeExecutedVault, Except.bind_eq_ok, require_eq_ok, requireSeeds_eq_ok,
        loadVaultConfig_eq_ok, exists_const] at h
      obtain ⟨-, -, v', hv', -, -, -, -, plan, hplan, -, -, hheart, -, hlog, -, -, -, -, -, -, h⟩ := h
      obtain rfl := Option.some.inj (hgate.config.symm.trans hv')
      rw [hheart, hlog] at h
      exact ⟨v, l, plan, hsign, hgate, hplan, h⟩
  | closeExecutedVaultByOwner ctx =>
      cases hi
      obtain ⟨v, l, -, hsign, hgate, -⟩ := closeExecutedVaultByOwner_ok h
      simp only [closeExecutedVaultByOwner, Except.bind_eq_ok, require_eq_ok, requireSeeds_eq_ok,
        loadVaultConfig_eq_ok, exists_const] at h
      obtain ⟨-, -, v', hv', -, -, -, -, plan, hplan, -, -, -, hheart, -, hlog, -, -, h⟩ := h
      obtain rfl := Option.some.inj (hgate.config.symm.trans hv')
      rw [hheart, hlog] at h
      exact ⟨v, l, plan, hsign, hgate, hplan, h⟩
  | _ => cases hi

theorem closing_settles {i : Instruction} {a : CloseAccounts} (hreach : Reachable c s)
    (hi : i.closing = some a) (h : exec c i s = .ok s')
    (hwallets : ∀ v, s.vaultConfigs a.vaultConfig = some v →
      ∀ b ∈ v.beneficiaries, ¬ Pubkey.Within a.vaultConfig b.wallet) :
    ∃ v benef, s.vaultConfigs a.vaultConfig = some v ∧
      v.beneficiaries[largestShareIndex v.beneficiaries]? = some benef ∧
      (∀ b ∈ v.beneficiaries, b.shareBps ≤ benef.shareBps) ∧
      Settles c a v benef.wallet s s' := by
  obtain ⟨v, l, plan, hsign, hgate, hload, hsettle⟩ := closing_ok hi h
  obtain ⟨o, ho⟩ : ∃ o, a.vaultConfig = .vault o := ⟨v.owner, hgate.seeds⟩
  have hv : s.vaultConfigs (.vault o) = some v := ho ▸ hgate.config
  have hlaw := hreach.lawful o
  have hrent : c.minimumBalance VaultConfig.space ≤ s.lamports (.vault o) :=
    (hreach.solvent o).rent v hv
  obtain ⟨benef, hbenef, hmax⟩ := largestShareIndex_spec (hlaw.accepted v hv).1.count.1
  have hwallet := hwallets v hgate.config benef (List.mem_of_getElem? hbenef)
  have hplan := settleAndClose_plan hload hsettle
  refine ⟨v, benef, hgate.config, hbenef, hmax, ?_⟩
  rw [ho] at hwallet hsettle hplan
  have hlamports := settleAndClose_lamports benef.wallet
    (fun b hb => by rw [Option.some.inj (hb.symm.trans hbenef)]) hsettle
  have hcloser := not_mem_closedAccounts (not_within_of_canSign (o := o) hsign) v
  have hdust : s.fresh.solDust c (.vault o) = s.solDust c (.vault o) := rfl
  obtain ⟨recipient, s₁, -, hs₁, hs'⟩ := settleAndClose_ok hsettle
  exact {
    plan := by rwa [ho]
    balances := fun k => by
      rw [ho, hlamports, Ledger.drainAll_apply (closedAccounts_nodup v) hcloser]
      split
      · rfl
      next hk =>
        have hvault : k ≠ .vault o := by
          rintro rfl
          exact hk (by simp [VaultConfig.closedAccounts])
        rw [Ledger.move_of_ne_source hvault, sum_closedAccounts (s := s.fresh) hrent hwallet]
        rfl
    total := fun F hclosed hdest hin => by
      rw [ho] at hclosed
      rw [hlamports, Ledger.sum_drainAll hclosed hdest]
      refine Ledger.sum_move (hclosed _ (by simp [VaultConfig.closedAccounts])) hin ?_
      exact Nat.sub_le _ _
    config := by
      rw [ho, hs', hs₁]
      simp [closePair]
    record := by
      rw [ho, hs', hs₁]
      simp [closePair]
    log := by
      rw [ho, hs']
      simp
    assets := by
      rw [ho, hs', hs₁]
      have hgone := hlaw.closed_plan hv
      unfold closePair closePlan
      split
      · simp
      next hhas =>
        rw [if_neg hhas] at hgone
        have hnone : s.assetPlans (.assetPlan (.vault o)) = none := hgone
        simpa using hnone }

/-! ## Once -/

/-- The event creates the vault of `o`. -/
def Event.initializes (o : Pubkey) : Event → Bool
  | executed i _ => decide (i.vaultKey = .vault o) && decide (i.kind = .setup)
  | _ => false

/-- A vault that is gone stays so until it is created again. -/
theorem gone_step {e : Event} (hs : s.Sound c) (hstep : Step c s e s')
    (hgone : s.vaultConfigs (.vault o) = none) (hinit : e.initializes o = false) :
    s'.vaultConfigs (.vault o) = none := by
  obtain ⟨acts, hacts, hans⟩ := step_refines hs hstep o
  have hcreate : ∀ a ∈ acts, a.deed ≠ .create := by
    intro a ha hdeed
    obtain ⟨i, moved, rfl, ho, hunf⟩ := hans.own ha (by simp [hdeed])
    have hkind := hunf.kind _ (List.mem_map_of_mem ha)
    rw [hdeed] at hkind
    simp [Event.initializes, ho, show i.kind = .setup by simpa [Deed.kinds] using hkind] at hinit
  have hend := (hacts.restrict hcreate).preserves (P := fun E => E.config = none)
    (fun E a E' hE hone => ?_) hgone
  · exact hend
  obtain ⟨hone, hcreate⟩ := hone
  cases hone with
  | interfere _ _ _ => exact hE
  | create _ _ _ _ _ _ _ => exact absurd rfl hcreate
  | tokenShare hv _ _ _ _ _ => exact hE
  | amend hv | withdraw hv | revoke hv | closeRevoked hv | begin hv | beginDist hv
  | specificAsset hv | specificSol hv | solShare hv | finalize hv | closeDist hv | close hv =>
      exact absurd (hv.symm.trans hE) (Option.some_ne_none _)

theorem gone_run {es : List Event} (hs : s.Sound c) (hrun : Trace (Step c) s es s')
    (hgone : s.vaultConfigs (.vault o) = none) (hinit : ∀ e ∈ es, e.initializes o = false) :
    s'.Sound c ∧ s'.vaultConfigs (.vault o) = none :=
  (hrun.restrict hinit).preserves (P := fun t => t.Sound c ∧ t.vaultConfigs (.vault o) = none)
    (fun _ _ _ ⟨ht, hgone⟩ ⟨hstep, hinit⟩ => ⟨ht.step hstep, gone_step ht hstep hgone hinit⟩)
    ⟨hs, hgone⟩

/-- **Close settlement.** A close by anyone and a close by the owner settle alike, whatever
optional accounts they are passed; the vault is then gone, and is not closed again until it
has been created again. -/
theorem close_settlement {i : Instruction} {a : CloseAccounts} (hreach : Reachable c s)
    (hi : i.closing = some a) (h : exec c i s = .ok s')
    (hwallets : ∀ v, s.vaultConfigs a.vaultConfig = some v →
      ∀ b ∈ v.beneficiaries, ¬ Pubkey.Within a.vaultConfig b.wallet) :
    ∃ v benef, s.vaultConfigs a.vaultConfig = some v ∧ a.vaultConfig = .vault v.owner ∧
      v.beneficiaries[largestShareIndex v.beneficiaries]? = some benef ∧
      (∀ b ∈ v.beneficiaries, b.shareBps ≤ benef.shareBps) ∧
      Settles c a v benef.wallet s s' ∧
      ∀ es s'', Trace (Step c) s' es s'' → (∀ e ∈ es, e.initializes v.owner = false) →
        ∀ e ∈ es, e.closes v.owner = false := by
  obtain ⟨v, benef, hv, hbenef, hmax, hsettles⟩ := closing_settles hreach hi h hwallets
  obtain ⟨v', l, -, -, hgate, -⟩ := closing_ok hi h
  obtain rfl := Option.some.inj (hv.symm.trans hgate.config)
  have hseeds : a.vaultConfig = .vault v.owner := hgate.seeds
  refine ⟨v, benef, hv, hseeds, hbenef, hmax, hsettles, fun es s'' hrun hinit e he => ?_⟩
  obtain ⟨t, t', pre, post, rfl, hpre, hstep, -⟩ := hrun.mem_split he
  have hgone := gone_run (hreach.step (.executed h)).sound hpre (hseeds ▸ hsettles.config)
    fun e he => hinit e (List.mem_append_left _ he)
  cases hstep with
  | rejected => rfl
  | environment => rfl
  | @executed j _ _ hexec =>
      cases hcloses : Event.closes v.owner (.executed j t'.moved) with
      | false => rfl
      | true =>
          simp only [Event.closes, Bool.and_eq_true, decide_eq_true_eq] at hcloses
          obtain ⟨hkey, hkind⟩ := hcloses
          have hfound := exec_gate hgone.1 hexec
          rw [hkind, hkey] at hfound
          obtain ⟨w, _, hw⟩ := hfound
          exact absurd (hw.config.symm.trans hgone.2) (Option.some_ne_none _)

/-! A close by anyone once the estate is settled and the owner's time is up. -/

namespace Sample

def closeByKeeper : CloseExecutedVault where
  payer := keeper
  vaultConfig := vault
  heartbeatRecord := .heartbeat vault
  executionLog := .execution vault
  assetPlan := some (.assetPlan vault)
  largestBenef := some alice

/-- The sample estate at a time when anyone may close its vault. -/
def abandoned : World := settled.cue cluster (.wait 10_000_000)

theorem abandoned_evaluates :
    settled.accepts cluster (.wait 10_000_000) = true ∧
      abandoned.accepts cluster (.run (.closeExecutedVault closeByKeeper)) = true := by
  decide +kernel

theorem abandoned_reachable : Reachable cluster abandoned :=
  settled_reachable.step (settled_reachable.sound.regular.cue abandoned_evaluates.1)

end Sample

theorem close_settlement_sample :
    Settles Sample.cluster
      ⟨Sample.keeper, Sample.vault, some (.assetPlan Sample.vault), some Sample.alice⟩
      { Sample.config with executed := true, active := false } Sample.alice Sample.abandoned
      (Sample.abandoned.cue Sample.cluster (.run (.closeExecutedVault Sample.closeByKeeper))) := by
  have hconfig : Sample.abandoned.vaultConfigs Sample.vault =
      some { Sample.config with executed := true, active := false } := Sample.settled_config
  have hwallets : ∀ v, Sample.abandoned.vaultConfigs Sample.vault = some v →
      ∀ b ∈ v.beneficiaries, ¬ Pubkey.Within Sample.vault b.wallet := by
    intro v hv b hb
    obtain rfl := Option.some.inj (hconfig.symm.trans hv)
    have hall : ∀ b ∈ Sample.beneficiaries, b.wallet.canSign = true := by decide
    exact not_within_of_canSign (hall b hb)
  obtain ⟨v, benef, hv, -, hbenef, -, hsettles, -⟩ := close_settlement Sample.abandoned_reachable
    (i := .closeExecutedVault Sample.closeByKeeper) rfl (exec_cue Sample.abandoned_evaluates.2)
    hwallets
  obtain rfl := Option.some.inj (hconfig.symm.trans hv)
  obtain rfl : (⟨Sample.alice, 6_000⟩ : Beneficiary) = benef := by
    have hlargest : Sample.beneficiaries[largestShareIndex Sample.beneficiaries]? =
        some ⟨Sample.alice, 6_000⟩ := by decide
    exact Option.some.inj (hlargest.symm.trans hbenef)
  exact hsettles

end DeadMansVault
